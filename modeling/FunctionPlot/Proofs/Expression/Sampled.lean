/-
# What becomes of sampling

Three things stand against sampling a compiled expression, and they are looked at in this order: the
range, the number of points, and a free variable that is not the sampled one.  If there are none of
them and no rule of the table is broken, there are as many points as were asked for, each of which
shows the value of the expression at its place and nothing else (`Expression.sample_outcome`).

Over a table with finite constants all heights are finite, so that the curve has bounds unless it is
all holes (`Curve.bounds_eq_ok`).
-/
import FunctionPlot.Proofs.Expression.Finite
import FunctionPlot.Proofs.Interval
import FunctionPlot.Proofs.Settings

namespace FunctionPlot

section MapM

variable {ε α β : Type} {f : α → Except ε β} {R : α → β → Prop} {l : List α}

lemma exists_mapM_eq_ok (h : ∀ a ∈ l, ∃ b, f a = .ok b ∧ R a b) :
    ∃ bs, l.mapM f = .ok bs ∧ List.Forall₂ R l bs := by
  induction l with
  | nil => exact ⟨[], rfl, .nil⟩
  | cons a rest ih =>
    obtain ⟨⟨b, hb, hab⟩, hrest⟩ := List.forall_mem_cons.mp h
    obtain ⟨bs, hbs, hrel⟩ := ih hrest
    refine ⟨b :: bs, ?_, .cons hab hrel⟩
    rw [List.mapM_cons, hb, hbs]
    rfl

lemma forall₂_of_mapM_eq_ok {bs : List β} (h : l.mapM f = .ok bs) :
    List.Forall₂ (fun a b => f a = .ok b) l bs := by
  induction l generalizing bs with
  | nil =>
    cases h
    exact .nil
  | cons a rest ih =>
    rw [List.mapM_cons] at h
    obtain ⟨b, hb, h⟩ := bind_eq_ok.mp h
    obtain ⟨rest', hrest, h⟩ := bind_eq_ok.mp h
    cases h
    exact .cons hb (ih hrest)

end MapM

/-- If names do not all have a property, there is a first one that has not. -/
lemma exists_first {α : Type} (p : α → Prop) {l : List α} (h : ∃ a ∈ l, ¬ p a) :
    ∃ before a after, l = before ++ a :: after ∧ (∀ b ∈ before, p b) ∧ ¬ p a := by
  induction l with
  | nil => simp at h
  | cons a rest ih =>
    by_cases ha : p a
    · obtain ⟨b, hb, hpb⟩ := h
      have hrest : ∃ b ∈ rest, ¬ p b :=
        ⟨b, (List.mem_cons.mp hb).resolve_left fun heq => hpb (heq ▸ ha), hpb⟩
      obtain ⟨before, b, after, rfl, hbefore, hpb⟩ := ih hrest
      exact ⟨a :: before, b, after, rfl, List.forall_mem_cons.mpr ⟨ha, hbefore⟩, hpb⟩
    · exact ⟨[], a, rest, rfl, by simp, ha⟩

lemma Entries.mem_of_get?_eq_some {α : Type} {entries : Entries α} {name : Text} {meaning : α}
    (h : entries.get? name = some meaning) : (name, meaning) ∈ entries := by
  obtain ⟨entry, hfind, rfl⟩ := Option.map_eq_some_iff.mp h
  have hname := List.find?_some hfind
  simp only [beq_iff_eq] at hname
  rw [← hname]
  exact List.mem_of_find?_eq_some hfind

/-! ### Rules that are not broken -/

/-- A rule gives a number, or it says that there is none at its arguments. -/
def Rule.Unbroken (rule : Rule) : Prop := ∀ xs message, rule xs ≠ .error (.broken message)

/-- No rule of a table is broken. -/
def SymbolTable.Unbroken (table : SymbolTable) : Prop :=
  ∀ name function, table.functionSymbol? name = some function → Rule.Unbroken function.rule

lemma Rule.unbroken_ofUnary (f : Float → Float) : Unbroken (ofUnary f) := fun _ _ => nofun

lemma Rule.unbroken_ofBinary (f : Float → Float → Float) : Unbroken (ofBinary f) := fun _ _ => nofun

lemma Rule.unbroken_logarithm : Unbroken logarithm := by
  intro xs message
  rw [logarithm]
  split <;> nofun

lemma Rule.unbroken_squareRoot : Unbroken squareRoot := by
  intro xs message
  rw [squareRoot]
  split <;> nofun

lemma SymbolTable.unbroken_standard : standard.Unbroken := by
  intro name function h
  have hmem : (name, function) ∈ standardFunctions := Entries.mem_of_get?_eq_some h
  simp only [standardFunctions, List.mem_cons, List.not_mem_nil, or_false, Prod.mk.injEq] at hmem
  rcases hmem with h | h | h | h | h | h | h | h | h <;> obtain ⟨-, rfl⟩ := h
  · exact Rule.unbroken_ofUnary _
  · exact Rule.unbroken_ofUnary _
  · exact Rule.unbroken_ofUnary _
  · exact Rule.unbroken_ofUnary _
  · exact Rule.unbroken_logarithm
  · exact Rule.unbroken_squareRoot
  · exact Rule.unbroken_ofUnary _
  · exact Rule.unbroken_ofBinary _
  · exact Rule.unbroken_ofBinary _

namespace SamplePoint

/-- The height of a point is finite if it has one. -/
def Bounded (p : SamplePoint) : Prop := ∀ y, p.y? = some y → y.isFinite

end SamplePoint

namespace Curve

variable {points : List SamplePoint}

/-- A curve of points with finite heights has bounds, or it is all holes. -/
theorem bounds_eq_ok (h : ∀ p ∈ points, p.Bounded) :
    bounds points = .ok none ∨
      ∃ i, bounds points = .ok (some i) ∧ i.low.isFinite ∧ i.high.isFinite := by
  have hfinite : ∀ y ∈ points.filterMap (·.y?), y.isFinite := fun y hy => by
    obtain ⟨p, hp, hpy⟩ := List.mem_filterMap.mp hy
    exact h p hp y hpy
  rw [bounds]
  split
  · exact .inl rfl
  · rename_i hne
    obtain ⟨i, hi, hlow, hhigh, -⟩ := Interval.hull_eq_ok (fun h => hne h) hfinite
    exact .inr ⟨i, by rw [hi]; rfl, hfinite _ hlow, hfinite _ hhigh⟩

end Curve

/-! ### Free variables -/

lemma SymbolTable.mem_independentVariables {table : SymbolTable} {name : Text}
    (h : table.IsIndependent name) : name ∈ table.independentVariables := by
  obtain ⟨description, hmeaning⟩ := h
  rw [independentVariables]
  exact List.mem_map_of_mem (List.mem_filter.mpr ⟨Entries.mem_of_get?_eq_some hmeaning, rfl⟩)

/-- A point shows an expression of one variable.  Its height is the value of the expression there,
and it is a hole just where the expression is outside of its domain. -/
structure SamplePoint.Shows (p : SamplePoint) (e : Expression) (name : Text) : Prop where
  height_iff : ∀ y, p.y? = some y ↔ e.value (.single name p.x) = .ok y
  hole_iff : p.y? = none ↔
    ∃ kind position, e.value (.single name p.x) = .error (.domain kind position)

namespace Expression

variable {source name : Text} {table : SymbolTable} {e : Expression} {settings : Settings}
  {low high count : Float} {n : Nat} {p : SamplePoint}

/-- The free variables of an expression are independent variables of its table. -/
lemma freeVariables_subset (hcompile : compile source table = .ok e) :
    e.freeVariables ⊆ table.independentVariables := by
  obtain ⟨f, seen, -, hcheck, rfl⟩ := compile_eq_ok_iff.mp hcompile
  intro name hname
  rcases (Formula.mem_checkFrom hcheck).mp hname with hnil | ⟨-, hindependent⟩
  · exact absurd hnil List.not_mem_nil
  · exact SymbolTable.mem_independentVariables hindependent

/-! ### Points -/

/-- An expression whose variables have numbers fails only outside of its domain. -/
lemma domain_of_bound (hcompile : compile source table = .ok e) (hrules : table.Unbroken)
    {bindings : Bindings} (hbound : ∀ other ∈ e.freeVariables, (bindings other).isSome)
    {fault : ValueFault} (h : e.value bindings = .error fault) :
    ∃ kind position, fault = .domain kind position := by
  obtain ⟨f, seen, -, hcheck, rfl⟩ := compile_eq_ok_iff.mp hcompile
  have hsafe := Formula.safe_value (Formula.resolves_of_checkFrom hcheck).2 hbound
  change f.value table bindings = .error fault at h
  rw [h] at hsafe
  cases fault with
  | domain kind position => exact ⟨kind, position, rfl⟩
  | broken message =>
    obtain ⟨function, xs, meaning, -, hmeaning, hrule⟩ := hsafe
    exact absurd hrule (hrules function meaning hmeaning xs message)
  | unknownVariable name | unknownFunction name | unbound name => exact hsafe.elim

/-- At every value of the variable an expression has a value or is outside of its domain. -/
lemma value_or_domain (hcompile : compile source table = .ok e) (hrules : table.Unbroken)
    (hfree : ∀ other ∈ e.freeVariables, other = name) (x : Float) :
    (∃ y, e.value (.single name x) = .ok y) ∨
      ∃ kind position, e.value (.single name x) = .error (.domain kind position) := by
  have hbound : ∀ other ∈ e.freeVariables, (Bindings.single name x other).isSome := by
    intro other hother
    obtain rfl := hfree other hother
    simp [Bindings.single]
  cases hresult : e.value (.single name x) with
  | ok y => exact .inl ⟨y, rfl⟩
  | error fault =>
    obtain ⟨kind, position, rfl⟩ := domain_of_bound hcompile hrules hbound hresult
    exact .inr ⟨kind, position, rfl⟩

/-- At every value of the variable there is a point. -/
lemma exists_pointAt (hcompile : compile source table = .ok e) (hrules : table.Unbroken)
    (hfree : ∀ other ∈ e.freeVariables, other = name) (x : Float) :
    ∃ p, e.pointAt name x = .ok p ∧ p.x = x ∧ p.Shows e name := by
  rw [pointAt]
  rcases value_or_domain hcompile hrules hfree x with ⟨y, hy⟩ | ⟨kind, position, hdomain⟩
  · rw [hy]
    refine ⟨⟨x, some y⟩, rfl, rfl, ?_, ?_⟩ <;> simp [hy]
  · rw [hdomain]
    refine ⟨⟨x, none⟩, rfl, rfl, ?_, ?_⟩ <;> simp [hdomain]

/-- A point stands where the expression was evaluated. -/
lemma x_of_pointAt {x : Float} (h : e.pointAt name x = .ok p) : p.x = x := by
  rw [pointAt] at h
  split at h <;> cases h <;> rfl

/-- The height of a point is finite if the numbers are that go into it. -/
lemma bounded_of_shows (hcompile : compile source table = .ok e)
    (hconstants : table.FiniteConstants) (hp : p.Shows e name) : p.Bounded := by
  have hnumbers := finiteConstants_root hcompile
  obtain ⟨f, seen, -, -, rfl⟩ := compile_eq_ok_iff.mp hcompile
  intro y hy
  exact Formula.isFinite_of_value hconstants hnumbers ((hp.height_iff y).mp hy)

/-! ### Samples -/

/-- A range that can be sampled. -/
structure IsRange (low high : Float) : Prop where
  low_finite : low.isFinite
  high_finite : high.isFinite
  low_lt_high : low < high

/-- The natural number that a number of points stands for. -/
structure IsCount (count : Float) (n : Nat) : Prop where
  two_le : 2 ≤ n
  rational?_eq : Number.rational? count = some (n : Rat)

lemma not_isRange_iff :
    ¬ IsRange low high ↔ ¬ low.isFinite ∨ ¬ high.isFinite ∨ high ≤ low := by
  have hand : IsRange low high ↔ low.isFinite ∧ high.isFinite ∧ ¬ high ≤ low := by
    constructor
    · rintro ⟨hlow, hhigh, hlt⟩
      exact ⟨hlow, hhigh, (Number.not_le_iff_lt hlow hhigh).mpr hlt⟩
    · rintro ⟨hlow, hhigh, hle⟩
      exact ⟨hlow, hhigh, (Number.not_le_iff_lt hlow hhigh).mp hle⟩
  rw [hand, not_and_or, not_and_or, not_not]

lemma sample_of_not_isRange (h : ¬ IsRange low high) (e : Expression) (name : Text)
    (count : Float) : e.sample name low high count = .error (.invalidRange low high) := by
  rw [not_isRange_iff] at h
  rw [sample, if_pos (by simpa [or_assoc] using h)]

lemma sample_of_isRange (h : IsRange low high) (e : Expression) (name : Text) (count : Float) :
    e.sample name low high count
      = if !Number.isInteger count || count < 2 then .error (.invalidCount count)
        else (e.freeVariables.find? (· ≠ name)).elim
          ((List.range (Number.toNat count)).mapM fun i =>
            e.pointAt name (gridValue low high (Number.toNat count - 1) i))
          fun other => .error (.otherVariable other name) := by
  have hle := (Number.not_le_iff_lt h.low_finite h.high_finite).mpr h.low_lt_high
  rw [sample, if_neg (by simp [h.low_finite, h.high_finite, hle])]
  cases e.freeVariables.find? (· ≠ name) <;> rfl

lemma sample_of_not_isCount (hrange : IsRange low high) (hcount : ∀ n, ¬ IsCount count n)
    (e : Expression) (name : Text) :
    e.sample name low high count = .error (.invalidCount count) := by
  rw [sample_of_isRange hrange, if_pos]
  by_contra hvalid
  obtain ⟨n, htwo, hn⟩ := Number.isInteger_and_two_le_iff.mp (by simpa using hvalid)
  exact hcount n ⟨htwo, hn⟩

/-- Over a range and for a number of points that can be sampled, nothing but a free variable stands
against sampling. -/
lemma sample_of_isCount (hrange : IsRange low high) (hcount : IsCount count n) (e : Expression)
    (name : Text) :
    e.sample name low high count
      = (e.freeVariables.find? (· ≠ name)).elim
          ((List.range n).mapM fun i => e.pointAt name (gridValue low high (n - 1) i))
          fun other => .error (.otherVariable other name) := by
  obtain ⟨hinteger, hlarge⟩ :=
    Number.isInteger_and_two_le_iff.mpr ⟨n, hcount.two_le, hcount.rational?_eq⟩
  rw [sample_of_isRange hrange, if_neg (by simp [hinteger, hlarge]),
    Number.toNat_of_rational? hcount.rational?_eq]

/-- If there are points, then over a range and as many as were asked for, and each of them stands at
the place of its index. -/
theorem places_of_sample {points : List SamplePoint}
    (h : e.sample name low high count = .ok points) :
    IsRange low high ∧ ∃ n, IsCount count n ∧ points.length = n ∧
      ∀ i p, points[i]? = some p → p.x = gridValue low high (n - 1) i := by
  have hrange : IsRange low high := by
    by_contra hbad
    rw [sample_of_not_isRange hbad] at h
    cases h
  have hcount : ∃ n, IsCount count n := by
    by_contra hbad
    rw [sample_of_not_isCount hrange (not_exists.mp hbad)] at h
    cases h
  obtain ⟨n, hn⟩ := hcount
  rw [sample_of_isCount hrange hn] at h
  cases hfree : e.freeVariables.find? (· ≠ name) with
  | some other =>
    rw [hfree] at h
    cases h
  | none =>
    rw [hfree, Option.elim_none] at h
    have hrel := forall₂_of_mapM_eq_ok h
    have hlength : points.length = n := by rw [← hrel.length_eq, List.length_range]
    refine ⟨hrange, n, hn, hlength, fun i p hp => ?_⟩
    obtain ⟨hi, rfl⟩ := List.getElem?_eq_some_iff.mp hp
    have hpoint := hrel.get (by simpa [hlength] using hi) hi
    rw [List.get_eq_getElem, List.getElem_range] at hpoint
    exact x_of_pointAt hpoint

/-- An expression without other free variables is sampled.  There are as many points as were asked
for, and each of them stands at the place of its index and shows the expression there. -/
theorem sample_eq_points (hrange : IsRange low high) (hcount : IsCount count n)
    (hcompile : compile source table = .ok e) (hrules : table.Unbroken)
    (hfree : ∀ other ∈ e.freeVariables, other = name) :
    ∃ points, e.sample name low high count = .ok points ∧ points.length = n ∧
      ∀ i p, points[i]? = some p → p.x = gridValue low high (n - 1) i ∧ p.Shows e name := by
  have hnone : e.freeVariables.find? (· ≠ name) = none :=
    List.find?_eq_none.mpr fun other hother => by simp [hfree other hother]
  rw [sample_of_isCount hrange hcount, hnone, Option.elim_none]
  obtain ⟨points, hpoints, hrel⟩ := exists_mapM_eq_ok (l := List.range n) fun i _ =>
    exists_pointAt hcompile hrules hfree (gridValue low high (n - 1) i)
  have hlength : points.length = n := by rw [← hrel.length_eq, List.length_range]
  refine ⟨points, hpoints, hlength, fun i p hp => ?_⟩
  obtain ⟨hi, rfl⟩ := List.getElem?_eq_some_iff.mp hp
  simpa using hrel.get (by simpa [hlength] using hi) hi

/-- An expression with another free variable is not sampled, and the error names the first one. -/
theorem sample_eq_otherVariable (hrange : IsRange low high) (hcount : IsCount count n)
    {other : Text} {before after : List Text} (hfree : e.freeVariables = before ++ other :: after)
    (hbefore : ∀ first ∈ before, first = name) (hother : other ≠ name) :
    e.sample name low high count = .error (.otherVariable other name) := by
  have hfind : e.freeVariables.find? (· ≠ name) = some other := by
    rw [hfree, List.find?_eq_some_iff_append]
    refine ⟨decide_eq_true hother, before, after, rfl, fun first hfirst => ?_⟩
    simp [hbefore first hfirst]
  rw [sample_of_isCount hrange hcount, hfind, Option.elim_some]

/-! ### Proper settings -/

lemma isRange_of_proper (h : settings.Proper) : IsRange settings.low settings.high :=
  ⟨h.low_finite, h.high_finite, h.low_lt_high⟩

lemma isCount_of_proper (h : settings.Proper) :
    IsCount (Float.ofNat settings.samples) settings.samples := by
  have hle : settings.samples ≤ 100000 := h.samples_le
  exact ⟨h.two_le_samples, Number.rational?_ofNat (by omega)⟩

/-- Over proper settings an expression without other free variables is sampled. -/
theorem sample_eq_ok (hcompile : compile source table = .ok e) (hconstants : table.FiniteConstants)
    (hrules : table.Unbroken) (hsettings : settings.Proper)
    (hfree : ∀ other ∈ e.freeVariables, other = name) :
    ∃ points, e.sample name settings.low settings.high (Float.ofNat settings.samples) = .ok points ∧
      points.length = settings.samples ∧ ∀ p ∈ points, p.Bounded := by
  obtain ⟨points, hpoints, hlength, hshows⟩ := sample_eq_points (isRange_of_proper hsettings)
    (isCount_of_proper hsettings) hcompile hrules hfree
  refine ⟨points, hpoints, hlength, fun p hp => ?_⟩
  obtain ⟨i, hi⟩ := List.mem_iff_getElem?.mp hp
  exact bounded_of_shows hcompile hconstants (hshows i p hi).2

/-! ### All that can come out -/

/-- What sampling comes to. -/
inductive Samples (e : Expression) (name : Text) (low high count : Float) :
    Except SamplingError (List SamplePoint) → Prop
  /-- The range is refused. -/
  | invalidRange (h : ¬ IsRange low high) :
      Samples e name low high count (.error (.invalidRange low high))
  /-- The number of points is refused. -/
  | invalidCount (range : IsRange low high) (h : ∀ n, ¬ IsCount count n) :
      Samples e name low high count (.error (.invalidCount count))
  /-- The first free variable that is not sampled is named. -/
  | otherVariable {n : Nat} {other : Text} {before after : List Text} (range : IsRange low high)
      (isCount : IsCount count n) (free : e.freeVariables = before ++ other :: after)
      (before_eq : ∀ first ∈ before, first = name) (other_ne : other ≠ name) :
      Samples e name low high count (.error (.otherVariable other name))
  /-- There are points. -/
  | points {n : Nat} {points : List SamplePoint} (range : IsRange low high)
      (isCount : IsCount count n) (free : ∀ other ∈ e.freeVariables, other = name)
      (length_eq : points.length = n)
      (shows_points : ∀ i p, points[i]? = some p →
        p.x = gridValue low high (n - 1) i ∧ p.Shows e name) :
      Samples e name low high count (.ok points)

lemma samples_sample (hcompile : compile source table = .ok e) (hrules : table.Unbroken)
    (name : Text) (low high count : Float) :
    Samples e name low high count (e.sample name low high count) := by
  by_cases hrange : IsRange low high
  · by_cases hcount : ∃ n, IsCount count n
    · obtain ⟨n, hcount⟩ := hcount
      by_cases hfree : ∀ other ∈ e.freeVariables, other = name
      · obtain ⟨points, hpoints, hlength, hshows⟩ :=
          sample_eq_points hrange hcount hcompile hrules hfree
        rw [hpoints]
        exact .points hrange hcount hfree hlength hshows
      · push Not at hfree
        obtain ⟨before, other, after, hsplit, hbefore, hother⟩ := exists_first (· = name) hfree
        rw [sample_eq_otherVariable hrange hcount hsplit hbefore hother]
        exact .otherVariable hrange hcount hsplit hbefore hother
    · rw [sample_of_not_isCount hrange (not_exists.mp hcount)]
      exact .invalidCount hrange (not_exists.mp hcount)
  · rw [sample_of_not_isRange hrange]
    exact .invalidRange hrange

/-- Sampling ends in one of four ways.  A bad range is refused first, then a bad number of points,
then a free variable that is not sampled, of which the first is named.  Otherwise there are as many
points as were asked for, and each of them stands at the place of its index and shows the expression
there, whatever the other points are.  No evaluation fails in another way. -/
theorem sample_outcome (hcompile : compile source table = .ok e) (hrules : table.Unbroken)
    (name : Text) (low high count : Float) :
    (e.sample name low high count = .error (.invalidRange low high) ↔
      ¬ low.isFinite ∨ ¬ high.isFinite ∨ high ≤ low) ∧
    (e.sample name low high count = .error (.invalidCount count) ↔
      IsRange low high ∧ ∀ n, ¬ IsCount count n) ∧
    (∀ other, e.sample name low high count = .error (.otherVariable other name) ↔
      IsRange low high ∧ (∃ n, IsCount count n) ∧ ∃ before after,
        e.freeVariables = before ++ other :: after ∧ (∀ first ∈ before, first = name) ∧
          other ≠ name) ∧
    (∀ n, IsRange low high → IsCount count n → (∀ other ∈ e.freeVariables, other = name) →
      ∃ points, e.sample name low high count = .ok points ∧ points.length = n ∧
        ∀ i p, points[i]? = some p → p.x = gridValue low high (n - 1) i ∧ p.Shows e name) ∧
    ∀ error, e.sample name low high count = .error error →
      error = .invalidRange low high ∨ error = .invalidCount count ∨
        ∃ other, error = .otherVariable other name := by
  have hsamples := samples_sample hcompile hrules name low high count
  refine ⟨⟨fun h => ?_, fun h => ?_⟩, ⟨fun h => ?_, ?_⟩, fun other => ⟨fun h => ?_, ?_⟩,
    fun n hrange hcount hfree => sample_eq_points hrange hcount hcompile hrules hfree,
    fun error h => ?_⟩
  · rw [h] at hsamples
    cases hsamples with
    | invalidRange hrange => exact not_isRange_iff.mp hrange
  · exact sample_of_not_isRange (not_isRange_iff.mpr h) e name count
  · rw [h] at hsamples
    cases hsamples with
    | invalidCount hrange hcount => exact ⟨hrange, hcount⟩
  · rintro ⟨hrange, hcount⟩
    exact sample_of_not_isCount hrange hcount e name
  · rw [h] at hsamples
    cases hsamples with
    | otherVariable hrange hcount hfree hbefore hother =>
      exact ⟨hrange, ⟨_, hcount⟩, _, _, hfree, hbefore, hother⟩
  · rintro ⟨hrange, ⟨n, hcount⟩, before, after, hfree, hbefore, hother⟩
    exact sample_eq_otherVariable hrange hcount hfree hbefore hother
  · rw [h] at hsamples
    cases hsamples with
    | invalidRange => exact .inl rfl
    | invalidCount => exact .inr (.inl rfl)
    | otherVariable => exact .inr (.inr ⟨_, rfl⟩)

theorem sample_outcome_reciprocal : ∃ e, compile "pi/x" .standard = .ok e ∧
    (∃ points, e.sample "x" (-1) 1 3 = .ok points ∧ points.length = 3 ∧
      ∀ p, points[1]? = some p → p.y? = none) ∧
    e.sample "t" (-1) 1 3 = .error (.otherVariable "x" "t") ∧
    e.sample "x" 1 1 3 = .error (.invalidRange 1 1) := by
  have hparse : Formula.ofText "pi/x"
      = .ok (.binary .div (.symbol "pi" 0) (.symbol "x" 3) 2) := by cbv
  have hcheck : Formula.checkFrom .standard "pi/x"
      (.binary .div (.symbol "pi" 0) (.symbol "x" 3) 2) [] = .ok ["x"] := rfl
  have hcompile := compile_eq_ok_iff.mpr ⟨_, _, hparse, hcheck, rfl⟩
  have hrange : IsRange (-1) 1 := ⟨by decide +kernel, by decide +kernel, by decide +kernel⟩
  have hcount : IsCount 3 3 := ⟨by decide, by decide +kernel⟩
  have hmiddle : gridValue (-1) 1 2 1 = 0 := by decide +kernel
  have hzero : Formula.value .standard (.single "x" 0)
      (.binary .div (.symbol "pi" 0) (.symbol "x" 3) 2)
        = .error (.domain .divisionByZero 2) := by decide +kernel
  refine ⟨_, hcompile, ?_, ?_, ?_⟩
  · obtain ⟨-, -, -, hpoints, -⟩ :=
      sample_outcome hcompile SymbolTable.unbroken_standard "x" (-1) 1 3
    obtain ⟨points, heq, hlength, hshows⟩ :=
      hpoints 3 hrange hcount fun other hother => List.mem_singleton.mp hother
    refine ⟨points, heq, hlength, fun p hp => ?_⟩
    obtain ⟨hx, hp⟩ := hshows 1 p hp
    rw [hmiddle] at hx
    exact hp.hole_iff.mpr ⟨_, _, hx ▸ hzero⟩
  · obtain ⟨-, -, hother, -⟩ := sample_outcome hcompile SymbolTable.unbroken_standard "t" (-1) 1 3
    exact (hother "x").mpr ⟨hrange, ⟨3, hcount⟩, [], [], rfl, by simp, by decide⟩
  · obtain ⟨hbad, -⟩ := sample_outcome hcompile SymbolTable.unbroken_standard "x" 1 1 3
    exact hbad.mpr (.inr (.inr (by decide +kernel)))

end Expression

end FunctionPlot
