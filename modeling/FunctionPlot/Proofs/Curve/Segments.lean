/-
# The segments of a curve

The segments of a curve are its maximal runs of defined points, in the order in which they stand in
the curve (`Curve.segments_maximal`).  What is a maximal run depends on where it stands, since the
same points can stand in a curve twice; so each segment gets a place (`Curve.IsSplit`).

The proof puts one more point in front of a curve.  A hole moves all segments by one; a defined
point is a segment of its own if a hole or nothing follows, and else joins the first segment.
-/
import FunctionPlot.Proofs.Curve

namespace FunctionPlot

namespace Curve

/-- Defined points that stand in a curve one behind the other, the first of them at an index. -/
structure IsBlock (points : List SamplePoint) (start : Nat) (run : List DefinedPoint) : Prop where
  ne_nil : run ≠ []
  stands : run.map DefinedPoint.toSamplePoint <+: points.drop start

/-- A block that has no defined neighbour, neither in front of it nor behind it. -/
structure IsMaximalRun (points : List SamplePoint) (start : Nat) (run : List DefinedPoint) : Prop
    extends IsBlock points start run where
  hole_before : ∀ i p, i + 1 = start → points[i]? = some p → p.isDefined = false
  hole_behind : ∀ p, points[start + run.length]? = some p → p.isDefined = false

/-- All maximal runs of a curve with their places, in order and with a gap between any two. -/
structure IsSplit (points : List SamplePoint) (places : List (Nat × List DefinedPoint)) : Prop where
  sorted : places.Pairwise fun a b => a.1 + a.2.length < b.1
  mem_iff : ∀ start run, (start, run) ∈ places ↔ IsMaximalRun points start run

/-- One more point in front of a curve moves a place. -/
def moved (place : Nat × List DefinedPoint) : Nat × List DefinedPoint := (place.1 + 1, place.2)

/-- Whether a curve begins with a defined point. -/
def beginsDefined (points : List SamplePoint) : Bool := points.head?.any SamplePoint.isDefined

variable {points : List SamplePoint} {p : SamplePoint} {d : DefinedPoint} {start : Nat}
  {run : List DefinedPoint} {places : List (Nat × List DefinedPoint)}

/-- A point is a hole or it is defined. -/
lemma hole_or_defined (p : SamplePoint) :
    p.isDefined = false ∨ ∃ d : DefinedPoint, p = d.toSamplePoint := by
  obtain ⟨x, y?⟩ := p
  cases y? with
  | none => exact .inl rfl
  | some y => exact .inr ⟨⟨x, y⟩, rfl⟩

lemma defined?_of_hole (h : p.isDefined = false) : p.defined? = none := by
  simpa [SamplePoint.isDefined, SamplePoint.defined?] using h

lemma defined?_toSamplePoint (d : DefinedPoint) : d.toSamplePoint.defined? = some d := rfl

lemma isDefined_toSamplePoint (d : DefinedPoint) : d.toSamplePoint.isDefined = true := rfl

lemma toSamplePoint_injective : Function.Injective DefinedPoint.toSamplePoint := by
  rintro ⟨x, y⟩ ⟨x', y'⟩ h
  simpa [DefinedPoint.toSamplePoint] using h

lemma exists_of_beginsDefined (h : beginsDefined points = true) :
    ∃ (d : DefinedPoint) (rest : List SamplePoint), points = d.toSamplePoint :: rest := by
  cases points with
  | nil => cases h
  | cons p rest =>
    rcases hole_or_defined p with hhole | ⟨d, rfl⟩
    · cases hhole.symm.trans h
    · exact ⟨d, rest, rfl⟩

/-! ### One more point in front of the segments -/

/-- The pieces between the holes, some of which are empty. -/
def pieces (points : List SamplePoint) : List (List DefinedPoint) :=
  ((points.map SamplePoint.defined?).splitOnP Option.isNone).map List.reduceOption

lemma segments_eq_filter_pieces (points : List SamplePoint) :
    segments points = (pieces points).filter (!·.isEmpty) := rfl

lemma pieces_hole (h : p.isDefined = false) (points : List SamplePoint) :
    pieces (p :: points) = [] :: pieces points := by
  rw [pieces, List.map_cons, defined?_of_hole h, List.splitOnP_cons_eq_if_modifyHead]
  rfl

lemma pieces_defined (d : DefinedPoint) (points : List SamplePoint) :
    pieces (d.toSamplePoint :: points) = (pieces points).modifyHead (d :: ·) := by
  obtain ⟨piece, rest, hpieces⟩ := List.exists_cons_of_ne_nil
    (List.splitOnP_ne_nil Option.isNone (points.map SamplePoint.defined?))
  rw [pieces, pieces, List.map_cons, defined?_toSamplePoint, List.splitOnP_cons_eq_if_modifyHead,
    hpieces]
  rfl

lemma exists_pieces_eq (points : List SamplePoint) :
    ∃ piece rest, pieces points = piece :: rest := by
  refine List.exists_cons_of_ne_nil ?_
  rw [pieces, Ne, List.map_eq_nil_iff]
  exact List.splitOnP_ne_nil _ _

lemma segments_hole (h : p.isDefined = false) (points : List SamplePoint) :
    segments (p :: points) = segments points := by
  rw [segments_eq_filter_pieces, pieces_hole h]
  rfl

/-- A defined point in front of a hole, or behind all others, is a segment of its own. -/
lemma segments_alone (d : DefinedPoint) (h : beginsDefined points = false) :
    segments (d.toSamplePoint :: points) = [d] :: segments points := by
  rw [segments_eq_filter_pieces, segments_eq_filter_pieces, pieces_defined]
  cases points with
  | nil => rfl
  | cons p points =>
    rw [pieces_hole h]
    rfl

/-- A defined point in front of another one joins its segment. -/
lemma segments_joined (d : DefinedPoint) (h : beginsDefined points = true) :
    segments (d.toSamplePoint :: points) = (segments points).modifyHead (d :: ·) := by
  obtain ⟨d', rest, rfl⟩ := exists_of_beginsDefined h
  obtain ⟨piece, others, hpieces⟩ := exists_pieces_eq rest
  rw [segments_eq_filter_pieces, segments_eq_filter_pieces, pieces_defined, pieces_defined, hpieces]
  rfl

/-! ### One more point in front of a maximal run -/

lemma IsBlock.start_lt (h : IsBlock points start run) : start < points.length := by
  by_contra hle
  have hstands := h.stands
  rw [List.drop_eq_nil_of_le (Nat.le_of_not_lt hle), List.prefix_nil,
    List.map_eq_nil_iff] at hstands
  exact h.ne_nil hstands

lemma not_isMaximalRun_nil : ¬ IsMaximalRun [] start run :=
  fun h => Nat.not_lt_zero _ h.start_lt

/-- A maximal run behind the first point is one of the rest, unless both are neighbours. -/
lemma isMaximalRun_cons_succ : IsMaximalRun (p :: points) (start + 1) run ↔
    IsMaximalRun points start run ∧ (start = 0 → p.isDefined = false) := by
  constructor
  · intro h
    refine ⟨⟨⟨h.ne_nil, h.stands⟩, fun i q hi hq => ?_, fun q hq => ?_⟩, fun hstart => ?_⟩
    · exact h.hole_before (i + 1) q (by omega) hq
    · refine h.hole_behind q ?_
      rwa [Nat.add_right_comm, List.getElem?_cons_succ]
    · exact h.hole_before 0 p (by omega) rfl
  · rintro ⟨h, hfirst⟩
    refine ⟨⟨h.ne_nil, h.stands⟩, fun i q hi hq => ?_, fun q hq => ?_⟩
    · cases i with
      | zero =>
        cases hq
        exact hfirst (by omega)
      | succ i => exact h.hole_before i q (by omega) hq
    · rw [Nat.add_right_comm, List.getElem?_cons_succ] at hq
      exact h.hole_behind q hq

/-- A block at the front begins with the first point, which is no hole. -/
lemma IsBlock.exists_head (h : IsBlock points 0 run) :
    ∃ d rest, points.head? = some d.toSamplePoint ∧ run = d :: rest := by
  obtain ⟨d, rest, rfl⟩ := List.exists_cons_of_ne_nil h.ne_nil
  obtain ⟨behind, hbehind⟩ := h.stands
  rw [List.drop_zero] at hbehind
  exact ⟨d, rest, by rw [← hbehind]; rfl, rfl⟩

lemma IsBlock.beginsDefined (h : IsBlock points 0 run) : beginsDefined points = true := by
  obtain ⟨d, -, hhead, -⟩ := h.exists_head
  rw [Curve.beginsDefined, hhead]
  rfl

lemma not_isMaximalRun_hole (h : p.isDefined = false) : ¬ IsMaximalRun (p :: points) 0 run := by
  intro hrun
  cases h.symm.trans hrun.beginsDefined

lemma isBlock_cons {rest : List DefinedPoint} {d' : DefinedPoint} :
    IsBlock (d.toSamplePoint :: points) 0 (d' :: rest) ↔
      d' = d ∧ (rest = [] ∨ IsBlock points 0 rest) := by
  constructor
  · rintro ⟨-, hstands⟩
    rw [List.drop_zero, List.map_cons, List.cons_prefix_cons] at hstands
    refine ⟨toSamplePoint_injective hstands.1, ?_⟩
    by_cases hrest : rest = []
    · exact .inl hrest
    · exact .inr ⟨hrest, hstands.2⟩
  · rintro ⟨rfl, hrest⟩
    refine ⟨List.cons_ne_nil _ _, ?_⟩
    rw [List.drop_zero, List.map_cons, List.cons_prefix_cons]
    rcases hrest with rfl | hrest
    · exact ⟨rfl, List.nil_prefix⟩
    · exact ⟨rfl, hrest.stands⟩

/-- A defined point in front of a hole, or behind all others, is a maximal run of its own. -/
lemma isMaximalRun_alone (h : beginsDefined points = false) :
    IsMaximalRun (d.toSamplePoint :: points) 0 run ↔ run = [d] := by
  constructor
  · intro hrun
    obtain ⟨d', rest, -, rfl⟩ := hrun.exists_head
    obtain ⟨rfl, rfl | hrest⟩ := isBlock_cons.mp hrun.toIsBlock
    · rfl
    · cases h.symm.trans hrest.beginsDefined
  · rintro rfl
    refine ⟨isBlock_cons.mpr ⟨rfl, .inl rfl⟩, fun i q hi => absurd hi i.succ_ne_zero,
      fun q hq => ?_⟩
    rwa [beginsDefined, List.head?_eq_getElem?, show points[0]? = some q from hq] at h

/-- A defined point in front of another one joins its maximal run. -/
lemma isMaximalRun_joined (h : beginsDefined points = true) :
    IsMaximalRun (d.toSamplePoint :: points) 0 run ↔
      ∃ rest, run = d :: rest ∧ IsMaximalRun points 0 rest := by
  constructor
  · intro hrun
    obtain ⟨d', rest, -, rfl⟩ := hrun.exists_head
    obtain ⟨rfl, rfl | hrest⟩ := isBlock_cons.mp hrun.toIsBlock
    · -- the neighbour is behind the run
      obtain ⟨d, behind, rfl⟩ := exists_of_beginsDefined h
      cases hrun.hole_behind _ rfl
    · refine ⟨rest, rfl, hrest, fun i q hi => absurd hi i.succ_ne_zero, fun q hq => ?_⟩
      refine hrun.hole_behind q ?_
      rwa [List.length_cons, ← Nat.add_assoc, List.getElem?_cons_succ]
  · rintro ⟨rest, rfl, hrest⟩
    refine ⟨isBlock_cons.mpr ⟨rfl, .inr hrest.toIsBlock⟩, fun i q hi => absurd hi i.succ_ne_zero,
      fun q hq => ?_⟩
    rw [List.length_cons, ← Nat.add_assoc, List.getElem?_cons_succ] at hq
    exact hrest.hole_behind q hq

/-- A curve that begins with a defined point begins with a maximal run. -/
lemma exists_isMaximalRun (h : beginsDefined points = true) : ∃ run, IsMaximalRun points 0 run := by
  induction points with
  | nil => cases h
  | cons p points ih =>
    obtain ⟨d, rest, heq⟩ := exists_of_beginsDefined h
    obtain ⟨rfl, -⟩ := List.cons.inj heq
    cases hnext : beginsDefined points with
    | true =>
      obtain ⟨run, hrun⟩ := ih hnext
      exact ⟨d :: run, (isMaximalRun_joined hnext).mpr ⟨run, rfl, hrun⟩⟩
    | false => exact ⟨[d], (isMaximalRun_alone hnext).mpr rfl⟩

/-! ### One more point in front of a split -/

namespace IsSplit

lemma mem_moved {place : Nat × List DefinedPoint} (h : place ∈ places.map moved) :
    ∃ s, place.1 = s + 1 ∧ (s, place.2) ∈ places := by
  obtain ⟨⟨s, run⟩, hmem, rfl⟩ := List.mem_map.mp h
  exact ⟨s, rfl, hmem⟩

lemma mem_map_moved_iff : (start + 1, run) ∈ places.map moved ↔ (start, run) ∈ places := by
  simp [moved]

lemma zero_notMem_moved : (0, run) ∉ places.map moved := by
  simp [moved]

lemma sorted_moved (h : IsSplit points places) :
    (places.map moved).Pairwise fun a b => a.1 + a.2.length < b.1 := by
  refine List.pairwise_map.mpr (h.sorted.imp fun {a b} hab => ?_)
  simp only [moved]
  omega

lemma nil : IsSplit [] [] :=
  ⟨.nil, fun _ _ => iff_of_false List.not_mem_nil not_isMaximalRun_nil⟩

lemma hole (h : IsSplit points places) (hp : p.isDefined = false) :
    IsSplit (p :: points) (places.map moved) := by
  refine ⟨h.sorted_moved, fun start run => ?_⟩
  cases start with
  | zero => exact iff_of_false zero_notMem_moved (not_isMaximalRun_hole hp)
  | succ start =>
    rw [mem_map_moved_iff, h.mem_iff, isMaximalRun_cons_succ]
    exact (and_iff_left fun _ => hp).symm

lemma alone (h : IsSplit points places) (hnext : beginsDefined points = false) :
    IsSplit (d.toSamplePoint :: points) ((0, [d]) :: places.map moved) := by
  have hpos : ∀ place ∈ places, 0 < place.1 := by
    rintro ⟨start, run⟩ hmem
    refine Nat.pos_of_ne_zero fun hzero => ?_
    obtain rfl : start = 0 := hzero
    cases hnext.symm.trans ((h.mem_iff _ _).mp hmem).beginsDefined
  refine ⟨List.pairwise_cons.mpr ⟨fun place hplace => ?_, h.sorted_moved⟩, fun start run => ?_⟩
  · obtain ⟨s, hs, hmem⟩ := mem_moved hplace
    have := hpos _ hmem
    simp only [List.length_singleton]
    omega
  · cases start with
    | zero =>
      rw [isMaximalRun_alone hnext, List.mem_cons, or_iff_left zero_notMem_moved, Prod.mk.injEq]
      exact and_iff_right rfl
    | succ start =>
      rw [List.mem_cons, mem_map_moved_iff, isMaximalRun_cons_succ, h.mem_iff, Prod.mk.injEq,
        or_iff_right fun heq => Nat.succ_ne_zero _ heq.1]
      refine (and_iff_left_of_imp fun hrun hzero => ?_).symm
      have := hpos _ ((h.mem_iff _ _).mpr hrun)
      omega

/-- The first place of a curve that begins with a defined point is at the front. -/
lemma exists_first (h : IsSplit points places) (hnext : beginsDefined points = true) :
    ∃ run rest, places = (0, run) :: rest := by
  obtain ⟨run, hrun⟩ := exists_isMaximalRun hnext
  have hmem := (h.mem_iff 0 run).mpr hrun
  cases places with
  | nil => cases hmem
  | cons place rest =>
    rcases List.mem_cons.mp hmem with rfl | hrest
    · exact ⟨run, rest, rfl⟩
    · exact absurd ((List.pairwise_cons.mp h.sorted).1 _ hrest) (Nat.not_lt_zero _)

lemma joined (h : IsSplit points ((0, run) :: places)) (hnext : beginsDefined points = true) :
    IsSplit (d.toSamplePoint :: points) ((0, d :: run) :: places.map moved) := by
  obtain ⟨hfirst, -⟩ := List.pairwise_cons.mp h.sorted
  have hmoved := h.sorted_moved
  rw [List.map_cons, List.pairwise_cons] at hmoved
  refine ⟨List.pairwise_cons.mpr ⟨fun place hplace => ?_, hmoved.2⟩, fun start other => ?_⟩
  · obtain ⟨s, hs, hmem⟩ := mem_moved hplace
    have := hfirst _ hmem
    simp only [List.length_cons] at this ⊢
    omega
  · have hzero : ∀ r, (0, r) ∉ places := fun r hr => Nat.not_lt_zero _ (hfirst _ hr)
    cases start with
    | zero =>
      simp only [isMaximalRun_joined hnext, ← h.mem_iff, List.mem_cons, Prod.mk.injEq, hzero,
        or_false, true_and, zero_notMem_moved]
      constructor
      · rintro rfl
        exact ⟨run, rfl, rfl⟩
      · rintro ⟨rest, rfl, rfl⟩
        rfl
    | succ start =>
      rw [isMaximalRun_cons_succ, ← h.mem_iff, List.mem_cons, List.mem_cons, mem_map_moved_iff,
        Prod.mk.injEq, Prod.mk.injEq, or_iff_right fun heq => Nat.succ_ne_zero _ heq.1]
      constructor
      · intro hmem
        refine ⟨.inr hmem, fun hstart => ?_⟩
        rw [hstart] at hmem
        exact absurd hmem (hzero _)
      · rintro ⟨⟨rfl, -⟩ | hmem, hstart⟩
        · cases hstart rfl
        · exact hmem

/-- The maximal runs of a curve have only one order. -/
lemma unique {others : List (Nat × List DefinedPoint)} (h : IsSplit points places)
    (h' : IsSplit points others) : others = places := by
  have hirrefl : Std.Irrefl fun a b : Nat × List DefinedPoint => a.1 < b.1 :=
    ⟨fun a => Nat.lt_irrefl a.1⟩
  have hantisymm : Std.Antisymm fun a b : Nat × List DefinedPoint => a.1 < b.1 :=
    ⟨fun a b hab hba => absurd hab hba.not_gt⟩
  have hsorted : ∀ {ps : List (Nat × List DefinedPoint)}, IsSplit points ps →
      ps.Pairwise fun a b => a.1 < b.1 := fun hps =>
    hps.sorted.imp fun {a b} hab => (Nat.le_add_right _ _).trans_lt hab
  refine (hsorted h').eq_of_mem_iff (hsorted h) fun place => ?_
  rw [h'.mem_iff, h.mem_iff]

end IsSplit

/-- The segments of a curve have places, which are those of its maximal runs. -/
theorem exists_isSplit (points : List SamplePoint) :
    ∃ places, IsSplit points places ∧ places.map Prod.snd = segments points := by
  have hmoved : ∀ places : List (Nat × List DefinedPoint),
      (places.map moved).map Prod.snd = places.map Prod.snd := fun places => List.map_map
  induction points with
  | nil => exact ⟨[], .nil, rfl⟩
  | cons p points ih =>
    obtain ⟨places, hsplit, hplaces⟩ := ih
    rcases hole_or_defined p with hhole | ⟨d, rfl⟩
    · exact ⟨_, hsplit.hole hhole, by rw [segments_hole hhole, hmoved, hplaces]⟩
    · cases hnext : beginsDefined points with
      | true =>
        obtain ⟨run, rest, rfl⟩ := hsplit.exists_first hnext
        refine ⟨_, hsplit.joined hnext, ?_⟩
        rw [segments_joined d hnext, ← hplaces, List.map_cons, List.map_cons, hmoved]
        rfl
      | false =>
        refine ⟨_, hsplit.alone hnext, ?_⟩
        rw [segments_alone d hnext, List.map_cons, hmoved, hplaces]

/-- Between two maximal runs there is a hole. -/
lemma IsSplit.pairwise_hole (h : IsSplit points places) : places.Pairwise fun a b =>
    ∃ i p, a.1 + a.2.length ≤ i ∧ i < b.1 ∧ points[i]? = some p ∧ p.isDefined = false := by
  refine h.sorted.imp_of_mem fun {a b} ha hb hab => ?_
  have hp := List.getElem?_eq_getElem (hab.trans ((h.mem_iff _ _).mp hb).start_lt)
  exact ⟨_, _, le_rfl, hab, hp, ((h.mem_iff _ _).mp ha).hole_behind _ hp⟩

lemma map_flatten_segments (points : List SamplePoint) :
    (segments points).flatten.map DefinedPoint.toSamplePoint
      = points.filter SamplePoint.isDefined := by
  rw [flatten_segments]
  induction points with
  | nil => rfl
  | cons p points ih =>
    rcases hole_or_defined p with hhole | ⟨d, rfl⟩
    · rw [List.filterMap_cons_none (defined?_of_hole hhole), ih,
        List.filter_cons_of_neg (by simp [hhole])]
    · rw [List.filterMap_cons_some (defined?_toSamplePoint d), List.map_cons, ih,
        List.filter_cons_of_pos (isDefined_toSamplePoint d)]

/-- The segments of a curve are its defined points in order, cut into runs that are not empty.  They
have places in the curve, with a hole between any two of them, and these are the places of all
blocks of defined points that no defined point is next to.  Only one list has these places. -/
theorem segments_maximal (points : List SamplePoint) :
    (segments points).flatten.map DefinedPoint.toSamplePoint
      = points.filter SamplePoint.isDefined ∧
    (∀ run ∈ segments points, run ≠ []) ∧
    ∃ places, places.map Prod.snd = segments points ∧
      (∀ start run, (start, run) ∈ places ↔ IsMaximalRun points start run) ∧
      (places.Pairwise fun a b =>
        ∃ i p, a.1 + a.2.length ≤ i ∧ i < b.1 ∧ points[i]? = some p ∧ p.isDefined = false) ∧
      ∀ others, IsSplit points others → others = places := by
  obtain ⟨places, hsplit, hplaces⟩ := exists_isSplit points
  refine ⟨map_flatten_segments points, fun run hrun => ?_, places, hplaces, hsplit.mem_iff,
    hsplit.pairwise_hole, fun others => hsplit.unique⟩
  rw [← hplaces] at hrun
  obtain ⟨⟨start, run⟩, hmem, rfl⟩ := List.mem_map.mp hrun
  exact ((hsplit.mem_iff start run).mp hmem).ne_nil

/-- Holes at the front and next to each other make no segments. -/
example : segments [⟨0, none⟩, ⟨1, some 1⟩, ⟨2, none⟩, ⟨3, none⟩, ⟨4, some 4⟩, ⟨5, some 5⟩]
    = [[⟨1, 1⟩], [⟨4, 4⟩, ⟨5, 5⟩]] := rfl

end Curve

end FunctionPlot
