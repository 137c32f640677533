/-
# The places of the points

The points of a sampled expression stand at rounded places between both ends of the range
(`Expression.IsGridValue`).  All places are finite, the first and the last one are the ends, and
each of them is near to its exact place (`Expression.IsGridValue.abs_sub_le`).

The places are in order and in the range if zero is in the range, or if the steps are wide enough
against the rounding (`Expression.Orderly`).  In a range that is only a few numbers wide they need
not be.
-/
import FunctionPlot.Proofs.Expression.Sampled
import FunctionPlot.Proofs.Number.Interpolation

namespace FunctionPlot

open Number

namespace Expression

variable {name : Text} {e : Expression} {low high count v : Float} {l h m n t t' x y : Rat}
  {steps i j : Nat} {points : List SamplePoint} {p : SamplePoint}

/-! ### Weights -/

/-- The weight of the upper end at a step: the index of the step by the number of steps, where both
are rounded, and their quotient too. -/
structure IsWeight (steps i : Nat) (m n t : Rat) : Prop where
  index_rounded : IsRounded i m
  steps_rounded : IsRounded steps n
  rounded : IsRounded (m / n) t

lemma one_le_of_isRounded (hsteps : 0 < steps) (hn : IsRounded steps n) : 1 ≤ n :=
  hn.le_of_ge representable_one (by exact_mod_cast hsteps)

/-- The quotient of the rounded numbers is a weight. -/
lemma quotient_mem (hm : IsRounded i m) (hn : IsRounded steps n) (hsteps : 0 < steps)
    (hi : i ≤ steps) : 0 ≤ m / n ∧ m / n ≤ 1 := by
  have hpos : 0 < n := zero_lt_one.trans_le (one_le_of_isRounded hsteps hn)
  refine ⟨div_nonneg (hm.nonneg (Nat.cast_nonneg i)) hpos.le, ?_⟩
  rw [div_le_one hpos]
  exact hm.mono hn (by exact_mod_cast hi)

namespace IsWeight

lemma mem (hw : IsWeight steps i m n t) (hsteps : 0 < steps) (hi : i ≤ steps) :
    0 ≤ t ∧ t ≤ 1 := by
  obtain ⟨hlow, hhigh⟩ := quotient_mem hw.index_rounded hw.steps_rounded hsteps hi
  exact ⟨hw.rounded.nonneg hlow, hw.rounded.le_of_le representable_one hhigh⟩

lemma eq_zero (hw : IsWeight steps 0 m n t) : t = 0 := by
  obtain ⟨hm, -, ht⟩ := hw
  rw [Nat.cast_zero] at hm
  rw [hm.eq_self (.inl rfl), zero_div] at ht
  exact ht.eq_self (.inl rfl)

/-- Later steps have no less weight. -/
lemma mono {m' n' : Rat} (hw : IsWeight steps i m n t) (hw' : IsWeight steps j m' n' t')
    (hij : i ≤ j) : t ≤ t' := by
  obtain rfl : n = n' := hw.steps_rounded.unique hw'.steps_rounded
  refine hw.rounded.mono hw'.rounded (div_le_div_of_nonneg_right ?_ ?_)
  · exact hw.index_rounded.mono hw'.index_rounded (by exact_mod_cast hij)
  · exact hw.steps_rounded.nonneg (Nat.cast_nonneg steps)

end IsWeight

lemma abs_natCast_sub_le (hm : IsRounded i m) : |m - i| ≤ i / 2 ^ 53 := by
  rcases Nat.eq_zero_or_pos i with rfl | hpos
  · rw [hm.eq_self (.inl Nat.cast_zero), sub_self, abs_zero]
    positivity
  · have hone : (1 : Rat) ≤ i := by exact_mod_cast hpos
    refine hm.abs_sub_le_of_abs_le (abs_of_nonneg (Nat.cast_nonneg i)).le ?_
    linarith

/-- The quotient of two rounded numbers is near to the exact one. -/
lemma abs_quotient_sub_le (hw : IsWeight steps i m n t) (hsteps : 0 < steps) (hi : i ≤ steps) :
    |m / n - i / steps| ≤ 4 / 2 ^ 53 := by
  have hm := abs_natCast_sub_le hw.index_rounded
  have hn := abs_natCast_sub_le hw.steps_rounded
  have hpos : (0 : Rat) < steps := by exact_mod_cast hsteps
  have hnonneg : (0 : Rat) ≤ i := Nat.cast_nonneg i
  have hi' : (i : Rat) ≤ steps := by exact_mod_cast hi
  have hhalf : (steps : Rat) / 2 ≤ n := by
    have hlower := (abs_le.mp hn).1
    linarith
  have hn' : 0 < n := (half_pos hpos).trans_le hhalf
  have hsplit : m / n - i / steps = ((m - i) * steps - i * (n - steps)) / (n * steps) := by
    field_simp
    ring
  have hnumerator : |(m - i) * steps - i * (n - steps)| ≤ 2 * (steps * steps / 2 ^ 53) := by
    calc |(m - i) * steps - i * (n - steps)|
        ≤ |(m - i) * steps| + |i * (n - steps)| := abs_sub _ _
      _ = |m - i| * steps + i * |n - steps| := by
        rw [abs_mul, abs_mul, abs_of_pos hpos, abs_of_nonneg hnonneg]
      _ ≤ i / 2 ^ 53 * steps + i * (steps / 2 ^ 53) := by gcongr
      _ ≤ steps / 2 ^ 53 * steps + steps * (steps / 2 ^ 53) := by gcongr
      _ = 2 * (steps * steps / 2 ^ 53) := by ring
  rw [hsplit, abs_div, abs_of_pos (mul_pos hn' hpos), div_le_iff₀ (mul_pos hn' hpos)]
  calc |(m - i) * steps - i * (n - steps)| ≤ 2 * (steps * steps / 2 ^ 53) := hnumerator
    _ = 4 / 2 ^ 53 * (steps / 2 * steps) := by ring
    _ ≤ 4 / 2 ^ 53 * (n * steps) := by gcongr

/-- The weight is near to the exact one. -/
lemma IsWeight.abs_sub_le (hw : IsWeight steps i m n t) (hsteps : 0 < steps) (hi : i ≤ steps) :
    |t - i / steps| ≤ 5 / 2 ^ 53 := by
  have hone : |m / n| ≤ 1 := by
    obtain ⟨hlow, hhigh⟩ := quotient_mem hw.index_rounded hw.steps_rounded hsteps hi
    rwa [abs_of_nonneg hlow]
  have hrounded := hw.rounded.abs_sub_le_of_abs_le hone (by norm_num)
  have hquotient := abs_quotient_sub_le hw hsteps hi
  calc |t - i / steps| = |(t - m / n) + (m / n - i / steps)| := by rw [sub_add_sub_cancel]
    _ ≤ |t - m / n| + |m / n - i / steps| := abs_add_le _ _
    _ ≤ 5 / 2 ^ 53 := by linarith

/-! ### Places -/

/-- The exact place of a step from one end to the other. -/
def gridPlace (l h : Rat) (steps i : Nat) : Rat := l + (h - l) * (i / steps)

/-- How far a rounded place may be from the exact one.  Of fifteen parts ten come from the weight of
the upper end, three from that of the lower end and from the products, and two from the sum. -/
def gridError (l h : Rat) : Rat := 15 * (max |l| |h| / 2 ^ 53) + 3 * 2 ^ (-1075 : Int)

/-- A range whose places are in order: zero is in it, or its steps are wide against the rounding. -/
def Orderly (l h : Rat) (steps : Nat) : Prop :=
  l ≤ 0 ∧ 0 ≤ h ∨ 2 * gridError l h ≤ (h - l) / steps

/-- The rounded place of a step. -/
inductive IsGridValue (l h : Rat) (steps : Nat) : Nat → Rat → Prop
  /-- The last step is at the upper end. -/
  | last : IsGridValue l h steps steps h
  /-- The other ones are between both ends. -/
  | inner {i : Nat} {m n t s a b x : Rat} (lt : i < steps) (weight : IsWeight steps i m n t)
      (between : Interpolation l h t s a b) (rounded : IsRounded (a + b) x) :
      IsGridValue l h steps i x

namespace IsGridValue

lemma le_steps (hx : IsGridValue l h steps i x) : i ≤ steps := by
  cases hx with
  | last => exact le_rfl
  | inner hlt => exact hlt.le

/-- The first place is the lower end. -/
lemma eq_low (hsteps : 0 < steps) (hx : IsGridValue l h steps 0 x) : x = l := by
  cases hx with
  | last => exact absurd hsteps (lt_irrefl 0)
  | inner hlt hweight hbetween hrounded =>
    obtain rfl := hweight.eq_zero
    rw [hbetween.eq_low] at hrounded
    exact hrounded.eq_self hbetween.low_representable

/-- The last place is the upper end. -/
lemma eq_high (hx : IsGridValue l h steps steps x) : x = h := by
  cases hx with
  | last => rfl
  | inner hlt => exact absurd hlt (lt_irrefl steps)

lemma gridError_nonneg : 0 ≤ gridError l h := by
  have hmax : 0 ≤ max |l| |h| := le_max_of_le_left (abs_nonneg l)
  rw [gridError]
  positivity

/-- A place is near to its exact place. -/
theorem abs_sub_le (hx : IsGridValue l h steps i x) (hsteps : 0 < steps) :
    |x - gridPlace l h steps i| ≤ gridError l h := by
  cases hx with
  | last =>
    have hone : (steps : Rat) / steps = 1 := div_self (by exact_mod_cast hsteps.ne')
    rw [gridPlace, hone, mul_one, add_sub_cancel, sub_self, abs_zero]
    exact gridError_nonneg
  | inner hlt hweight hbetween hrounded =>
    rename_i m n t s a b
    obtain ⟨μ, hμ⟩ : ∃ μ, μ = max |l| |h| := ⟨_, rfl⟩
    have hl : |l| ≤ μ := hμ ▸ le_max_left _ _
    have hh : |h| ≤ μ := hμ ▸ le_max_right _ _
    have hlast : |x - (a + b)| ≤ 2 * (μ / 2 ^ 53) + 2 ^ (-1075 : Int) := by
      have hbound := hbetween.abs_add_le_bound hl hh
      have herror := hrounded.abs_sub_le_add
      linarith
    have hsum := hbetween.abs_sub_le hl hh
    have hweights : |(h - l) * (t - i / steps)| ≤ 10 * (μ / 2 ^ 53) := by
      have hwidth : |h - l| ≤ 2 * μ := (abs_sub h l).trans (by linarith)
      have hnear := hweight.abs_sub_le hsteps hlt.le
      calc |(h - l) * (t - i / steps)| = |h - l| * |t - i / steps| := abs_mul _ _
        _ ≤ 2 * μ * (5 / 2 ^ 53) :=
          mul_le_mul hwidth hnear (abs_nonneg _) ((abs_nonneg _).trans hwidth)
        _ = 10 * (μ / 2 ^ 53) := by ring
    -- what the last rounding does, what the operations before it do, and what the weight does
    have hsplit : x - gridPlace l h steps i
        = x - (a + b) + (a + b - (l * (1 - t) + h * t)) + (h - l) * (t - i / steps) := by
      rw [gridPlace]
      ring
    rw [hsplit, gridError, ← hμ]
    refine (abs_add_three _ _ _).trans ?_
    linarith

/-- The exact places of two steps are at least one step apart. -/
lemma add_le_gridPlace (steps : Nat) (hlh : l ≤ h) (hij : i < j) :
    gridPlace l h steps i + (h - l) / steps ≤ gridPlace l h steps j := by
  have hwidth : 0 ≤ (h - l) / steps := div_nonneg (sub_nonneg.mpr hlh) (Nat.cast_nonneg steps)
  have hsucc : (i : Rat) + 1 ≤ j := by exact_mod_cast hij
  have hmul := mul_le_mul_of_nonneg_left hsucc hwidth
  have hplace : ∀ k : Nat, gridPlace l h steps k = l + (h - l) / steps * k := fun k => by
    rw [gridPlace]
    ring
  rw [hplace, hplace]
  linarith

/-- In an orderly range an earlier step has no greater place. -/
theorem le_of_lt (hx : IsGridValue l h steps i x) (hy : IsGridValue l h steps j y) (hlh : l ≤ h)
    (hij : i < j) (horderly : Orderly l h steps) : x ≤ y := by
  have hsteps : 0 < steps := (Nat.zero_le i).trans_lt (hij.trans_le hy.le_steps)
  rcases horderly with ⟨hl, hh⟩ | hwide
  · cases hx with
    | last => exact absurd hy.le_steps hij.not_ge
    | inner hlt hweight hbetween hrounded =>
      cases hy with
      | last =>
        exact hrounded.le_of_le hbetween.high_representable (hbetween.le_high hl hh)
      | inner hlt' hweight' hbetween' hrounded' =>
        have ht := hweight.mono hweight' hij.le
        exact hrounded.mono hrounded' (hbetween.mono hbetween' hl hh ht)
  · -- each place may be off by half of a step
    have hapart := add_le_gridPlace steps hlh hij
    have hupper := (abs_le.mp (hx.abs_sub_le hsteps)).2
    have hlower := (abs_le.mp (hy.abs_sub_le hsteps)).1
    linarith

end IsGridValue

/-! ### Points -/

/-- The weight of a step is made of numbers that are not too great. -/
lemma exists_isWeight (hx : Representable x) (hsteps : 0 < steps) (hle : steps ≤ x)
    (hi : i ≤ steps) :
    ∃ m n t, IsWeight steps i m n t ∧ rational? (Float.ofNat i / Float.ofNat steps) = some t := by
  have hfits : ∀ k : Nat, k ≤ steps → |(k : Rat)| ≤ x := fun k hk => by
    rw [abs_of_nonneg (Nat.cast_nonneg k)]
    exact (by exact_mod_cast hk : (k : Rat) ≤ steps).trans hle
  obtain ⟨m, hm, hm'⟩ := (correct_ofNat i).exists_rational?_of_abs_le hx (hfits i hi)
  obtain ⟨n, hn, hn'⟩ := (correct_ofNat steps).exists_rational?_of_abs_le hx (hfits steps le_rfl)
  have hpos : 0 < n := zero_lt_one.trans_le (one_le_of_isRounded hsteps hn)
  obtain ⟨hlow, hhigh⟩ := quotient_mem hm hn hsteps hi
  obtain ⟨t, ht, ht'⟩ := (correct_div hm' hn' hpos.ne').exists_rational?_of_abs_le representable_one
    (by rwa [abs_of_nonneg hlow])
  exact ⟨m, n, t, ⟨hm, hn, ht⟩, ht'⟩

/-- The interpolation between finite ends comes to a finite number. -/
lemma exists_interpolation (hl : rational? low = some l) (hh : rational? high = some h)
    (ht : rational? v = some t) (hlow : 0 ≤ t) (hhigh : t ≤ 1) :
    ∃ s a b x, Interpolation l h t s a b ∧ IsRounded (a + b) x ∧
      rational? (low * (1 - v) + high * v) = some x := by
  have hl' := representable_of_rational? hl
  have hh' := representable_of_rational? hh
  have hone : rational? 1 = some ((1 : Nat) : Rat) := rational?_ofNat (by norm_num)
  rw [Nat.cast_one] at hone
  obtain ⟨s, hs, hs'⟩ := (correct_sub hone ht).exists_rational?_of_abs_le representable_one
    (abs_one_sub_le hlow hhigh)
  have hsnonneg : 0 ≤ s := hs.nonneg (sub_nonneg.mpr hhigh)
  have hsone : s ≤ 1 := hs.le_of_le representable_one (sub_le_self 1 hlow)
  obtain ⟨a, ha, ha'⟩ := (correct_mul hl hs').exists_rational?_of_abs_le hl'.abs
    (abs_mul_le_of_weight hsnonneg hsone)
  obtain ⟨b, hb, hb'⟩ := (correct_mul hh ht).exists_rational?_of_abs_le hh'.abs
    (abs_mul_le_of_weight hlow hhigh)
  have hbetween : Interpolation l h t s a b :=
    ⟨hl', hh', representable_of_rational? ht, hlow, hhigh, hs, ha, hb⟩
  obtain ⟨x, hx, hx'⟩ := (correct_add ha' hb').exists_rational? fun r => hbetween.abs_add_lt
  exact ⟨s, a, b, x, hbetween, hx, hx'⟩

/-- All places are finite. -/
lemma exists_isGridValue (hl : rational? low = some l) (hh : rational? high = some h)
    (hx : Representable x) (hsteps : 0 < steps) (hle : steps ≤ x) (hi : i ≤ steps) :
    ∃ y, rational? (gridValue low high steps i) = some y ∧ IsGridValue l h steps i y := by
  rw [gridValue]
  rcases hi.lt_or_eq with hlt | rfl
  · obtain ⟨m, n, t, hweight, ht⟩ := exists_isWeight hx hsteps hle hi
    obtain ⟨hlow, hhigh⟩ := hweight.mem hsteps hi
    obtain ⟨s, a, b, y, hbetween, hy, hy'⟩ := exists_interpolation hl hh ht hlow hhigh
    rw [if_neg hlt.ne]
    exact ⟨y, hy', .inner hlt hweight hbetween hy⟩
  · rw [if_pos rfl]
    exact ⟨h, hh, .last⟩

/-- Points at the rounded places between two ends. -/
structure IsGrid (l h : Rat) (points : List SamplePoint) : Prop where
  two_le : 2 ≤ points.length
  exists_value : ∀ i p, points[i]? = some p →
    ∃ x, rational? p.x = some x ∧ IsGridValue l h (points.length - 1) i x

/-- Points in order in an orderly range. -/
lemma IsGrid.pairwise (hgrid : IsGrid l h points) (hlh : l ≤ h)
    (horderly : Orderly l h (points.length - 1)) : points.Pairwise (·.x ≤ ·.x) := by
  rw [List.pairwise_iff_getElem]
  intro i j hi hj hij
  obtain ⟨x, hx, hvalue⟩ := hgrid.exists_value i _ (List.getElem?_eq_getElem hi)
  obtain ⟨y, hy, hvalue'⟩ := hgrid.exists_value j _ (List.getElem?_eq_getElem hj)
  exact (le_iff_of_rational? hx hy).mpr (hvalue.le_of_lt hvalue' hlh hij horderly)

/-- Points of an orderly range are in the range, since they are between the first and the last. -/
lemma IsGrid.mem_range (hgrid : IsGrid l h points) (hl : rational? low = some l)
    (hh : rational? high = some h) (hlh : l ≤ h) (horderly : Orderly l h (points.length - 1))
    (hp : p ∈ points) : low ≤ p.x ∧ p.x ≤ high := by
  have htwo := hgrid.two_le
  have hfirst : points[0]? = some points[0] := List.getElem?_eq_getElem (by omega)
  obtain ⟨i, hi⟩ := List.mem_iff_getElem?.mp hp
  obtain ⟨x, hx, hvalue⟩ := hgrid.exists_value i p hi
  obtain ⟨y, -, hvalue'⟩ := hgrid.exists_value 0 _ hfirst
  obtain rfl := hvalue'.eq_low (by omega)
  rw [le_iff_of_rational? hl hx, le_iff_of_rational? hx hh]
  constructor
  · rcases Nat.eq_zero_or_pos i with rfl | hpos
    · exact (hvalue.eq_low (by omega)).ge
    · exact hvalue'.le_of_lt hvalue hlh hpos horderly
  · rcases hvalue.le_steps.lt_or_eq with hlt | rfl
    · exact hvalue.le_of_lt .last hlh hlt horderly
    · exact hvalue.eq_high.le

/-- The variable itself is sampled wherever there is a range. -/
lemma sample_variable (hrange : IsRange low high) {k : Nat} (hcount : IsCount count k) :
    ∃ e points, compile "x" .standard = .ok e ∧ e.sample "x" low high count = .ok points ∧
      points.length = k ∧ ∀ i p, points[i]? = some p → p.x = gridValue low high (k - 1) i := by
  have hparse : Formula.ofText "x" = .ok (.symbol "x" 0) := by cbv
  have hcheck : Formula.checkFrom .standard "x" (.symbol "x" 0) [] = .ok ["x"] := rfl
  have hcompile := compile_eq_ok_iff.mpr ⟨_, _, hparse, hcheck, rfl⟩
  obtain ⟨points, hpoints, hlength, hshows⟩ := sample_eq_points hrange hcount hcompile
    SymbolTable.unbroken_standard fun other hother => List.mem_singleton.mp hother
  exact ⟨_, points, hcompile, hpoints, hlength, fun i p hp => (hshows i p hp).1⟩

/-- All points of a sample stand at finite places, the first one at the lower end and the last one at
the upper end, and each of them near to the place that divides the range evenly.  If zero is in the
range, or if the steps are wide against the rounding, all places are in the range and in order. -/
theorem sample_grid (hsample : e.sample name low high count = .ok points) :
    ∃ l h : Rat, ∃ n : Nat, rational? low = some l ∧ rational? high = some h ∧ l < h ∧
      IsCount count n ∧ points.length = n ∧
      (∀ i p, points[i]? = some p → ∃ x, rational? p.x = some x ∧ (i = 0 → x = l) ∧
        (i + 1 = n → x = h) ∧ |x - gridPlace l h (n - 1) i| ≤ gridError l h) ∧
      (Orderly l h (n - 1) →
        (∀ p ∈ points, low ≤ p.x ∧ p.x ≤ high) ∧ points.Pairwise (·.x ≤ ·.x)) := by
  obtain ⟨hrange, n, hn, rfl, hplaces⟩ := places_of_sample hsample
  obtain ⟨l, hl⟩ := isFinite_iff.mp hrange.low_finite
  obtain ⟨h, hh⟩ := isFinite_iff.mp hrange.high_finite
  have hlh : l < h := (lt_iff_of_rational? hl hh).mp hrange.low_lt_high
  have htwo := hn.two_le
  have hgrid : IsGrid l h points := by
    refine ⟨htwo, fun i p hp => ?_⟩
    obtain ⟨hi, -⟩ := List.getElem?_eq_some_iff.mp hp
    rw [hplaces i p hp]
    refine exists_isGridValue hl hh (representable_of_rational? hn.rational?_eq) (by omega) ?_
      (by omega)
    exact_mod_cast Nat.sub_le points.length 1
  refine ⟨l, h, _, hl, hh, hlh, hn, rfl, fun i p hp => ?_, fun horderly => ?_⟩
  · obtain ⟨x, hx, hvalue⟩ := hgrid.exists_value i p hp
    refine ⟨x, hx, ?_, ?_, hvalue.abs_sub_le (by omega)⟩
    · rintro rfl
      exact hvalue.eq_low (by omega)
    · intro hlast
      obtain rfl : i = points.length - 1 := by omega
      exact hvalue.eq_high
  · exact ⟨fun p hp => hgrid.mem_range hl hh hlh.le horderly hp, hgrid.pairwise hlh.le horderly⟩

theorem sample_grid_octave : ∃ e points, compile "x" .standard = .ok e ∧
    e.sample "x" 1 2 100 = .ok points ∧ points.length = 100 ∧
    (∀ p ∈ points, (1 : Float) ≤ p.x ∧ p.x ≤ 2) ∧ points.Pairwise (·.x ≤ ·.x) := by
  have hrange : IsRange 1 2 := ⟨by decide +kernel, by decide +kernel, by decide +kernel⟩
  have hcount : IsCount 100 100 := ⟨by decide, by decide +kernel⟩
  obtain ⟨e, points, hcompile, hpoints, hlength, -⟩ := sample_variable hrange hcount
  obtain ⟨l, h, n, hl, hh, -, -, hn, -, horder⟩ := sample_grid hpoints
  have hone : rational? 1 = some 1 := by decide +kernel
  have htwo : rational? 2 = some 2 := by decide +kernel
  obtain rfl : 1 = l := Option.some.inj (hone.symm.trans hl)
  obtain rfl : 2 = h := Option.some.inj (htwo.symm.trans hh)
  obtain rfl : 100 = n := hlength.symm.trans hn
  have hwide : 2 * gridError 1 2 ≤ (2 - 1) / (100 - 1 : Nat) := by
    have hsmall : (2 : Rat) ^ (-1075 : Int) ≤ 2 ^ (-53 : Int) :=
      zpow_le_zpow_right₀ (by norm_num) (by norm_num)
    rw [gridError]
    generalize (2 : Rat) ^ (-1075 : Int) = v at *
    norm_num at *
    linarith
  obtain ⟨hmem, hpairwise⟩ := horder (.inr hwide)
  exact ⟨e, points, hcompile, hpoints, hlength, hmem, hpairwise⟩

/-- In a range of two steps between neighbouring numbers below zero the second point stands below
the lower end, and so below the first point. -/
theorem sample_narrow : ∃ e points, compile "x" .standard = .ok e ∧
    IsRange (-0.10000000000000002) (-0.1) ∧ IsCount 4 4 ∧
    e.sample "x" (-0.10000000000000002) (-0.1) 4 = .ok points ∧
    (∃ p, points[1]? = some p ∧ ¬ (-0.10000000000000002 : Float) ≤ p.x) ∧
    ¬ points.Pairwise (·.x ≤ ·.x) := by
  have hrange : IsRange (-0.10000000000000002) (-0.1) :=
    ⟨by decide +kernel, by decide +kernel, by decide +kernel⟩
  have hcount : IsCount 4 4 := ⟨by decide, by decide +kernel⟩
  have hbelow : ¬ (-0.10000000000000002 : Float) ≤ gridValue (-0.10000000000000002) (-0.1) 3 1 := by
    decide +kernel
  have hfirst : gridValue (-0.10000000000000002) (-0.1) 3 0 = -0.10000000000000002 := by
    decide +kernel
  obtain ⟨e, points, hcompile, hpoints, hlength, hplaces⟩ := sample_variable hrange hcount
  have hp : ∀ i (hi : i < points.length),
      points[i].x = gridValue (-0.10000000000000002) (-0.1) 3 i := fun i hi =>
    hplaces i _ (List.getElem?_eq_getElem hi)
  have hzero : 0 < points.length := by omega
  have hone : 1 < points.length := by omega
  refine ⟨e, points, hcompile, hrange, hcount, hpoints, ⟨_, List.getElem?_eq_getElem hone, ?_⟩,
    fun hpairwise => ?_⟩
  · rw [hp]
    exact hbelow
  · have hle := List.pairwise_iff_getElem.mp hpairwise 0 1 hzero hone Nat.zero_lt_one
    rw [hp, hp, hfirst] at hle
    exact hbelow hle

end Expression

end FunctionPlot
