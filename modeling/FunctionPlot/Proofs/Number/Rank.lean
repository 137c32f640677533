/-
# The order of numbers with two zeros

In the order of this file negative zero comes before zero, and otherwise it is the order of numbers
(`Number.Precedes`).  A number that is not `NaN` has a rank, its level together with its sign, and
no two numbers have the same one (`Number.eq_of_rank`).

The lesser of two numbers is the one that precedes the other.  From any numbers without `NaN` it
leads to one of them that precedes all (`Number.foldl_least`), and with a `NaN` among them to `NaN`.
-/
import FunctionPlot.Proofs.Number.Order
import Mathlib.Data.Prod.Lex

namespace FunctionPlot

open Float.Model Float.Model.UnpackedFloat

namespace Magnitude

/-- Magnitudes of the same value are the same. -/
lemma Normalized.eq_of_value_eq {v w : Magnitude} (hv : v.Normalized) (hw : w.Normalized)
    (h : v.value = w.value) : v = w := by
  have hcompare := hv.compare_eq hw
  rw [h, cmp_self_eq_eq, Ordering.then_eq_eq, compare_eq_iff_eq, compare_eq_iff_eq] at hcompare
  cases v
  cases w
  simpa [and_comm] using hcompare

end Magnitude

namespace Number

/-- A number is at most another one, where negative zero is less than zero. -/
structure Precedes (a b : Float) : Prop where
  le : a ≤ b
  isNegative : b ≤ a → isNegative b → isNegative a

/-- The place of a number in the order with two zeros. -/
def rank (v : Float) : WithBot (WithTop Rat) ×ₗ Bool := toLex (level v, !isNegative v)

variable {a b v : Float} {f g : UnpackedFloat} {values : List Float}

lemma rank_le_iff :
    rank a ≤ rank b ↔ level a < level b ∨ level a = level b ∧ (isNegative b → isNegative a) := by
  rw [rank, rank, Prod.Lex.toLex_le_toLex]
  refine or_congr_right (and_congr_right fun _ => ?_)
  cases isNegative a <;> cases isNegative b <;> simp

lemma level_le_of_rank_le (h : rank a ≤ rank b) : level a ≤ level b := by
  rcases rank_le_iff.mp h with h | ⟨h, -⟩
  · exact h.le
  · exact h.le

/-- Numbers precede each other in the order of their ranks. -/
lemma precedes_iff : Precedes a b ↔ ¬ a.isNaN ∧ ¬ b.isNaN ∧ rank a ≤ rank b := by
  constructor
  · rintro ⟨hle, hsign⟩
    obtain ⟨ha, hb, hlevel⟩ := le_iff.mp hle
    refine ⟨ha, hb, rank_le_iff.mpr ?_⟩
    rcases hlevel.lt_or_eq with hlt | heq
    · exact .inl hlt
    · exact .inr ⟨heq, hsign (le_iff.mpr ⟨hb, ha, heq.ge⟩)⟩
  · rintro ⟨ha, hb, hrank⟩
    refine ⟨le_iff.mpr ⟨ha, hb, level_le_of_rank_le hrank⟩, fun hle => ?_⟩
    rcases rank_le_iff.mp hrank with hlt | ⟨-, hsign⟩
    · exact absurd (le_iff.mp hle).2.2 hlt.not_ge
    · exact hsign

/-! ### Numbers of the same rank -/

/-- The sign of an unpacked number. -/
def unpackedSign : UnpackedFloat → Sign
  | .infinity s => s
  | .notANumber => .positive
  | .zero s => s
  | .finite s _ _ _ => s

lemma isNegative_iff_unpackedSign (hv : ¬ v.isNaN) :
    isNegative v ↔ unpackedSign v.toModel.unpack = .negative := by
  have hv' : ¬ v.toModel.unpack.isNaN := hv
  cases h : v.toModel.unpack with
  | infinity s => exact isNegative_of_unpack_infinity h
  | notANumber =>
    rw [h] at hv'
    exact absurd rfl hv'
  | zero s => exact isNegative_of_unpack_zero h
  | finite s m q hpos => exact isNegative_of_unpack h

lemma unpackedLevel_ne_zero {s : Sign} {m : Nat} {q : Int} {hpos : 0 < m}
    (h : (⟨m, q⟩ : Magnitude).Normalized) :
    unpackedLevel (.finite s m q hpos) ≠ ((0 : Rat) : WithTop Rat) := by
  have hvalue := h.value_pos
  cases s <;> rw [unpackedLevel, ne_eq, WithBot.coe_inj, WithTop.coe_inj] <;> linarith

/-- An unpacked number is given by its level and its sign. -/
lemma eq_of_unpackedLevel (hf : ¬ f.isNaN) (hg : ¬ g.isNaN) (hf' : IsNormalized f)
    (hg' : IsNormalized g) (hlevel : unpackedLevel f = unpackedLevel g)
    (hsign : unpackedSign f = unpackedSign g) : f = g := by
  cases f with
  | notANumber => exact absurd rfl hf
  | infinity s =>
    cases g with
    | notANumber => exact absurd rfl hg
    | infinity t => exact congrArg _ hsign
    | zero t => cases s <;> cases hlevel
    | finite t n p hn => cases s <;> cases t <;> cases hlevel
  | zero s =>
    cases g with
    | notANumber => exact absurd rfl hg
    | infinity t => cases t <;> cases hlevel
    | zero t => exact congrArg _ hsign
    | finite t n p hn => exact absurd hlevel.symm (unpackedLevel_ne_zero (hg' t n p hn rfl))
  | finite s m q hm =>
    have hm' := hf' s m q hm rfl
    cases g with
    | notANumber => exact absurd rfl hg
    | infinity t => cases s <;> cases t <;> cases hlevel
    | zero t => exact absurd hlevel (unpackedLevel_ne_zero hm')
    | finite t n p hn =>
      obtain rfl : s = t := hsign
      have hvalue : Magnitude.value ⟨m, q⟩ = Magnitude.value ⟨n, p⟩ := by
        cases s <;> simpa [unpackedLevel] using hlevel
      cases hm'.eq_of_value_eq (hg' s n p hn rfl) hvalue
      rfl

/-- A number is given by its rank. -/
theorem eq_of_rank (ha : ¬ a.isNaN) (hb : ¬ b.isNaN) (h : rank a = rank b) : a = b := by
  obtain ⟨hlevel, hsign⟩ : level a = level b ∧ (!isNegative a) = !isNegative b := by
    simpa [rank] using h
  have hnegative : isNegative a ↔ isNegative b := by rw [Bool.not_inj hsign]
  rw [isNegative_iff_unpackedSign ha, isNegative_iff_unpackedSign hb] at hnegative
  refine eq_of_unpack (eq_of_unpackedLevel ha hb (isNormalized_unpack a) (isNormalized_unpack b)
    hlevel ?_)
  generalize unpackedSign a.toModel.unpack = s, unpackedSign b.toModel.unpack = t at hnegative
  cases s <;> cases t <;> simp_all

/-- Numbers that precede each other are the same. -/
lemma Precedes.antisymm (h : Precedes a b) (h' : Precedes b a) : a = b := by
  obtain ⟨ha, hb, hrank⟩ := precedes_iff.mp h
  exact eq_of_rank ha hb (le_antisymm hrank (precedes_iff.mp h').2.2)

lemma Precedes.trans {c : Float} (h : Precedes a b) (h' : Precedes b c) : Precedes a c := by
  rw [precedes_iff] at h h' ⊢
  exact ⟨h.1, h'.2.1, h.2.2.trans h'.2.2⟩

/-! ### The lesser and the greater of two numbers -/

lemma level_le_of_not_lt (ha : ¬ a.isNaN) (hb : ¬ b.isNaN) (h : ¬ a < b) : level b ≤ level a :=
  not_lt.mp fun hlt => h (lt_iff.mpr ⟨ha, hb, hlt⟩)

lemma rank_le_of_lt (h : a < b) : rank a ≤ rank b := rank_le_iff.mpr (.inl (lt_iff.mp h).2.2)

lemma least_cases (ha : ¬ a.isNaN) (hb : ¬ b.isNaN) :
    least a b = a ∧ rank a ≤ rank b ∨ least a b = b ∧ rank b ≤ rank a := by
  rw [least, if_neg (by rw [Bool.or_eq_true]; exact not_or.mpr ⟨ha, hb⟩)]
  split
  · rename_i h
    exact .inl ⟨rfl, rank_le_of_lt h⟩
  rename_i h
  split
  · rename_i h'
    exact .inr ⟨rfl, rank_le_of_lt h'⟩
  rename_i h'
  have hlevel := le_antisymm (level_le_of_not_lt hb ha h') (level_le_of_not_lt ha hb h)
  split
  · rename_i hsign
    exact .inl ⟨rfl, rank_le_iff.mpr (.inr ⟨hlevel, fun _ => hsign⟩)⟩
  · rename_i hsign
    exact .inr ⟨rfl, rank_le_iff.mpr (.inr ⟨hlevel.symm, fun h => absurd h hsign⟩)⟩

lemma greatest_cases (ha : ¬ a.isNaN) (hb : ¬ b.isNaN) :
    greatest a b = a ∧ rank b ≤ rank a ∨ greatest a b = b ∧ rank a ≤ rank b := by
  rw [greatest, if_neg (by rw [Bool.or_eq_true]; exact not_or.mpr ⟨ha, hb⟩)]
  split
  · rename_i h
    exact .inr ⟨rfl, rank_le_of_lt h⟩
  rename_i h
  split
  · rename_i h'
    exact .inl ⟨rfl, rank_le_of_lt h'⟩
  rename_i h'
  have hlevel := le_antisymm (level_le_of_not_lt hb ha h') (level_le_of_not_lt ha hb h)
  split
  · rename_i hsign
    exact .inr ⟨rfl, rank_le_iff.mpr (.inr ⟨hlevel, fun _ => hsign⟩)⟩
  · rename_i hsign
    exact .inl ⟨rfl, rank_le_iff.mpr (.inr ⟨hlevel.symm, fun h => absurd h hsign⟩)⟩

/-- If an operation picks the one of two numbers that comes first in some order, then from a list it
picks a number that no other comes before. -/
lemma foldl_pick {α : Type} [Preorder α] (key : Float → α) {op : Float → Float → Float}
    (hop : ∀ a b, ¬ a.isNaN → ¬ b.isNaN →
      op a b = a ∧ key a ≤ key b ∨ op a b = b ∧ key b ≤ key a)
    (ha : ¬ a.isNaN) (hvalues : ∀ v ∈ values, ¬ v.isNaN) :
    values.foldl op a ∈ a :: values ∧ ∀ v ∈ a :: values, key (values.foldl op a) ≤ key v := by
  induction values generalizing a with
  | nil => simp
  | cons b rest ih =>
    obtain ⟨hb, hrest⟩ := List.forall_mem_cons.mp hvalues
    rw [List.foldl_cons]
    rcases hop a b ha hb with ⟨hpick, hle⟩ | ⟨hpick, hle⟩ <;> rw [hpick]
    · obtain ⟨hmem, hfirst⟩ := ih ha hrest
      obtain ⟨hfirst', hrest'⟩ := List.forall_mem_cons.mp hfirst
      refine ⟨?_, List.forall_mem_cons.mpr
        ⟨hfirst', List.forall_mem_cons.mpr ⟨hfirst'.trans hle, hrest'⟩⟩⟩
      rw [List.mem_cons] at hmem ⊢
      exact hmem.imp_right (List.mem_cons_of_mem b)
    · obtain ⟨hmem, hfirst⟩ := ih hb hrest
      have hfirst' := hfirst b List.mem_cons_self
      exact ⟨List.mem_cons_of_mem a hmem, List.forall_mem_cons.mpr ⟨hfirst'.trans hle, hfirst⟩⟩

/-- The least of a list and a number is one of them, and nothing comes before it. -/
theorem foldl_least (ha : ¬ a.isNaN) (hvalues : ∀ v ∈ values, ¬ v.isNaN) :
    values.foldl least a ∈ a :: values ∧
      ∀ v ∈ a :: values, rank (values.foldl least a) ≤ rank v :=
  foldl_pick rank (fun _ _ => least_cases) ha hvalues

/-- The greatest of a list and a number is one of them, and nothing comes behind it. -/
theorem foldl_greatest (ha : ¬ a.isNaN) (hvalues : ∀ v ∈ values, ¬ v.isNaN) :
    values.foldl greatest a ∈ a :: values ∧
      ∀ v ∈ a :: values, rank v ≤ rank (values.foldl greatest a) :=
  foldl_pick (fun v => OrderDual.toDual (rank v)) (fun _ _ => greatest_cases) ha hvalues

lemma isNaN_nan : nan.isNaN := by decide +kernel

/-- What `NaN` is taken together with becomes `NaN`. -/
lemma foldl_of_isNaN {op : Float → Float → Float}
    (hop : ∀ {a b}, a.isNaN ∨ b.isNaN → op a b = nan) (h : ∃ v ∈ a :: values, v.isNaN) :
    (values.foldl op a).isNaN := by
  induction values generalizing a with
  | nil => simpa using h
  | cons b rest ih =>
    rw [List.foldl_cons]
    refine ih ?_
    obtain ⟨v, hv, hnan⟩ := h
    rcases List.mem_cons.mp hv with rfl | hv
    · exact ⟨_, List.mem_cons_self, hop (.inl hnan) ▸ isNaN_nan⟩
    rcases List.mem_cons.mp hv with rfl | hv
    · exact ⟨_, List.mem_cons_self, hop (.inr hnan) ▸ isNaN_nan⟩
    · exact ⟨v, List.mem_cons_of_mem _ hv, hnan⟩

end Number

end FunctionPlot
