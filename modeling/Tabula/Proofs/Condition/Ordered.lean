import Mathlib.Data.Int.Order.Basic
import Mathlib.Data.String.Basic
import Mathlib.Order.Compare
import Tabula.Proofs.Condition.Equality

/-!
# The order that comparisons go by

A cell and a value are less, equal or greater, as numbers if both read as numbers and else as texts.
The six comparisons of order ask for one or two of these (`Comparison.holds_eq`), so they fit
together whichever of the two ways is taken, and the same way is taken if cell and value change
places (`Comparison.order?_swap`). In no order are only two numbers of which one is the value that
is no number: then nothing holds but that they are unequal (`compare_ordered`).

## Main definitions

* `Comparison.order?` — how a cell stands to a value, if they are in an order.
* `Comparison.accepts` — what a comparison asks for.
-/

namespace Tabula

/-- How two numbers stand to each other. -/
def Number.order? : Number → Number → Option Ordering
  | .units m, .units n => some (cmp m n)
  | _, _ => none

theorem Number.order?_swap (x y : Number) : y.order? x = (x.order? y).map Ordering.swap := by
  cases x with
  | nan => cases y <;> rfl
  | units m =>
    cases y with
    | nan => rfl
    | units n => exact congrArg some (cmp_swap m n).symm

theorem Number.order?_eq_none_iff {x y : Number} : x.order? y = none ↔ x = .nan ∨ y = .nan := by
  cases x with
  | nan => exact iff_of_true rfl (.inl rfl)
  | units m =>
    cases y with
    | nan => exact iff_of_true rfl (.inr rfl)
    | units n => exact iff_of_false (Option.some_ne_none _) (by simp)

namespace Comparison

/-- How a cell stands to a value: as numbers if both read as numbers, and else as texts. -/
def order? (s t : String) : Option Ordering :=
  match Number.read? s, Number.read? t with
  | some x, some y => x.order? y
  | _, _ => some (cmp s t)

/-- Whether a comparison asks for an order. What is in no order is unequal. -/
def accepts : Comparison → Option Ordering → Bool
  | equal, o => o = some .eq
  | notEqual, o => o ≠ some .eq
  | greaterEqual, o => o = some .gt ∨ o = some .eq
  | lessEqual, o => o = some .lt ∨ o = some .eq
  | greater, o => o = some .gt
  | less, o => o = some .lt
  | like, _ => false

variable {c : Comparison}

/-! ### Two members of one order -/

/-- What a comparison says of two members of an order. -/
def saysOf {α : Type} [LinearOrder α] : Comparison → α → α → Bool
  | equal, x, y => x = y
  | notEqual, x, y => x ≠ y
  | greaterEqual, x, y => y ≤ x
  | lessEqual, x, y => x ≤ y
  | greater, x, y => y < x
  | less, x, y => x < y
  | like, _, _ => false

theorem accepts_cmp {α : Type} [LinearOrder α] (c : Comparison) (x y : α) :
    c.accepts (some (cmp x y)) = c.saysOf x y := by
  rcases lt_trichotomy x y with h | rfl | h
  · rw [cmp_eq_lt_iff x y |>.2 h]
    cases c <;> simp [accepts, saysOf, h, h.le, h.ne, h.not_gt, h.not_ge]
  · rw [cmp_self_eq_eq]
    cases c <;> simp [accepts, saysOf]
  · rw [cmp_eq_gt_iff x y |>.2 h]
    cases c <;> simp [accepts, saysOf, h, h.le, h.ne', h.not_gt, h.not_ge]

theorem onTexts_eq (hc : c ≠ .like) (s t : String) :
    c.onTexts s t = c.accepts (some (cmp s t)) := by
  rw [accepts_cmp]
  cases c with
  | like => exact absurd rfl hc
  | _ => rfl

theorem onNumbers_eq (hc : c ≠ .like) (x y : Number) :
    c.onNumbers x y = c.accepts (x.order? y) := by
  cases x with
  | nan => cases y <;> cases c <;> rfl
  | units m =>
    cases y with
    | nan => cases c <;> rfl
    | units n =>
      refine Eq.trans ?_ (accepts_cmp c m n).symm
      cases c with
      | like => exact absurd rfl hc
      | notEqual => exact (decide_not ..).symm
      | _ => rfl

/-! ### Cells and values -/

/-- A comparison other than LIKE holds if the order is one that it asks for. -/
theorem holds_eq (hc : c ≠ .like) (s t : String) : c.holds s t = c.accepts (order? s t) := by
  unfold holds order?
  cases Number.read? s with
  | none => exact onTexts_eq hc s t
  | some x =>
    cases Number.read? t with
    | none => exact onTexts_eq hc s t
    | some y => exact onNumbers_eq hc x y

/-- The opposite order, in the same way, if cell and value change places. -/
theorem order?_swap (s t : String) : order? t s = (order? s t).map Ordering.swap := by
  unfold order?
  cases Number.read? s with
  | none => cases Number.read? t <;> exact congrArg some (cmp_swap s t).symm
  | some x =>
    cases Number.read? t with
    | none => exact congrArg some (cmp_swap s t).symm
    | some y => exact Number.order?_swap x y

theorem order?_eq_none_iff {s t : String} : order? s t = none ↔
    ∃ x y, Number.read? s = some x ∧ Number.read? t = some y ∧ (x = .nan ∨ y = .nan) := by
  unfold order?
  cases Number.read? s with
  | none =>
    cases Number.read? t <;> exact iff_of_false (Option.some_ne_none _) (by simp)
  | some x =>
    cases Number.read? t with
    | none => exact iff_of_false (Option.some_ne_none _) (by simp)
    | some y => exact Number.order?_eq_none_iff.trans (by simp)

end Comparison

/-- An operator that is written as its symbol is read as this comparison. -/
theorem compare_symbol (c : Comparison) (s t : String) : compare s c.symbol t = c.holds s t := by
  have hread : Comparison.ofText? c.symbol = some c := by cases c <;> decide
  rw [compare, hread]

open Comparison

variable (s t : String)

theorem compare_less : compare s "<" t = decide (order? s t = some .lt) :=
  (compare_symbol .less s t).trans (holds_eq (by decide) s t)

theorem compare_greater : compare s ">" t = decide (order? s t = some .gt) :=
  (compare_symbol .greater s t).trans (holds_eq (by decide) s t)

theorem compare_equal_eq : compare s "==" t = decide (order? s t = some .eq) :=
  (compare_symbol .equal s t).trans (holds_eq (by decide) s t)

/-- Of less, equal and greater exactly one holds of texts that are in an order. -/
theorem existsUnique_compare_iff :
    (∃! operator, operator ∈ ["<", "==", ">"] ∧ compare s operator t = true) ↔
      order? s t ≠ none := by
  constructor
  · rintro ⟨operator, ⟨hmem, hholds⟩, -⟩ hnone
    simp only [List.mem_cons, List.not_mem_nil, or_false] at hmem
    rcases hmem with rfl | rfl | rfl
    · simp [compare_less, hnone] at hholds
    · simp [compare_equal_eq, hnone] at hholds
    · simp [compare_greater, hnone] at hholds
  · intro hsome
    obtain ⟨o, ho⟩ := Option.ne_none_iff_exists'.1 hsome
    cases o with
    | lt => exact ⟨"<", by simp [compare_less, ho],
        by simp [compare_greater, compare_equal_eq, ho]⟩
    | eq => exact ⟨"==", by simp [compare_equal_eq, ho],
        by simp [compare_greater, compare_less, ho]⟩
    | gt => exact ⟨">", by simp [compare_greater, ho],
        by simp [compare_equal_eq, compare_less, ho]⟩

/-- Comparisons fit together as those of an order do. One of less, equal and greater holds, and only
one, unless both texts read as numbers and one of them is no number; in particular if neither is.
All else holds of any texts: the other comparisons are made of these three, and less is greater the
other way about. -/
theorem compare_ordered (s t : String) :
    ((∃! operator, operator ∈ ["<", "==", ">"] ∧ compare s operator t = true) ↔
      (Number.read? s = some .nan → Number.read? t = none) ∧
      (Number.read? t = some .nan → Number.read? s = none)) ∧
    compare s "<=" t = (compare s "<" t || compare s "==" t) ∧
    compare s ">=" t = (compare s ">" t || compare s "==" t) ∧
    compare s "!=" t = !compare s "==" t ∧
    compare s "<" t = compare t ">" s ∧
    compare s "==" t = compare t "==" s := by
  refine ⟨?_, ?_, ?_, compare_notEqual s t, ?_, ?_⟩
  · rw [existsUnique_compare_iff, ne_eq, order?_eq_none_iff]
    cases Number.read? s <;> cases Number.read? t <;> simp
  · have hle := (compare_symbol .lessEqual s t).trans (holds_eq (by decide) s t)
    rw [compare_less, compare_equal_eq, ← Bool.decide_or]
    exact hle
  · have hge := (compare_symbol .greaterEqual s t).trans (holds_eq (by decide) s t)
    rw [compare_greater, compare_equal_eq, ← Bool.decide_or]
    exact hge
  · rw [compare_less, compare_greater, order?_swap s t]
    cases order? s t with
    | none => rfl
    | some o => cases o <;> rfl
  · rw [compare_equal_eq, compare_equal_eq, order?_swap s t]
    cases order? s t with
    | none => rfl
    | some o => cases o <;> rfl

end Tabula
