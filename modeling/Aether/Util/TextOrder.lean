-- The orders of strings that the maps of the project are ordered by.
import Aether.Lib.OrderedMap
import Aether.Util.Text

open lib.ordered_map

namespace util.string

/-- `std::less` of two strings, which compares bytes. -/
def less (a b : Text) : Bool := decide (a < b)

theorem same_less {a b : Text} : same less a b = true ↔ a = b := by
  simp only [same, less, Bool.and_eq_true, Bool.not_eq_true', decide_eq_false_iff_not, List.not_lt]
  constructor
  · rintro ⟨h, h'⟩
    exact List.le_antisymm h' h
  · rintro rfl
    exact ⟨List.le_refl _, List.le_refl _⟩

/-- Of two texts in order, a third one is behind the first or in front of the second. -/
theorem lt_or_lt_of_lt {α : Type} [LT α] [LE α] [Std.IsLinearOrder α] [Std.LawfulOrderLT α]
    {a c : List α} (b : List α) (h : a < c) : a < b ∨ b < c := by
  by_contra hnot
  rw [not_or, List.not_lt, List.not_lt] at hnot
  exact List.not_lt.mpr (List.le_trans hnot.2 hnot.1) h

instance : WeakOrder less where
  irrefl a := by simp [less]
  trans h h' := by
    simp only [less, decide_eq_true_eq] at *
    exact List.lt_trans h h'
  between b h := by
    simp only [less, decide_eq_true_eq] at *
    exact lt_or_lt_of_lt b h

instance : WeakOrder iless_fn where
  irrefl := iless_irrefl
  trans := iless_trans
  between b h := by
    simp only [iless_fn, decide_eq_true_eq] at *
    exact lt_or_lt_of_lt (lowercase b) h

end util.string
