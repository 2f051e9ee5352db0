-- Round robin: a counter that goes around, and how often it comes to each place.
-- Nothing here is about the proxy.
import Mathlib.Data.Int.CardIntervalMod

namespace lib.round_robin

/-- The places of some turns, the first of them included. -/
def turns (size first n : Nat) : List Nat := (List.range n).map (fun m => (first + m) % size)

variable {size : Nat} (first n : Nat) {i j : Nat}

theorem turns_succ :
    turns size first (n + 1) = turns size first n ++ [(first + n) % size] := by
  rw [turns, List.range_succ, List.map_append]
  rfl

/-- What was taken in any order is some turns, and the next one is taken. -/
theorem perm_turns_succ {first : Nat} {taken : List Nat}
    (h : taken.Perm (turns size first taken.length)) :
    ((first + taken.length) % size :: taken).Perm (turns size first (taken.length + 1)) := by
  rw [turns_succ]
  exact (h.cons _).trans (List.perm_append_singleton _ _).symm

theorem count_turns_eq :
    (turns size first n).count i = Nat.count (fun m => (first + m) % size = i) n := by
  induction n with
  | zero => rfl
  | succ n ih =>
    rw [turns_succ, List.count_append, ih, Nat.count_succ, List.count_singleton]
    simp

/-- It comes to a place as often as it goes around, or once more. -/
theorem count_turns (hi : i < size) :
    n / size ≤ (turns size first n).count i ∧ (turns size first n).count i ≤ n / size + 1 := by
  have hsize : 0 < size := Nat.zero_lt_of_lt hi
  have hfirst : first % size < size := Nat.mod_lt _ hsize
  -- The turns of a place are those that are congruent to its first one.
  have hturn (m : Nat) : (first + m) % size = i ↔ m ≡ i + (size - first % size) [MOD size] := by
    have hback : first + (i + (size - first % size)) ≡ i [MOD size] := by
      have hsplit : first + (i + (size - first % size)) = i + size * (first / size + 1) := by
        have hdiv := Nat.mod_add_div first size
        rw [Nat.mul_add, Nat.mul_one]
        omega
      rw [hsplit]
      exact Nat.add_mul_mod_self_left _ _ _
    constructor
    · intro h
      refine Nat.ModEq.add_left_cancel' first (Nat.ModEq.trans ?_ hback.symm)
      exact h.trans (Nat.mod_eq_of_lt hi).symm
    · intro h
      exact Eq.trans ((h.add_left first).trans hback) (Nat.mod_eq_of_lt hi)
  rw [count_turns_eq]
  simp only [hturn]
  rw [Nat.count_modEq_card n hsize]
  split <;> omega

/-- No place is more than one turn ahead of another one. -/
theorem count_turns_le (hi : i < size) (hj : j < size) :
    (turns size first n).count i ≤ (turns size first n).count j + 1 :=
  (count_turns first n hi).2.trans (Nat.add_le_add_right (count_turns first n hj).1 1)

end lib.round_robin
