-- Memory that starts as all the same element, and into which a text is written
-- piece by piece: how much of the text it holds.
import Mathlib.Data.List.Basic
import Mathlib.Tactic.Common

namespace lib.filled

variable {α : Type}

/-- `xs` written over `v` from `i` on. -/
def writeAt (v : List α) (i : Nat) (xs : List α) : List α :=
  v.take i ++ xs ++ v.drop (i + xs.length)

/-- The part of `w` from `i` up to `j`. -/
def part (w : List α) (i j : Nat) : List α := (w.take j).drop i

/-- The first `k` elements are those of `w`, and the others are `z`. -/
structure Filled (w : List α) (z : α) (k : Nat) (v : List α) : Prop where
  text : k ≤ w.length
  room : k ≤ v.length
  same : ∀ i < k, v[i]? = w[i]?
  bare : ∀ i, k ≤ i → i < v.length → v[i]? = some z

theorem length_part {w : List α} {i j : Nat} (hj : j ≤ w.length) : (part w i j).length = j - i := by
  unfold part
  rw [List.length_drop, List.length_take]
  omega

theorem getElem?_part {w : List α} {i j n : Nat} (h : i + n < j) :
    (part w i j)[n]? = w[i + n]? := by
  unfold part
  rw [List.getElem?_drop, List.getElem?_take, if_pos h]

/-- A write that fits does not move anything. -/
theorem length_writeAt {v xs : List α} {i : Nat} (h : i + xs.length ≤ v.length) :
    (writeAt v i xs).length = v.length := by
  unfold writeAt
  simp only [List.length_append, List.length_take, List.length_drop]
  omega

theorem getElem?_writeAt_lt {v xs : List α} {i n : Nat} (hi : i ≤ v.length) (h : n < i) :
    (writeAt v i xs)[n]? = v[n]? := by
  unfold writeAt
  rw [List.append_assoc, List.getElem?_append_left (by rw [List.length_take]; omega),
    List.getElem?_take, if_pos h]

theorem getElem?_writeAt_in {v xs : List α} {i n : Nat} (hi : i ≤ v.length)
    (h : n < xs.length) : (writeAt v i xs)[i + n]? = xs[n]? := by
  have hlen : (v.take i).length = i := by rw [List.length_take]; omega
  unfold writeAt
  rw [List.append_assoc, List.getElem?_append_right (by omega), hlen, Nat.add_sub_cancel_left,
    List.getElem?_append_left h]

theorem getElem?_writeAt_ge {v xs : List α} {i n : Nat} (hi : i ≤ v.length)
    (h : i + xs.length ≤ n) : (writeAt v i xs)[n]? = v[n]? := by
  have hlen : (v.take i ++ xs).length = i + xs.length := by
    rw [List.length_append, List.length_take]; omega
  unfold writeAt
  rw [List.getElem?_append_right (by omega), hlen, List.getElem?_drop]
  congr 1
  omega

/-- What lies before a write stays. -/
theorem take_writeAt {v xs : List α} {i n : Nat} (hi : i ≤ v.length) (h : n ≤ i) :
    (writeAt v i xs).take n = v.take n := by
  unfold writeAt
  rw [List.append_assoc, List.take_append_of_le_length (by rw [List.length_take]; omega),
    List.take_take, Nat.min_eq_left h]

namespace Filled

variable {w v : List α} {z : α} {k : Nat}

theorem replicate (w : List α) (z : α) (n : Nat) : Filled w z 0 (List.replicate n z) where
  text := Nat.zero_le _
  room := Nat.zero_le _
  same := by intro i hi; omega
  bare := by
    intro i _ hi
    rw [List.length_replicate] at hi
    rw [List.getElem?_replicate, if_pos hi]

/-- More room is bare. -/
theorem grow (h : Filled w z k v) (n : Nat) : Filled w z k (v ++ List.replicate n z) where
  text := h.text
  room := by
    rw [List.length_append]
    exact Nat.le_trans h.room (Nat.le_add_right _ _)
  same := by
    intro i hi
    rw [List.getElem?_append_left (Nat.lt_of_lt_of_le hi h.room)]
    exact h.same i hi
  bare := by
    intro i hki hi
    by_cases hv : i < v.length
    · rw [List.getElem?_append_left hv]
      exact h.bare i hki hv
    · rw [List.length_append, List.length_replicate] at hi
      rw [List.getElem?_append_right (by omega), List.getElem?_replicate, if_pos (by omega)]

/-- A part of the text that goes to its own place, with no gap before it, fills up to its end. -/
theorem write (h : Filled w z k v) {i j : Nat} (hik : i ≤ k) (hij : i ≤ j) (hjw : j ≤ w.length)
    (hjv : j ≤ v.length) : Filled w z (max k j) (writeAt v i (part w i j)) := by
  have hi : i ≤ v.length := Nat.le_trans hik h.room
  have hpart : (part w i j).length = j - i := length_part hjw
  have hlen : (writeAt v i (part w i j)).length = v.length := length_writeAt (by omega)
  have htext := h.text
  have hroom := h.room
  refine ⟨by omega, by omega, ?_, ?_⟩
  · intro n hn
    by_cases hbefore : n < i
    · rw [getElem?_writeAt_lt hi hbefore]
      exact h.same n (by omega)
    by_cases hin : n < j
    · obtain ⟨m, rfl⟩ : ∃ m, n = i + m := ⟨n - i, by omega⟩
      rw [getElem?_writeAt_in hi (by omega), getElem?_part hin]
    · rw [getElem?_writeAt_ge hi (by omega)]
      exact h.same n (by omega)
  · intro n hn hlt
    rw [getElem?_writeAt_ge hi (by omega)]
    exact h.bare n (by omega) (by omega)

/-- Bare memory is the text where the text looks like it. -/
theorem extend (h : Filled w z k v) {n : Nat} (hkn : k ≤ n) (hw : n ≤ w.length) (hv : n ≤ v.length)
    (hz : ∀ x ∈ part w k n, x = z) : Filled w z n v where
  text := hw
  room := hv
  same := by
    intro i hi
    by_cases hik : i < k
    · exact h.same i hik
    · obtain ⟨m, rfl⟩ : ∃ m, i = k + m := ⟨i - k, by omega⟩
      have hlen : (part w k n).length = n - k := length_part hw
      have hm : m < (part w k n).length := by omega
      rw [h.bare _ (by omega) (by omega), ← getElem?_part hi, List.getElem?_eq_getElem hm,
        hz _ (List.getElem_mem hm)]
  bare := by
    intro i hni hi
    exact h.bare i (Nat.le_trans hkn hni) hi

/-- The memory shows the text as far as the part that is missing looks like bare memory. -/
theorem take_eq_iff (h : Filled w z k v) {n : Nat} (hw : n ≤ w.length) (hv : n ≤ v.length) :
    v.take n = w.take n ↔ ∀ x ∈ part w k n, x = z := by
  have hpart : (part w k n).length = n - k := length_part hw
  constructor
  · intro heq x hx
    obtain ⟨m, hm, rfl⟩ := List.mem_iff_getElem.mp hx
    have hmn : k + m < n := by omega
    have hside : (v.take n)[k + m]? = (w.take n)[k + m]? := by rw [heq]
    rw [List.getElem?_take, List.getElem?_take, if_pos hmn, if_pos hmn,
      h.bare _ (by omega) (by omega), ← getElem?_part hmn, List.getElem?_eq_getElem hm] at hside
    exact (Option.some.inj hside).symm
  · intro hz
    apply List.ext_getElem?
    intro i
    rw [List.getElem?_take, List.getElem?_take]
    by_cases hin : i < n
    · rw [if_pos hin, if_pos hin]
      by_cases hik : i < k
      · exact h.same i hik
      · obtain ⟨m, rfl⟩ : ∃ m, i = k + m := ⟨i - k, by omega⟩
        have hm : m < (part w k n).length := by omega
        rw [h.bare _ (by omega) (by omega), ← getElem?_part hin, List.getElem?_eq_getElem hm,
          hz _ (List.getElem_mem hm)]
    · rw [if_neg hin, if_neg hin]

end Filled

end lib.filled
