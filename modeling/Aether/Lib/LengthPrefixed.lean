-- Lists of vectors, each behind its length, read back from their bytes. Nothing here is
-- about the proxy.
import Aether.Lib.Tls

open lib.big_endian lib.tls

namespace lib.length_prefixed

/-- The vector at the front, and the bytes behind it. -/
def readVector (k : Nat) (bs : List UInt8) : Option (List UInt8 × List UInt8) :=
  let size := ofBigEndian (bs.take k)
  if k ≤ bs.length ∧ size ≤ (bs.drop k).length then
    some ((bs.drop k).take size, (bs.drop k).drop size)
  else none

/-- At most `fuel` vectors, up to the end of the bytes. -/
def readVectors (k : Nat) : Nat → List UInt8 → Option (List (List UInt8))
  | _, [] => some []
  | 0, _ :: _ => none
  | fuel + 1, b :: bs =>
    (readVector k (b :: bs)).bind fun front => (readVectors k fuel front.2).map (front.1 :: ·)

/-- All vectors: none is shorter than its length. -/
def readEntries (k : Nat) (bs : List UInt8) : Option (List (List UInt8)) :=
  readVectors k bs.length bs

section

variable {k : Nat} {x rest : List UInt8} {xs : List (List UInt8)}

theorem readVector_vector (h : x.length < 256 ^ k) :
    readVector k (vector k x ++ rest) = some (x, rest) := by
  have hlength : (bigEndian k x.length).length = k := length_bigEndian k x.length
  have hbytes : vector k x ++ rest = bigEndian k x.length ++ (x ++ rest) := List.append_assoc _ _ _
  have htake : (vector k x ++ rest).take k = bigEndian k x.length := by
    rw [hbytes]
    exact List.take_left' hlength
  have hdrop : (vector k x ++ rest).drop k = x ++ rest := by
    rw [hbytes]
    exact List.drop_left' hlength
  have hroom : k ≤ (vector k x ++ rest).length := by
    rw [List.length_append, length_vector]
    omega
  simp only [readVector, htake, hdrop, ofBigEndian_bigEndian h]
  rw [if_pos ⟨hroom, by rw [List.length_append]; omega⟩, List.take_left, List.drop_left]

theorem readVectors_cons (hk : 0 < k) (h : x.length < 256 ^ k) (fuel : Nat) :
    readVectors k (fuel + 1) (vector k x ++ rest) = (readVectors k fuel rest).map (x :: ·) := by
  have hfirst : readVector k (vector k x ++ rest) = some (x, rest) := readVector_vector h
  cases hbytes : vector k x ++ rest with
  | nil =>
    have hlength := congrArg List.length hbytes
    rw [List.length_append, length_vector, List.length_nil] at hlength
    omega
  | cons b bs =>
    rw [hbytes] at hfirst
    rw [readVectors, hfirst]
    rfl

theorem readVectors_flatMap (hk : 0 < k) (h : ∀ x ∈ xs, x.length < 256 ^ k) :
    ∀ fuel, xs.length ≤ fuel → readVectors k fuel (xs.flatMap (vector k)) = some xs := by
  induction xs with
  | nil =>
    intro fuel _
    cases fuel <;> rfl
  | cons x xs ih =>
    intro fuel hfuel
    obtain ⟨hx, hxs⟩ := List.forall_mem_cons.mp h
    obtain ⟨fuel, rfl⟩ : ∃ n, fuel = n + 1 := ⟨fuel - 1, by simp at hfuel; omega⟩
    rw [List.flatMap_cons, readVectors_cons hk hx, ih hxs fuel (Nat.le_of_succ_le_succ hfuel)]
    rfl

theorem length_le_flatMap (hk : 0 < k) (xs : List (List UInt8)) :
    xs.length ≤ (xs.flatMap (vector k)).length := by
  induction xs with
  | nil => rfl
  | cons x xs ih =>
    rw [List.flatMap_cons, List.length_append, length_vector, List.length_cons]
    omega

/-- The vectors are read back, when each fits its length. -/
theorem readEntries_flatMap (hk : 0 < k) (h : ∀ x ∈ xs, x.length < 256 ^ k) :
    readEntries k (xs.flatMap (vector k)) = some xs :=
  readVectors_flatMap hk h _ (length_le_flatMap hk xs)

end

end lib.length_prefixed
