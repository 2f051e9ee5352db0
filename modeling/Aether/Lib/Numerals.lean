-- Numbers as the digits that are written for them, the highest digit first.
-- Nothing here is about the proxy.
import Mathlib.Data.Nat.Digits.Lemmas

namespace lib.numerals

/-- The number that digits make. -/
def value (b : Nat) (ds : List Nat) : Nat := ds.foldl (fun n d => b * n + d) 0

/-- The digits of a number, without zeros in front. -/
def numeral (b n : Nat) : List Nat := if n = 0 then [0] else (Nat.digits b n).reverse

theorem value_append_singleton (b : Nat) (ds : List Nat) (d : Nat) :
    value b (ds ++ [d]) = b * value b ds + d := by
  simp [value, List.foldl_append]

theorem value_reverse (b : Nat) (ds : List Nat) : value b ds.reverse = Nat.ofDigits b ds := by
  induction ds with
  | nil => rfl
  | cons d ds ih =>
    rw [List.reverse_cons, value_append_singleton, ih, Nat.ofDigits_cons]
    exact Nat.add_comm _ _

theorem value_numeral (b n : Nat) : value b (numeral b n) = n := by
  unfold numeral
  split
  · rename_i h
    subst h
    simp [value]
  · rw [value_reverse, Nat.ofDigits_digits]

theorem numeral_ne_nil (b n : Nat) : numeral b n ≠ [] := by
  unfold numeral
  split
  · simp
  · rename_i h
    simpa using Nat.digits_ne_nil_iff_ne_zero.mpr h

theorem numeral_lt {b n d : Nat} (hb : 1 < b) (h : d ∈ numeral b n) : d < b := by
  unfold numeral at h
  split at h
  · rw [List.mem_singleton] at h
    omega
  · exact Nat.digits_lt_base hb (List.mem_reverse.mp h)

theorem length_numeral_le {b n k : Nat} (hb : 1 < b) (hk : 0 < k) (hn : n < b ^ k) :
    (numeral b n).length ≤ k := by
  unfold numeral
  split
  · exact hk
  · rw [List.length_reverse]
    exact (Nat.digits_length_le_iff hb n).mpr hn

theorem value_eq_ofDigits (b : Nat) (ds : List Nat) : value b ds = Nat.ofDigits b ds.reverse := by
  rw [← value_reverse, List.reverse_reverse]

/-- Zeros in front do not change a number. -/
theorem value_zeros (b n : Nat) (ds : List Nat) :
    value b (List.replicate n 0 ++ ds) = value b ds := by
  rw [value_eq_ofDigits, value_eq_ofDigits, List.reverse_append, List.reverse_replicate,
    Nat.ofDigits_append_replicate_zero]

/-- So many digits are the digits of their number, with zeros in front. -/
theorem zeros_numeral {b : Nat} {ds : List Nat} (hb : 1 < b) (hne : ds ≠ [])
    (hds : ∀ d ∈ ds, d < b) : List.replicate (ds.length - (numeral b (value b ds)).length) 0 ++
      numeral b (value b ds) = ds := by
  have hvalue : value b ds < b ^ ds.length := by
    rw [value_eq_ofDigits, ← List.length_reverse]
    exact Nat.ofDigits_lt_base_pow_length hb fun d hd => hds d (List.mem_reverse.mp hd)
  have hlength := length_numeral_le hb (List.length_pos_iff.mpr hne) hvalue
  refine List.reverse_injective (Nat.ofDigits_inj_of_len_eq hb ?_ ?_ ?_ ?_)
  · simp only [List.length_reverse, List.length_append, List.length_replicate]
    omega
  · intro d hd
    rw [List.mem_reverse, List.mem_append, List.mem_replicate] at hd
    rcases hd with ⟨-, rfl⟩ | hd
    · omega
    · exact numeral_lt hb hd
  · exact fun d hd => hds d (List.mem_reverse.mp hd)
  · rw [← value_eq_ofDigits, ← value_eq_ofDigits, value_zeros, value_numeral]

/-- Characters that are all digits, as `digit` reads them. -/
theorem mapM_map {α : Type} {digit : α → Option Nat} {character : Nat → α} {b : Nat}
    (hchar : ∀ d < b, digit (character d) = some d) {ds : List Nat} (hds : ∀ d ∈ ds, d < b) :
    (ds.map character).mapM digit = some ds := by
  induction ds with
  | nil => rfl
  | cons d ds ih =>
    have hd : digit (character d) = some d := hchar d (hds d List.mem_cons_self)
    have hrest := ih (fun x hx => hds x (List.mem_cons_of_mem d hx))
    simp [hd, hrest]

end lib.numerals
