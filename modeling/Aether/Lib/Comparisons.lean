-- Three-way comparisons of lists, the first difference decides. Nothing here is
-- about the proxy.
import Aether.Lib.BigEndian

open lib.big_endian

namespace lib.comparisons

variable {α β : Type} [Ord α] [Ord β]

/-- Of lists whose first parts are as long as each other, the first parts come first. -/
theorem compare_append {xs xs' ys ys' : List α} (h : xs.length = xs'.length) :
    compare (xs ++ ys) (xs' ++ ys') = (compare xs xs').then (compare ys ys') := by
  induction xs generalizing xs' with
  | nil =>
    rw [List.length_nil, eq_comm, List.length_eq_zero_iff] at h
    subst h
    rfl
  | cons x xs ih =>
    cases xs' with
    | nil => cases h
    | cons x' xs' =>
      rw [List.cons_append, List.cons_append, List.compare_cons_cons, List.compare_cons_cons,
        ih (Nat.succ_inj.mp h), Ordering.then_assoc]

/-- What is written for the elements is in their order, if it is for each two of them. -/
theorem compare_flatMap {f : α → List β} {xs ys : List α} (h : xs.length = ys.length)
    (hlength : ∀ x ∈ xs, ∀ y ∈ ys, (f x).length = (f y).length)
    (hf : ∀ x ∈ xs, ∀ y ∈ ys, compare (f x) (f y) = compare x y) :
    compare (xs.flatMap f) (ys.flatMap f) = compare xs ys := by
  induction xs generalizing ys with
  | nil =>
    rw [List.length_nil, eq_comm, List.length_eq_zero_iff] at h
    subst h
    rfl
  | cons x xs ih =>
    cases ys with
    | nil => cases h
    | cons y ys =>
      have hrest := ih (Nat.succ_inj.mp h)
        (fun x hx y hy => hlength x (List.mem_cons_of_mem _ hx) y (List.mem_cons_of_mem _ hy))
        (fun x hx y hy => hf x (List.mem_cons_of_mem _ hx) y (List.mem_cons_of_mem _ hy))
      rw [List.flatMap_cons, List.flatMap_cons, List.compare_cons_cons, compare_append
        (hlength x List.mem_cons_self y List.mem_cons_self), hrest,
        hf x List.mem_cons_self y List.mem_cons_self]

/-! ## Numbers -/

/-- The high digit of a number comes first. -/
theorem compare_mul_add {b m n r s : Nat} (hr : r < b) (hs : s < b) :
    compare (b * m + r) (b * n + s) = (compare m n).then (compare r s) := by
  have hdown {m n r s : Nat} (hr : r < b) (h : m < n) : b * m + r < b * n + s := by
    calc b * m + r < b * m + b := Nat.add_lt_add_left hr _
      _ = b * (m + 1) := (Nat.mul_succ b m).symm
      _ ≤ b * n := Nat.mul_le_mul_left b h
      _ ≤ b * n + s := Nat.le_add_right _ _
  rcases Nat.lt_trichotomy m n with h | rfl | h
  · rw [Nat.compare_eq_lt.mpr h, Nat.compare_eq_lt.mpr (hdown hr h)]
    rfl
  · rw [Nat.compare_eq_eq.mpr rfl, Ordering.then, Nat.compare_eq_ite_lt, Nat.compare_eq_ite_lt]
    simp only [Nat.add_lt_add_iff_left]
  · rw [Nat.compare_eq_gt.mpr h, Nat.compare_eq_gt.mpr (hdown hs h)]
    rfl

theorem compare_toNat (a b : UInt8) : compare a.toNat b.toNat = compare a b := by
  rcases Nat.lt_trichotomy a.toNat b.toNat with h | h | h
  · rw [Nat.compare_eq_lt.mpr h, Std.compare_eq_lt.mpr (UInt8.lt_iff_toNat_lt.mpr h)]
  · rw [UInt8.toNat_inj.mp h, Nat.compare_eq_eq.mpr rfl, Std.compare_self]
  · rw [Nat.compare_eq_gt.mpr h, Std.compare_eq_gt.mpr (UInt8.lt_iff_toNat_lt.mpr h)]

/-- Numbers are in the order of their bytes. -/
theorem compare_bigEndian {n v w : Nat} (hv : v < 256 ^ n) (hw : w < 256 ^ n) :
    compare (bigEndian n v) (bigEndian n w) = compare v w := by
  induction n generalizing v w with
  | zero =>
    rw [Nat.pow_zero, Nat.lt_one_iff] at hv hw
    subst hv hw
    rfl
  | succ n ih =>
    have hpos : 0 < 256 ^ n := Nat.pow_pos (by decide)
    have hlow (u : Nat) : bigEndian n u = bigEndian n (u % 256 ^ n) := by
      conv => lhs; rw [← Nat.div_add_mod' u (256 ^ n), bigEndian_add]
    have hhigh {u : Nat} (hu : u < 256 ^ (n + 1)) : (UInt8.ofNat (u / 256 ^ n)).toNat =
        u / 256 ^ n := by
      rw [UInt8.toNat_ofNat', Nat.mod_eq_of_lt]
      exact Nat.div_lt_of_lt_mul (by rwa [← Nat.pow_succ])
    have hsplit := compare_mul_add (m := v / 256 ^ n) (n := w / 256 ^ n) (Nat.mod_lt v hpos)
      (Nat.mod_lt w hpos)
    rw [Nat.div_add_mod, Nat.div_add_mod] at hsplit
    rw [bigEndian, bigEndian, List.compare_cons_cons, hlow v, hlow w, ih (Nat.mod_lt v hpos)
      (Nat.mod_lt w hpos), ← compare_toNat, hhigh hv, hhigh hw, hsplit]

end lib.comparisons
