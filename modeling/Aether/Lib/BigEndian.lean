-- Big-endian numbers: the bytes of a number, the number of some bytes, and
-- the laws that tie the two together. Nothing here is about the proxy.
import Mathlib.Data.List.Basic
import Mathlib.Tactic.Common
import Mathlib.Tactic.Ring

namespace lib.big_endian

/-- The `n` low bytes of `v`, the most significant first. -/
def bigEndian : Nat → Nat → List UInt8
  | 0, _ => []
  | n + 1, v => UInt8.ofNat (v / 256 ^ n) :: bigEndian n v

/-- The number that the bytes spell, the most significant first. -/
def ofBigEndian (bs : List UInt8) : Nat := bs.foldl (fun acc b => acc * 256 + b.toNat) 0

@[simp] theorem length_bigEndian (n v : Nat) : (bigEndian n v).length = n := by
  induction n with
  | zero => rfl
  | succ n ih => simp [bigEndian, ih]

theorem foldl_shift (bs : List UInt8) (acc : Nat) :
    bs.foldl (fun acc b => acc * 256 + b.toNat) acc = acc * 256 ^ bs.length + ofBigEndian bs := by
  unfold ofBigEndian
  induction bs generalizing acc with
  | nil => simp
  | cons b bs ih =>
    simp only [List.foldl_cons, List.length_cons]
    rw [ih, ih (0 * 256 + b.toNat)]
    ring

@[simp] theorem ofBigEndian_nil : ofBigEndian [] = 0 := rfl

theorem ofBigEndian_cons (b : UInt8) (bs : List UInt8) :
    ofBigEndian (b :: bs) = b.toNat * 256 ^ bs.length + ofBigEndian bs := by
  conv => lhs; unfold ofBigEndian
  rw [List.foldl_cons, foldl_shift]
  simp

theorem ofBigEndian_lt (bs : List UInt8) : ofBigEndian bs < 256 ^ bs.length := by
  induction bs with
  | nil => simp
  | cons b bs ih =>
    rw [ofBigEndian_cons, List.length_cons, Nat.pow_succ]
    have hb : b.toNat < 256 := b.toNat_lt
    have : b.toNat * 256 ^ bs.length + 256 ^ bs.length ≤ 256 ^ bs.length * 256 := by
      calc b.toNat * 256 ^ bs.length + 256 ^ bs.length = (b.toNat + 1) * 256 ^ bs.length := by ring
        _ ≤ 256 * 256 ^ bs.length := Nat.mul_le_mul_right _ hb
        _ = 256 ^ bs.length * 256 := Nat.mul_comm _ _
    omega

/-- The bytes of a number spell its value modulo the room they have. -/
theorem ofBigEndian_bigEndian_mod (n v : Nat) : ofBigEndian (bigEndian n v) = v % 256 ^ n := by
  induction n with
  | zero => simp [bigEndian, Nat.mod_one]
  | succ n ih =>
    have hbyte : (UInt8.ofNat (v / 256 ^ n)).toNat = v / 256 ^ n % 256 := UInt8.toNat_ofNat'
    have hsplit : v % (256 ^ n * 256) = v % 256 ^ n + 256 ^ n * (v / 256 ^ n % 256) := Nat.mod_mul
    rw [bigEndian, ofBigEndian_cons, ih, length_bigEndian, hbyte]
    calc v / 256 ^ n % 256 * 256 ^ n + v % 256 ^ n
        = v % 256 ^ n + 256 ^ n * (v / 256 ^ n % 256) := by ring
      _ = v % 256 ^ (n + 1) := by rw [Nat.pow_succ, hsplit]

/-- A number that fits reads back as itself. -/
theorem ofBigEndian_bigEndian {n v : Nat} (h : v < 256 ^ n) :
    ofBigEndian (bigEndian n v) = v := by
  rw [ofBigEndian_bigEndian_mod, Nat.mod_eq_of_lt h]

theorem bigEndian_add (n a v : Nat) : bigEndian n (a * 256 ^ n + v) = bigEndian n v := by
  induction n generalizing a with
  | zero => rfl
  | succ n ih =>
    have hdiv : (a * 256 ^ (n + 1) + v) / 256 ^ n = a * 256 + v / 256 ^ n := by
      rw [Nat.pow_succ, show a * (256 ^ n * 256) = 256 ^ n * (a * 256) by ring,
        Nat.mul_add_div (Nat.pow_pos (by decide))]
    have hbyte : UInt8.ofNat (a * 256 + v / 256 ^ n) = UInt8.ofNat (v / 256 ^ n) :=
      UInt8.toNat_inj.mp (by simp)
    have hrest : a * 256 ^ (n + 1) + v = (a * 256) * 256 ^ n + v := by ring
    rw [bigEndian, bigEndian, hdiv, hbyte, hrest, ih]

/-- The bytes that spell a number are its bytes. -/
theorem bigEndian_ofBigEndian (bs : List UInt8) : bigEndian bs.length (ofBigEndian bs) = bs := by
  induction bs with
  | nil => rfl
  | cons b bs ih =>
    have hlow := ofBigEndian_lt bs
    have hdiv : (b.toNat * 256 ^ bs.length + ofBigEndian bs) / 256 ^ bs.length = b.toNat := by
      rw [Nat.mul_comm, Nat.mul_add_div (Nat.pow_pos (by decide)), Nat.div_eq_of_lt hlow]
      rfl
    rw [ofBigEndian_cons, List.length_cons, bigEndian, hdiv, bigEndian_add, ih]
    simp

end lib.big_endian
