-- Single bytes of data, `util/bytes.hpp`.
--
-- The shifts are those of the x86 targets of the project. A byte is promoted
-- to `int` before its shift, so the shift is 32 bits wide and its result is
-- sign-extended to 64 bits. The standard leaves a shift by 32 or more
-- undefined there, and the machine takes the count modulo 32.
import Aether.Lib.BigEndian
import Mathlib.Tactic.IntervalCases

open lib.big_endian

namespace util.bytes

/-- `static_cast<int>(n)` of a `size_t`. -/
def toInt (n : Nat) : Int := Int.bmod n (2 ^ 32)

theorem toInt_of_lt {n : Nat} (h : n < 2 ^ 31) : toInt n = n := by
  unfold toInt
  rw [Int.bmod_def, if_pos (by omega)]
  omega

theorem toInt_isInt (n : Nat) : -2 ^ 31 ≤ toInt n ∧ toInt n < 2 ^ 31 := by
  unfold toInt
  rw [Int.bmod_def]
  split <;> omega

/-- `b << n` at the width of `int`. -/
def intShl (b : UInt8) (n : Nat) : BitVec 32 := BitVec.ofNat 32 b.toNat <<< (n % 32)

/-- `insert<N>`, the loop from `i = N - 1` down to `0`. -/
def insert : Nat → Nat → List UInt8
  | 0, _ => []
  | i + 1, byte_string => UInt8.ofNat ((byte_string >>> (8 * i)) &&& 0xFF) :: insert i byte_string

/-- The loop of `parse_network_byte_order` from the element with `N - i = k - 1` on. -/
def parse_loop : Nat → List UInt8 → BitVec 64 → BitVec 64
  | 0, _, result => result
  | _, [], result => result
  | k + 1, b :: range, result => parse_loop k range (result ||| (intShl b (8 * k)).signExtend 64)

/-- A shift, with the width of its operand after the promotion. -/
structure Shift where
  count : Nat
  width : Nat
  deriving DecidableEq, Repr

/-- What the standard asks of a shift. -/
def Shift.Defined (s : Shift) : Prop := s.count < s.width

/-- The shifts of the loop. -/
def parse_shifts : Nat → List UInt8 → List Shift
  | 0, _ => []
  | _, [] => []
  | k + 1, _ :: range => ⟨8 * k, 32⟩ :: parse_shifts k range

/-- The shift of `extract_byte<N>`, of a word of a width. -/
def extract_shift (N width : Nat) : Shift := ⟨(N - 1) * 8, width⟩

/-- `parse_network_byte_order<N>`. -/
def parse_network_byte_order (N : Nat) (range : List UInt8) : Nat := (parse_loop N range 0).toNat

/-- `extract_byte<N>` of a word. -/
def extract_byte (N : Nat) (word : Nat) : UInt8 := UInt8.ofNat ((word >>> ((N - 1) * 8)) &&& 0xFF)

theorem insert_eq_bigEndian (n v : Nat) : insert n v = bigEndian n v := by
  induction n with
  | zero => rfl
  | succ n ih =>
    have hbyte : (v >>> (8 * n)) &&& 0xFF = v / 256 ^ n % 256 := by
      rw [Nat.shiftRight_eq_div_pow, Nat.pow_mul]
      exact Nat.and_two_pow_sub_one_eq_mod _ 8
    rw [insert, bigEndian, hbyte, ih]
    congr 1
    exact UInt8.toNat_inj.mp (by simp)

/-- Up to four bytes may be read so, but the first shift for more of them is not defined. -/
theorem parse_shifts_defined_iff {N : Nat} {b : UInt8} {range : List UInt8} (h : 0 < N) :
    (∀ s ∈ parse_shifts N (b :: range), s.Defined) ↔ N ≤ 4 := by
  have hle : ∀ k range, k ≤ 4 → ∀ s ∈ parse_shifts k range, s.Defined := by
    intro k range
    induction k generalizing range with
    | zero => simp [parse_shifts]
    | succ k ih =>
      intro hk s hs
      cases range with
      | nil => cases hs
      | cons b range =>
        rcases List.mem_cons.mp hs with rfl | hs
        · show 8 * k < 32
          omega
        · exact ih range (by omega) s hs
  constructor
  · intro hall
    obtain ⟨k, rfl⟩ : ∃ k, N = k + 1 := ⟨N - 1, by omega⟩
    have hfirst : 8 * k < 32 := hall ⟨8 * k, 32⟩ List.mem_cons_self
    omega
  · exact hle N (b :: range)

/-! ## What the parse computes -/

/-- The parse at the width of `int`, before the sign extension. -/
def parseWord : Nat → List UInt8 → BitVec 32
  | 0, _ => 0
  | _, [] => 0
  | k + 1, b :: range => intShl b (8 * k) ||| parseWord k range

theorem parse_loop_eq (k : Nat) (range : List UInt8) (result : BitVec 64) :
    parse_loop k range result = result ||| (parseWord k range).signExtend 64 := by
  induction k generalizing range result with
  | zero => simp [parse_loop, parseWord]
  | succ k ih =>
    cases range with
    | nil => simp [parse_loop, parseWord]
    | cons b range =>
      rw [parse_loop, ih, parseWord, BitVec.signExtend_or, BitVec.or_assoc]

theorem parse_network_byte_order_eq (N : Nat) (range : List UInt8) :
    parse_network_byte_order N range = ((parseWord N range).signExtend 64).toNat := by
  rw [parse_network_byte_order, parse_loop_eq]
  simp

theorem signExtend_small {w : BitVec 32} (h : w.toNat < 2 ^ 31) :
    (w.signExtend 64).toNat = w.toNat := by
  have hm : w.msb = false := by
    rw [BitVec.msb_eq_decide]
    simpa using h
  rw [BitVec.toNat_signExtend, BitVec.toNat_setWidth]
  simp [hm]
  omega

theorem signExtend_large {w : BitVec 32} (h : 2 ^ 31 ≤ w.toNat) :
    2 ^ 63 ≤ (w.signExtend 64).toNat := by
  have hm : w.msb = true := by
    rw [BitVec.msb_eq_decide]
    simpa using h
  rw [BitVec.toNat_signExtend, hm]
  simp only [if_true]
  omega

/-- A parsed number is below 2^31, or its sign was extended and it is at least 2^63. -/
theorem parse_network_byte_order_gap (N : Nat) (range : List UInt8) :
    parse_network_byte_order N range < 2 ^ 31 ∨ 2 ^ 63 ≤ parse_network_byte_order N range := by
  rw [parse_network_byte_order_eq]
  by_cases h : (parseWord N range).toNat < 2 ^ 31
  · left; rw [signExtend_small h]; exact h
  · right; exact signExtend_large (by omega)

theorem toNat_intShl {b : UInt8} {k : Nat} (h : k < 4) :
    (intShl b (8 * k)).toNat = b.toNat * 256 ^ k := by
  have hb : b.toNat < 256 := b.toNat_lt
  unfold intShl
  rw [Nat.mod_eq_of_lt (by omega : 8 * k < 32), BitVec.toNat_shiftLeft, BitVec.toNat_ofNat,
    Nat.shiftLeft_eq, Nat.pow_mul, Nat.mod_eq_of_lt (by omega : b.toNat < 2 ^ 32)]
  apply Nat.mod_eq_of_lt
  calc b.toNat * (2 ^ 8) ^ k < 256 * (2 ^ 8) ^ k :=
        Nat.mul_lt_mul_of_pos_right hb (Nat.pow_pos (by decide))
    _ = 256 ^ (k + 1) := by rw [Nat.pow_succ, Nat.mul_comm]; rfl
    _ ≤ 256 ^ 4 := Nat.pow_le_pow_right (by decide) h
    _ = 2 ^ 32 := by decide

/-- Up to four bytes keep their places. -/
theorem toNat_parseWord {k : Nat} {range : List UInt8} (hk : k ≤ 4) (hlen : range.length = k) :
    (parseWord k range).toNat = ofBigEndian range := by
  induction k generalizing range with
  | zero =>
    obtain rfl := List.length_eq_zero_iff.mp hlen
    rfl
  | succ k ih =>
    match range, hlen with
    | b :: range, hlen =>
      have hr : range.length = k := by simpa using hlen
      have hlow : ofBigEndian range < 2 ^ (8 * k) := by
        have := ofBigEndian_lt range
        rwa [hr, show (256 : Nat) = 2 ^ 8 from rfl, ← Nat.pow_mul] at this
      rw [parseWord, BitVec.toNat_or, toNat_intShl (by omega), ih (by omega) hr, ofBigEndian_cons,
        hr]
      rw [show b.toNat * 256 ^ k = 2 ^ (8 * k) * b.toNat by
        rw [Nat.pow_mul, Nat.mul_comm]]
      exact (Nat.two_pow_add_eq_or_of_lt hlow b.toNat).symm

/-- The first four of eight bytes take the places of the last four. -/
theorem parseWord_eight (b0 b1 b2 b3 : UInt8) (low : List UInt8) :
    parseWord 8 (b0 :: b1 :: b2 :: b3 :: low) =
      parseWord 4 [b0, b1, b2, b3] ||| parseWord 4 low := by
  have hzero : (0 : BitVec 32) ||| parseWord 4 low = parseWord 4 low := BitVec.zero_or
  simp only [parseWord, intShl, Nat.reduceMul, Nat.reduceMod, BitVec.or_assoc, hzero]

/-- A two-byte length is read as it was written. -/
theorem parse_two {range : List UInt8} (h : range.length = 2) :
    parse_network_byte_order 2 range = ofBigEndian range := by
  have hw := toNat_parseWord (by decide : 2 ≤ 4) h
  have hlt := ofBigEndian_lt range
  rw [h] at hlt
  rw [parse_network_byte_order_eq, signExtend_small (by omega), hw]

/-- An eight-byte length is read as it was written up to 2^31, where the sign bit of the `int`
starts. -/
theorem parse_eight {range : List UInt8} (h : range.length = 8) (hv : ofBigEndian range < 2 ^ 31) :
    parse_network_byte_order 8 range = ofBigEndian range := by
  match range, h with
  | [b0, b1, b2, b3, b4, b5, b6, b7], _ =>
    have hsplit : ofBigEndian [b0, b1, b2, b3, b4, b5, b6, b7] =
        ofBigEndian [b0, b1, b2, b3] * 256 ^ 4 + ofBigEndian [b4, b5, b6, b7] := by
      unfold ofBigEndian; simp only [List.foldl]; ring
    have hhigh : ofBigEndian [b0, b1, b2, b3] = 0 := by omega
    have hw1 := toNat_parseWord (Nat.le_refl 4) (rfl : [b0, b1, b2, b3].length = 4)
    have hw2 := toNat_parseWord (Nat.le_refl 4) (rfl : [b4, b5, b6, b7].length = 4)
    have hword : (parseWord 8 [b0, b1, b2, b3, b4, b5, b6, b7]).toNat =
        ofBigEndian [b4, b5, b6, b7] := by
      rw [parseWord_eight, BitVec.toNat_or, hw1, hw2, hhigh, Nat.zero_or]
    rw [parse_network_byte_order_eq, signExtend_small (by omega), hword]
    omega

/-- The top bit of an eight-byte length is kept. -/
theorem parse_eight_msb {range : List UInt8} (h : range.length = 8)
    (hv : 2 ^ 63 ≤ ofBigEndian range) : 2 ^ 63 ≤ parse_network_byte_order 8 range := by
  match range, h with
  | [b0, b1, b2, b3, b4, b5, b6, b7], _ =>
    have hsplit : ofBigEndian [b0, b1, b2, b3, b4, b5, b6, b7] =
        ofBigEndian [b0, b1, b2, b3] * 256 ^ 4 + ofBigEndian [b4, b5, b6, b7] := by
      unfold ofBigEndian; simp only [List.foldl]; ring
    have hlow := ofBigEndian_lt [b4, b5, b6, b7]
    simp only [List.length_cons, List.length_nil] at hlow
    have hw1 := toNat_parseWord (Nat.le_refl 4) (rfl : [b0, b1, b2, b3].length = 4)
    have hword : 2 ^ 31 ≤ (parseWord 8 [b0, b1, b2, b3, b4, b5, b6, b7]).toNat := by
      rw [parseWord_eight, BitVec.toNat_or, hw1]
      calc 2 ^ 31 ≤ ofBigEndian [b0, b1, b2, b3] := by omega
        _ ≤ _ := Nat.left_le_or
    rw [parse_network_byte_order_eq]
    exact signExtend_large hword

end util.bytes
