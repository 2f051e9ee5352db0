-- The byte strings of `util/bytes.hpp`: `concat`, `to_wire_format`, and for which N what
-- `insert<N>` wrote is read back.
--
-- `parse_network_byte_order` shifts each byte at the width of `int`, though its result is
-- 64 bits wide. `concat` takes a wider type for each byte, so it has no such limit.
import Aether.Lib.LengthPrefixed
import Aether.Util.Bytes

open lib.big_endian lib.tls lib.length_prefixed

namespace util.bytes

/-! ## Integer types -/

/-- The bits of `minimum_int<N>`. -/
def minimum_int (N : Nat) : Nat :=
  if N ≤ 1 then 8 else if N ≤ 2 then 16 else if N ≤ 4 then 32 else 64

def next_int_based_on_size (N : Nat) : Nat := minimum_int (N + 1)

/-- The bits of an operand after the integral promotion. -/
def promoted (bits : Nat) : Nat := max 32 bits

/-! ## The functions -/

/-- `left` of `concat<N>`: the first two arguments in one. -/
def concat_left (N b1 b2 : Nat) : Nat :=
  let next := next_int_based_on_size N
  (b1 % 2 ^ next) <<< 8 % 2 ^ promoted next ||| b2 % 2 ^ next

def concat_from : Nat → Nat → List UInt8 → Nat
  | _, b1, [] => b1
  | N, b1, b2 :: bs => concat_from (N + 1) (concat_left N b1 b2.toNat) bs

/-- `concat`, of 1 to 8 bytes. -/
def concat (b1 : UInt8) (bs : List UInt8) : Nat := concat_from 1 b1.toNat bs

def concat_shifts : Nat → List UInt8 → List Shift
  | _, [] => []
  | N, _ :: bs => ⟨8, promoted (next_int_based_on_size N)⟩ :: concat_shifts (N + 1) bs

/-- The shifts of `insert<N>`, of a byte string of a width. -/
def insert_shifts (width : Nat) : Nat → List Shift
  | 0 => []
  | i + 1 => ⟨8 * i, width⟩ :: insert_shifts width i

/-- `to_wire_format<N>` of values that are converted to strings. -/
def to_wire_format_values {α : Type} (lexical_cast : α → List UInt8) (N : Nat) (range : List α) :
    List UInt8 :=
  range.foldl (fun out val =>
    let str := lexical_cast val
    out ++ insert N str.length ++ str) []

/-- `to_wire_format<N>` of strings. -/
def to_wire_format (N : Nat) (range : List (List UInt8)) : List UInt8 :=
  to_wire_format_values id N range

/-! ## Reading back what was written -/

/-- What is asked of the four helpers for N bytes of a value of a type of some bits. -/
structure ReadsBack (N bits v : Nat) : Prop where
  inserted : ∀ s ∈ insert_shifts (promoted bits) N, s.Defined
  parsed : parse_network_byte_order N (insert N v) = v
  parse_defined : ∀ s ∈ parse_shifts N (insert N v), s.Defined
  -- No shifted byte has the sign bit of the `int`.
  not_extended : ∀ p ∈ (insert N v).zip (parse_shifts N (insert N v)),
    (intShl p.1 p.2.count).toNat < 2 ^ 31
  concatenated : ∃ b1 bs, insert N v = b1 :: bs ∧ concat b1 bs = v ∧
    ∀ s ∈ concat_shifts 1 bs, s.Defined
  extracted : ∀ k, 1 ≤ k → k ≤ N → (insert N v)[N - k]? = some (extract_byte k v) ∧
    (extract_shift k (promoted bits)).Defined

/-- The entries of a list are what its wire format holds, and the 64 bits of each size are
shifted by less than that. -/
def EntriesBack (N : Nat) (strings : List (List UInt8)) : Prop :=
  readEntries N (to_wire_format N strings) = some strings ∧
    ∀ s ∈ insert_shifts (promoted 64) N, s.Defined

/-! ## The insertion -/

section

variable {N bits v width : Nat}

theorem insert_shifts_defined (h : 8 * N ≤ width) : ∀ s ∈ insert_shifts width N, s.Defined := by
  induction N with
  | zero =>
    intro s hs
    cases hs
  | succ i ih =>
    intro s hs
    rcases List.mem_cons.mp hs with rfl | hs
    · show 8 * i < width
      omega
    · exact ih (by omega) s hs

/-- The byte at a place from the end. -/
theorem insert_getElem (v : Nat) {k : Nat} (hk : 1 ≤ k) (hkN : k ≤ N) :
    (insert N v)[N - k]? = some (extract_byte k v) := by
  induction N with
  | zero => omega
  | succ i ih =>
    rcases Nat.eq_or_lt_of_le hkN with rfl | hlt
    · rw [Nat.sub_self, insert, List.getElem?_cons_zero, extract_byte, Nat.add_sub_cancel,
        Nat.mul_comm]
    · have hplace : i + 1 - k = (i - k) + 1 := by omega
      rw [hplace, insert, List.getElem?_cons_succ]
      exact ih (by omega)

theorem le_promoted (bits : Nat) : bits ≤ promoted bits := Nat.le_max_right _ _

theorem extract_shift_defined {k : Nat} (hk : 1 ≤ k) (hkN : k ≤ N) (hbits : 8 * N ≤ bits) :
    (extract_shift k (promoted bits)).Defined := by
  have hle := le_promoted bits
  show (k - 1) * 8 < promoted bits
  omega

end

/-! ## The concatenation -/

/-- The wider type has room for one byte more. -/
theorem next_int_room {N : Nat} (h : N ≤ 7) : 8 * (N + 1) ≤ next_int_based_on_size N := by
  interval_cases N <;> decide

theorem two_pow_eq (N : Nat) : 2 ^ (8 * N) = 256 ^ N := Nat.pow_mul 2 8 N

theorem concat_left_eq {N left : Nat} (hN : N ≤ 7) (hleft : left < 256 ^ N) (b : UInt8) :
    concat_left N left b.toNat = left * 256 + b.toNat := by
  have hroom := next_int_room hN
  have hpromoted := le_promoted (next_int_based_on_size N)
  have hb : b.toNat < 2 ^ 8 := b.toNat_lt
  have hleft' : left * 2 ^ 8 < 2 ^ (8 * (N + 1)) := by
    calc left * 2 ^ 8 < 256 ^ N * 2 ^ 8 := Nat.mul_lt_mul_of_pos_right hleft (by decide)
      _ = 256 ^ (N + 1) := rfl
      _ = 2 ^ (8 * (N + 1)) := (two_pow_eq (N + 1)).symm
  have hnext : 2 ^ (8 * (N + 1)) ≤ 2 ^ next_int_based_on_size N :=
    Nat.pow_le_pow_right (by decide) hroom
  have hwide : 2 ^ next_int_based_on_size N ≤ 2 ^ promoted (next_int_based_on_size N) :=
    Nat.pow_le_pow_right (by decide) hpromoted
  have hlow : 2 ^ 8 ≤ 2 ^ (8 * (N + 1)) := Nat.pow_le_pow_right (by decide) (by omega)
  simp only [concat_left]
  rw [Nat.mod_eq_of_lt (by omega : left < 2 ^ next_int_based_on_size N),
    Nat.mod_eq_of_lt (by omega : b.toNat < 2 ^ next_int_based_on_size N), Nat.shiftLeft_eq,
    Nat.mod_eq_of_lt (by omega), Nat.mul_comm]
  exact (Nat.two_pow_add_eq_or_of_lt hb left).symm

theorem concat_from_eq {N left : Nat} {bs : List UInt8} (hN : N + bs.length ≤ 8)
    (hleft : left < 256 ^ N) :
    concat_from N left bs = left * 256 ^ bs.length + ofBigEndian bs := by
  induction bs generalizing N left with
  | nil => simp [concat_from]
  | cons b bs ih =>
    rw [List.length_cons] at hN
    have hb : b.toNat < 256 := b.toNat_lt
    have hnext : left * 256 + b.toNat < 256 ^ (N + 1) := by
      rw [Nat.pow_succ]
      omega
    rw [concat_from, concat_left_eq (by omega) hleft, ih (by omega) hnext, ofBigEndian_cons,
      List.length_cons]
    ring

/-- Up to eight bytes are concatenated to the number that they spell. -/
theorem concat_eq {b1 : UInt8} {bs : List UInt8} (h : bs.length ≤ 7) :
    concat b1 bs = ofBigEndian (b1 :: bs) := by
  have hb : b1.toNat < 256 ^ 1 := b1.toNat_lt
  rw [concat, concat_from_eq (by omega) hb, ofBigEndian_cons]

theorem concat_shifts_defined (N : Nat) (bs : List UInt8) :
    ∀ s ∈ concat_shifts N bs, s.Defined := by
  induction bs generalizing N with
  | nil =>
    intro s hs
    cases hs
  | cons b bs ih =>
    intro s hs
    rcases List.mem_cons.mp hs with rfl | hs
    · show 8 < max 32 (next_int_based_on_size N)
      omega
    · exact ih (N + 1) s hs

/-! ## The parse -/

/-- No byte at its place is more than the number. -/
theorem intShl_le {k : Nat} {range : List UInt8} (hk : k ≤ 4) (hlen : range.length = k) :
    ∀ p ∈ range.zip (parse_shifts k range), (intShl p.1 p.2.count).toNat ≤ ofBigEndian range := by
  induction k generalizing range with
  | zero =>
    obtain rfl := List.length_eq_zero_iff.mp hlen
    intro p hp
    cases hp
  | succ k ih =>
    match range, hlen with
    | b :: range, hlen =>
      have hr : range.length = k := by simpa using hlen
      rw [ofBigEndian_cons, hr]
      intro p hp
      rcases List.mem_cons.mp hp with rfl | hp
      · show (intShl b (8 * k)).toNat ≤ _
        rw [toNat_intShl (by omega)]
        omega
      · have hle := ih (by omega) hr p hp
        omega

/-- Four bytes or less, with the top bit of an `int` clear, are read as they were written. -/
theorem parse_insert {N v : Nat} (hN : N ≤ 4) (hv : v < 256 ^ N) (hint : v < 2 ^ 31) :
    parse_network_byte_order N (insert N v) = v := by
  have hlength : (insert N v).length = N := by rw [insert_eq_bigEndian, length_bigEndian]
  have hvalue : ofBigEndian (insert N v) = v := by
    rw [insert_eq_bigEndian, ofBigEndian_bigEndian hv]
  have hword := toNat_parseWord hN hlength
  rw [parse_network_byte_order_eq, signExtend_small (by omega), hword, hvalue]

/-! ## The wire format -/

theorem to_wire_format_eq (N : Nat) (range : List (List UInt8)) :
    to_wire_format N range = range.flatMap (vector N) := by
  have hfold : ∀ out : List UInt8,
      range.foldl (fun out val => out ++ insert N val.length ++ val) out =
        out ++ range.flatMap (vector N) := by
    induction range with
    | nil => simp
    | cons val range ih =>
      intro out
      rw [List.foldl_cons, ih, List.flatMap_cons, vector, insert_eq_bigEndian]
      simp only [List.append_assoc]
  exact hfold []

/-! ## The results -/

section

variable {N bits v : Nat}

theorem readsBack_of (hN : 1 ≤ N ∧ N ≤ 8) (hbits : 8 * N ≤ bits) (hv : v < 2 ^ (8 * N))
    (h : N ≤ 4 ∧ v < 2 ^ 31) : ReadsBack N bits v := by
  rw [two_pow_eq] at hv
  have hlength : (insert N v).length = N := by rw [insert_eq_bigEndian, length_bigEndian]
  have hvalue : ofBigEndian (insert N v) = v := by
    rw [insert_eq_bigEndian, ofBigEndian_bigEndian hv]
  obtain ⟨b1, bs, hcons⟩ : ∃ b1 bs, insert N v = b1 :: bs :=
    List.exists_cons_of_ne_nil (List.ne_nil_of_length_pos (by omega))
  exact {
    inserted := insert_shifts_defined (hbits.trans (le_promoted bits))
    parsed := parse_insert h.1 hv h.2
    parse_defined := by
      rw [hcons]
      exact (parse_shifts_defined_iff hN.1).mpr h.1
    not_extended := by
      intro p hp
      have hle := intShl_le h.1 hlength p hp
      omega
    concatenated := by
      refine ⟨b1, bs, hcons, ?_, concat_shifts_defined 1 bs⟩
      have hlen := hlength
      rw [hcons, List.length_cons] at hlen
      rw [concat_eq (by omega), ← hcons, hvalue]
    extracted := fun k hk hkN =>
      ⟨insert_getElem v hk hkN, extract_shift_defined hk hkN hbits⟩ }

/-- A value of one to eight bytes is read back, and each shift is defined and extends no sign,
exactly when it has up to three bytes, or four with the top bit clear. The entries of a list
are always read back. -/
theorem reads_back_iff (hN : 1 ≤ N ∧ N ≤ 8) (hbits : 8 * N ≤ bits) (hv : v < 2 ^ (8 * N))
    {strings : List (List UInt8)} (hstrings : ∀ s ∈ strings, s.length < 2 ^ (8 * N)) :
    ReadsBack N bits v ∧ EntriesBack N strings ↔ N ≤ 3 ∨ N = 4 ∧ v < 2 ^ 31 := by
  have hentries : EntriesBack N strings := by
    refine ⟨?_, insert_shifts_defined (by show 8 * N ≤ 64; omega)⟩
    rw [to_wire_format_eq]
    rw [two_pow_eq] at hstrings
    exact readEntries_flatMap hN.1 hstrings
  constructor
  · rintro ⟨hback, -⟩
    have hdefined := hback.parse_defined
    obtain ⟨b1, bs, hcons, -, -⟩ := hback.concatenated
    rw [hcons] at hdefined
    have hfour := (parse_shifts_defined_iff hN.1).mp hdefined
    by_cases hN3 : N ≤ 3
    · exact Or.inl hN3
    · have hgap := parse_network_byte_order_gap N (insert N v)
      obtain rfl : N = 4 := by omega
      rw [hback.parsed] at hgap
      refine Or.inr ⟨rfl, ?_⟩
      omega
  · intro h
    refine ⟨readsBack_of hN hbits hv ?_, hentries⟩
    rcases h with h | ⟨rfl, h⟩
    · have hle : 2 ^ (8 * N) ≤ 2 ^ 24 := Nat.pow_le_pow_right (by decide) (by omega)
      omega
    · exact ⟨Nat.le_refl 4, h⟩

theorem reads_back_two_bytes :
    ((1 ≤ 2 ∧ 2 ≤ 8) ∧ 8 * 2 ≤ 16 ∧ 0xFFFE < 2 ^ (8 * 2) ∧
      ∀ s ∈ [[104, 50], ([] : List UInt8)], s.length < 2 ^ (8 * 2)) ∧
    (ReadsBack 2 16 0xFFFE ∧ EntriesBack 2 [[104, 50], []] ↔ 2 ≤ 3 ∨ 2 = 4 ∧ 0xFFFE < 2 ^ 31) :=
  ⟨⟨by decide, by decide, by decide, by decide⟩,
    reads_back_iff (by decide) (by decide) (by decide) (by decide)⟩

/-- The four bytes of 0x80000000 come back with the sign extended. -/
theorem four_bytes_extend :
    ¬ ∀ N bits v, 1 ≤ N ∧ N ≤ 8 → 8 * N ≤ bits → v < 2 ^ (8 * N) →
      ∀ strings : List (List UInt8), (∀ s ∈ strings, s.length < 2 ^ (8 * N)) →
        ReadsBack N bits v ∧ EntriesBack N strings := by
  intro h
  have hparsed := (h 4 32 0x80000000 (by decide) (by decide) (by decide) []
    (List.forall_mem_nil _)).1.parsed
  revert hparsed
  decide

end

end util.bytes
