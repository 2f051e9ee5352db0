-- The reader of the record of a Client Hello, `tls/handshake/handshake_reader.cpp`,
-- and the reads that `tls_service` calls it on.
--
-- The input buffer is not consumed, and the reader is given all of it. But the
-- size that it is told is that of the last read only.
import Aether.Lib.BigEndian
import Aether.Util.Streambuf

open util.buffer lib.filled

namespace proxy.tls.handshake

def record_header_length : Nat := 5

structure HandshakeReader where
  segment_ : ConstBufferSegment
  length_ : Nat
  known_length_ : Bool
  deriving DecidableEq, Repr

/-- What a read leaves, and how many bytes it asks for: none if it is finished. -/
structure RecordRead where
  reader : HandshakeReader
  remaining : Nat
  deriving DecidableEq, Repr

/-- The check that the record is one of TLS. The bytes are signed characters. -/
def is_tls_record (b0 b1 b2 : UInt8) : Bool :=
  b0 == 0x16 && b1 == 0x03 && decide (b2.toNat < 128) && decide (b2.toNat ≤ 0x03)

/-- `concat` of two bytes, as 16 bits. -/
def concat (b1 b2 : UInt8) : Nat := ((b1.toNat <<< 8) ||| b2.toNat) % 2 ^ 16

theorem concat_eq (b1 b2 : UInt8) : concat b1 b2 = b1.toNat * 256 + b2.toNat := by
  have h1 := b1.toNat_lt
  have h2 := b2.toNat_lt
  unfold concat
  rw [← Nat.shiftLeft_add_eq_or_of_lt (by omega), Nat.shiftLeft_eq]
  omega

namespace HandshakeReader

def new : HandshakeReader := ⟨.new, 0, false⟩

def get_bytes (r : HandshakeReader) : List UInt8 := r.segment_.committed_data

/-- The end of `read`, once the length is known. -/
def read_body (r : HandshakeReader) (buf : List UInt8) (bytes_available : Nat) :
    Except Error RecordRead := do
  let segment ← r.segment_.read_up_to_bytes buf r.length_ bytes_available
  let remaining :=
    if segment.is_complete_ then 0 else size_sub r.length_ segment.bytes_not_committed
  return ⟨{ r with segment_ := segment }, remaining⟩

def read (r : HandshakeReader) (buf : List UInt8) (bytes_available : Nat) :
    Except Error RecordRead :=
  if r.known_length_ then r.read_body buf bytes_available
  else do
    let segment ← r.segment_.read_up_to_bytes buf record_header_length bytes_available
    if segment.is_complete_ then
      let segment := segment.mark_as_incomplete
      match segment.committed_data with
      | b0 :: b1 :: b2 :: b3 :: b4 :: _ =>
        if is_tls_record b0 b1 b2 then
          let r : HandshakeReader := ⟨segment, concat b3 b4, true⟩
          r.read_body buf bytes_available
        else .error (default_error .invalid_client_hello)
      | _ => .error .undefined
    else
      return ⟨{ r with segment_ := segment },
        size_sub record_header_length segment.bytes_not_committed⟩

end HandshakeReader

/-- A record as the reader expects it. -/
structure Record where
  minor : UInt8
  high : UInt8
  low : UInt8
  body : List UInt8
  version : minor.toNat ≤ 3
  stated : body.length = high.toNat * 256 + low.toNat
  nonempty : body ≠ []

def Record.bytes (r : Record) : List UInt8 := 0x16 :: 0x03 :: r.minor :: r.high :: r.low :: r.body

/-- The calls of `on_read_client_hello` for successive reads, with `input` in the buffer before
them: the reader asks for more until the last read, and then it has all that came. -/
def Collects : HandshakeReader → List UInt8 → List (List UInt8) → Prop
  | _, _, [] => False
  | r, input, [bytes] => ∃ done, r.read (input ++ bytes) bytes.length = .ok done ∧
      done.remaining = 0 ∧ done.reader.get_bytes = input ++ bytes
  | r, input, bytes :: next :: reads => ∃ more, r.read (input ++ bytes) bytes.length = .ok more ∧
      more.remaining ≠ 0 ∧ Collects more.reader (input ++ bytes) (next :: reads)

/-- How many bytes the reads have over five each. -/
def surplus (reads : List (List UInt8)) : Nat := (reads.map (fun bytes => bytes.length - 5)).sum

/-- Reads of five bytes or more and a last read of fewer. The last one copies the end of the body
only up to where the zeros are that the memory starts with. -/
def Lands (r : Record) (counted : Nat) (reads : List (List UInt8)) : Prop :=
  ∃ steps last, reads = steps ++ [last] ∧ (∀ s ∈ steps, 5 ≤ s.length) ∧ last.length < 5 ∧
    2 * (counted + surplus steps) ≤ r.body.length ∧
    ∀ x ∈ r.bytes.drop (r.bytes.length - min last.length (counted + surplus steps)), x = 0

/-! ## Records -/

namespace Record

variable (r : Record)

theorem length_bytes : r.bytes.length = 5 + r.body.length := by
  simp only [bytes, List.length_cons]
  omega

theorem body_pos : 0 < r.body.length := List.length_pos_iff.mpr r.nonempty

theorem body_small : r.body.length < 2 ^ 16 := by
  have hstated := r.stated
  have hhigh := r.high.toNat_lt
  have hlow := r.low.toNat_lt
  omega

theorem concat_length : concat r.high r.low = r.body.length := by
  rw [concat_eq, r.stated]

theorem is_tls : is_tls_record 0x16 0x03 r.minor = true := by
  have hversion := r.version
  unfold is_tls_record
  simp only [beq_self_eq_true, Bool.true_and, Bool.and_eq_true, decide_eq_true_eq]
  omega

end Record

/-! ## Reads that land -/

section lands

variable {r : Record} {counted : Nat} {bytes next : List UInt8} {reads : List (List UInt8)}

theorem lands_singleton : Lands r counted [bytes] ↔ bytes.length < 5 ∧
    2 * counted ≤ r.body.length ∧
    ∀ x ∈ r.bytes.drop (r.bytes.length - min bytes.length counted), x = 0 := by
  constructor
  · rintro ⟨steps, last, heq, hsteps, hlast, htwice, hzero⟩
    rcases steps with _ | ⟨s, steps⟩
    · obtain rfl : bytes = last := by simpa using heq
      exact ⟨hlast, by simpa [surplus] using htwice, by simpa [surplus] using hzero⟩
    · simp at heq
  · rintro ⟨hlast, htwice, hzero⟩
    exact ⟨[], bytes, rfl, by simp, hlast, by simpa [surplus] using htwice,
      by simpa [surplus] using hzero⟩

theorem lands_cons : Lands r counted (bytes :: next :: reads) ↔
    5 ≤ bytes.length ∧ Lands r (counted + (bytes.length - 5)) (next :: reads) := by
  have hsum : ∀ steps, counted + surplus (bytes :: steps) =
      counted + (bytes.length - 5) + surplus steps := by
    intro steps
    simp only [surplus, List.map_cons, List.sum_cons]
    omega
  constructor
  · rintro ⟨steps, last, heq, hsteps, hlast, htwice, hzero⟩
    rcases steps with _ | ⟨s, steps⟩
    · simp at heq
    · obtain ⟨rfl, htail⟩ : bytes = s ∧ next :: reads = steps ++ [last] := by simpa using heq
      rw [hsum] at htwice hzero
      exact ⟨hsteps _ List.mem_cons_self, steps, last, htail,
        fun s hs => hsteps s (List.mem_cons_of_mem _ hs), hlast, htwice, hzero⟩
  · rintro ⟨hfive, steps, last, heq, hsteps, hlast, htwice, hzero⟩
    rw [← hsum] at htwice hzero
    refine ⟨bytes :: steps, last, by rw [heq]; rfl, ?_, hlast, htwice, hzero⟩
    intro s hs
    rcases List.mem_cons.mp hs with rfl | hs
    · exact hfive
    · exact hsteps s hs

end lands

end proxy.tls.handshake
