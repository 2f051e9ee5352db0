-- The WebSocket wire of RFC 6455, as any reader of it sees the bytes: the
-- format of a frame, the reading of frames, and the messages that they make.
-- Nothing here is about the proxy.
import Aether.Lib.BigEndian

open lib.big_endian

namespace lib.rfc6455

/-! ## Frames -/

/-- The four bytes of a masking key. -/
structure MaskKey where
  k0 : UInt8
  k1 : UInt8
  k2 : UInt8
  k3 : UInt8
  deriving DecidableEq, Repr

namespace MaskKey

def get (k : MaskKey) (i : Nat) : UInt8 :=
  match i % 4 with
  | 0 => k.k0
  | 1 => k.k1
  | 2 => k.k2
  | _ => k.k3

def toList (k : MaskKey) : List UInt8 := [k.k0, k.k1, k.k2, k.k3]

end MaskKey

/-- Section 5.3: byte `i` of the payload is xored with byte `i mod 4` of the key. -/
def mask (k : MaskKey) : Nat → List UInt8 → List UInt8
  | _, [] => []
  | i, b :: bs => (b ^^^ k.get i) :: mask k (i + 1) bs

@[simp] theorem length_mask (k : MaskKey) (i : Nat) (bs : List UInt8) :
    (mask k i bs).length = bs.length := by
  induction bs generalizing i with
  | nil => rfl
  | cons b bs ih => simp [mask, ih]

theorem getElem_mask (k : MaskKey) (i j : Nat) (bs : List UInt8) :
    (mask k i bs)[j]? = bs[j]?.map (fun b => b ^^^ k.get (i + j)) := by
  induction bs generalizing i j with
  | nil => rfl
  | cons b bs ih =>
    cases j with
    | zero => rfl
    | succ j =>
      rw [mask, List.getElem?_cons_succ, List.getElem?_cons_succ, ih, Nat.add_right_comm,
        Nat.add_assoc]

/-- A payload masked twice is the payload. -/
@[simp] theorem mask_mask (k : MaskKey) (i : Nat) (bs : List UInt8) :
    mask k i (mask k i bs) = bs := by
  induction bs generalizing i with
  | nil => rfl
  | cons b bs ih => rw [mask, mask, ih, UInt8.xor_assoc, UInt8.xor_self, UInt8.xor_zero]

instance neZero_opcode : NeZero 16 := ⟨by decide⟩

structure Frame where
  fin : Bool
  rsv1 : Bool
  rsv2 : Bool
  rsv3 : Bool
  opcode : Fin 16
  maskKey : Option MaskKey
  payload : List UInt8
  deriving DecidableEq, Repr

/-- Opcodes 8 to 15 are those of control frames. -/
def Frame.isControl (f : Frame) : Bool := decide (8 ≤ f.opcode.val)

def firstByte (f : Frame) : UInt8 :=
  UInt8.ofNat (f.fin.toNat * 128 + f.rsv1.toNat * 64 + f.rsv2.toNat * 32 + f.rsv3.toNat * 16 +
    f.opcode.val)

/-- The 7-bit length of the second byte, and the bytes of the longer length after it. -/
def lengthField (n : Nat) : Nat × List UInt8 :=
  if n ≤ 125 then (n, [])
  else if n < 65536 then (126, bigEndian 2 n)
  else (127, bigEndian 8 n)

def header (f : Frame) : List UInt8 :=
  let len := lengthField f.payload.length
  firstByte f :: UInt8.ofNat (f.maskKey.isSome.toNat * 128 + len.1) :: len.2 ++
    (f.maskKey.map MaskKey.toList).getD []

/-- The payload as it stands on the wire. -/
def wirePayload (f : Frame) : List UInt8 :=
  match f.maskKey with
  | none => f.payload
  | some k => mask k 0 f.payload

/-- Section 5.2, with the fewest bytes of length. -/
def encode (f : Frame) : List UInt8 := header f ++ wirePayload f

@[simp] theorem length_wirePayload (f : Frame) : (wirePayload f).length = f.payload.length := by
  unfold wirePayload; split <;> simp

/-! ## The reading of a frame -/

/-- The first `n` bytes and the rest, when there are that many. -/
def take? (n : Nat) (bs : List UInt8) : Option (List UInt8 × List UInt8) :=
  if n ≤ bs.length then some (bs.take n, bs.drop n) else none

theorem take?_append {front rest : List UInt8} {n : Nat} (h : front.length = n) :
    take? n (front ++ rest) = some (front, rest) := by
  subst h; simp [take?]

/-- The payload length. A length with more bytes than it needs, or with its top bit set, is
refused. -/
def readLength (len7 : Nat) (bs : List UInt8) : Option (Nat × List UInt8) :=
  if len7 ≤ 125 then some (len7, bs)
  else if len7 = 126 then do
    let (field, rest) ← take? 2 bs
    if 125 < ofBigEndian field then some (ofBigEndian field, rest) else none
  else do
    let (field, rest) ← take? 8 bs
    if 65535 < ofBigEndian field ∧ ofBigEndian field < 2 ^ 63 then
      some (ofBigEndian field, rest)
    else none

def readKey (masked : Bool) (bs : List UInt8) : Option (Option MaskKey × List UInt8) :=
  if masked then
    match bs with
    | k0 :: k1 :: k2 :: k3 :: rest => some (some ⟨k0, k1, k2, k3⟩, rest)
    | _ => none
  else some (none, bs)

def unmask : Option MaskKey → List UInt8 → List UInt8
  | none, bs => bs
  | some k, bs => mask k 0 bs

/-- One frame off the front of the bytes, and the bytes after it. -/
def decode : List UInt8 → Option (Frame × List UInt8)
  | b0 :: b1 :: bs => do
    let (len, bs) ← readLength (b1.toNat % 128) bs
    let (key, bs) ← readKey (decide (128 ≤ b1.toNat)) bs
    let (data, bs) ← take? len bs
    some ({ fin := decide (128 ≤ b0.toNat)
            rsv1 := decide (b0.toNat / 64 % 2 = 1)
            rsv2 := decide (b0.toNat / 32 % 2 = 1)
            rsv3 := decide (b0.toNat / 16 % 2 = 1)
            opcode := ⟨b0.toNat % 16, Nat.mod_lt _ (by decide)⟩
            maskKey := key
            payload := unmask key data }, bs)
  | _ => none

theorem toNat_firstByte (f : Frame) :
    (firstByte f).toNat = f.fin.toNat * 128 + f.rsv1.toNat * 64 + f.rsv2.toNat * 32 +
      f.rsv3.toNat * 16 + f.opcode.val := by
  have h1 := f.fin.toNat_le
  have h2 := f.rsv1.toNat_le
  have h3 := f.rsv2.toNat_le
  have h4 := f.rsv3.toNat_le
  have h5 := f.opcode.isLt
  unfold firstByte
  rw [UInt8.toNat_ofNat', Nat.mod_eq_of_lt (by omega)]

theorem lengthField_le (n : Nat) : (lengthField n).1 ≤ 127 := by
  unfold lengthField; split_ifs <;> simp; omega

theorem readLength_lengthField {n : Nat} (h : n < 2 ^ 63) (rest : List UInt8) :
    readLength (lengthField n).1 ((lengthField n).2 ++ rest) = some (n, rest) := by
  unfold lengthField
  split_ifs with h1 h2
  · simp [readLength, h1]
  · have hv : ofBigEndian (bigEndian 2 n) = n := ofBigEndian_bigEndian (by omega)
    simp only [readLength, Nat.reduceLeDiff, if_false, if_true,
      take?_append (length_bigEndian 2 n), Option.bind_eq_bind, Option.bind_some, hv]
    simp; omega
  · have hv : ofBigEndian (bigEndian 8 n) = n := ofBigEndian_bigEndian (by omega)
    simp only [readLength, Nat.reduceLeDiff, Nat.reduceEqDiff, if_false,
      take?_append (length_bigEndian 8 n), Option.bind_eq_bind, Option.bind_some, hv]
    simp; omega

theorem readKey_toList (key : Option MaskKey) (rest : List UInt8) :
    readKey key.isSome ((key.map MaskKey.toList).getD [] ++ rest) = some (key, rest) := by
  cases key <;> simp [readKey, MaskKey.toList]

theorem unmask_wirePayload (f : Frame) : unmask f.maskKey (wirePayload f) = f.payload := by
  unfold wirePayload unmask
  cases f.maskKey <;> simp

theorem decide_bit (b : Bool) (n : Nat) (h : n = b.toNat) : decide (n = 1) = b := by
  subst h; cases b <;> rfl

/-- A frame read off the front of its own bytes is the frame, and nothing after it is touched. -/
theorem decode_encode_append {f : Frame} (h : f.payload.length < 2 ^ 63) (rest : List UInt8) :
    decode (encode f ++ rest) = some (f, rest) := by
  have hb1 : (UInt8.ofNat (f.maskKey.isSome.toNat * 128 + (lengthField f.payload.length).1)).toNat =
      f.maskKey.isSome.toNat * 128 + (lengthField f.payload.length).1 := by
    have := lengthField_le f.payload.length
    have := f.maskKey.isSome.toNat_le
    rw [UInt8.toNat_ofNat', Nat.mod_eq_of_lt (by omega)]
  have hle := lengthField_le f.payload.length
  have hlen7 : (f.maskKey.isSome.toNat * 128 + (lengthField f.payload.length).1) % 128 =
      (lengthField f.payload.length).1 := by omega
  have hmask : decide (128 ≤ f.maskKey.isSome.toNat * 128 + (lengthField f.payload.length).1) =
      f.maskKey.isSome := by
    cases f.maskKey.isSome
    · simp; omega
    · simp
  unfold encode header
  simp only [List.cons_append, decode, List.append_assoc, hb1, hlen7, hmask]
  simp only [readLength_lengthField h, Option.bind_eq_bind, Option.bind_some, readKey_toList,
    take?_append (length_wirePayload f), unmask_wirePayload, toNat_firstByte]
  have h1 := f.fin.toNat_le
  have h2 := f.rsv1.toNat_le
  have h3 := f.rsv2.toNat_le
  have h4 := f.rsv3.toNat_le
  have h5 := f.opcode.isLt
  have hfin : decide (128 ≤ f.fin.toNat * 128 + f.rsv1.toNat * 64 + f.rsv2.toNat * 32 +
      f.rsv3.toNat * 16 + f.opcode.val) = f.fin := by
    cases hf : f.fin
    · simp; omega
    · simp; omega
  rw [hfin, decide_bit f.rsv1 _ (by omega), decide_bit f.rsv2 _ (by omega),
    decide_bit f.rsv3 _ (by omega)]
  have hop : (⟨(f.fin.toNat * 128 + f.rsv1.toNat * 64 + f.rsv2.toNat * 32 +
      f.rsv3.toNat * 16 + f.opcode.val) % 16, Nat.mod_lt _ (by decide)⟩ : Fin 16) = f.opcode :=
    Fin.ext (by simp only; omega)
  rw [hop]

theorem take?_length_le {n : Nat} {bs front rest : List UInt8}
    (h : take? n bs = some (front, rest)) : rest.length ≤ bs.length := by
  unfold take? at h
  split at h
  · cases h; simp
  · cases h

theorem readLength_length_le {len7 len : Nat} {bs rest : List UInt8}
    (h : readLength len7 bs = some (len, rest)) : rest.length ≤ bs.length := by
  unfold readLength at h
  split_ifs at h
  · cases h; exact Nat.le_refl _
  all_goals
    simp only [Option.bind_eq_bind, Option.bind_eq_some_iff] at h
    obtain ⟨⟨field, r⟩, ht, he⟩ := h
    split at he
    · cases he; exact take?_length_le ht
    · cases he

theorem readKey_length_le {masked : Bool} {key : Option MaskKey} {bs rest : List UInt8}
    (h : readKey masked bs = some (key, rest)) : rest.length ≤ bs.length := by
  cases masked with
  | false => simp only [readKey, Bool.false_eq_true, if_false] at h; cases h; exact Nat.le_refl _
  | true =>
    match bs, h with
    | k0 :: k1 :: k2 :: k3 :: r, h =>
      simp only [readKey, if_true, Option.some.injEq, Prod.mk.injEq] at h
      obtain ⟨-, rfl⟩ := h
      simp only [List.length_cons]
      omega

theorem decode_length_lt {bs rest : List UInt8} {f : Frame} (h : decode bs = some (f, rest)) :
    rest.length < bs.length := by
  match bs, h with
  | b0 :: b1 :: bs, h =>
    simp only [decode, Option.bind_eq_bind, Option.bind_eq_some_iff] at h
    obtain ⟨⟨len, bs1⟩, hl, ⟨key, bs2⟩, hk, ⟨data, bs3⟩, hd, hf⟩ := h
    have h1 : bs1.length ≤ bs.length := readLength_length_le hl
    have h2 : bs2.length ≤ bs1.length := readKey_length_le hk
    have h3 : bs3.length ≤ bs2.length := take?_length_le hd
    simp only [Option.some.injEq, Prod.mk.injEq] at hf
    obtain ⟨-, rfl⟩ := hf
    simp only [List.length_cons]
    omega

/-- All the frames of a stream of bytes, when it holds whole frames and nothing else. -/
def decodeAll (bs : List UInt8) : Option (List Frame) :=
  if bs = [] then some []
  else
    match _h : decode bs with
    | none => none
    | some (f, rest) => (decodeAll rest).map (f :: ·)
termination_by bs.length
decreasing_by exact decode_length_lt _h

@[simp] theorem decodeAll_nil : decodeAll [] = some [] := by
  rw [decodeAll]; simp

theorem encode_ne_nil (f : Frame) : encode f ≠ [] := by
  simp [encode, header]

theorem decodeAll_encode_append {f : Frame} (h : f.payload.length < 2 ^ 63) (rest : List UInt8) :
    decodeAll (encode f ++ rest) = (decodeAll rest).map (f :: ·) := by
  rw [decodeAll]
  have hne : encode f ++ rest ≠ [] := by simp [encode_ne_nil]
  simp only [hne, if_false]
  split
  · rename_i he
    rw [decode_encode_append h] at he
    cases he
  · rename_i g r he
    rw [decode_encode_append h] at he
    cases he
    rfl

/-- The bytes of a list of frames. -/
def encodeAll (fs : List Frame) : List UInt8 := fs.flatMap encode

/-- The frames read from the bytes of frames are those frames. -/
theorem decodeAll_encodeAll {fs : List Frame} (h : ∀ f ∈ fs, f.payload.length < 2 ^ 63) :
    decodeAll (encodeAll fs) = some fs := by
  induction fs with
  | nil => simp [encodeAll]
  | cons f fs ih =>
    have hf := h f (by simp)
    have hfs : ∀ g ∈ fs, g.payload.length < 2 ^ 63 := fun g hg => h g (by simp [hg])
    unfold encodeAll at ih ⊢
    rw [List.flatMap_cons, decodeAll_encode_append hf, ih hfs]
    rfl

/-! ## Messages -/

inductive DataType where
  | text
  | binary
  deriving DecidableEq, Repr

def DataType.opcode : DataType → Fin 16
  | .text => 1
  | .binary => 2

structure Message where
  type : DataType
  content : List UInt8
  deriving DecidableEq, Repr

/-- What a receiver of section 5.4 has: the message in progress, and the whole messages so far. -/
structure Receiver where
  progress : Option Message
  whole : List Message
  deriving DecidableEq, Repr

namespace Receiver

def start : Receiver := ⟨none, []⟩

/-- The next piece of the message in progress. -/
def extend (r : Receiver) (m : Message) (fin : Bool) : Receiver :=
  if fin then ⟨none, r.whole ++ [m]⟩ else ⟨some m, r.whole⟩

/-- One frame. A control frame is no part of a message; a fragment out of its place is refused. -/
def receive (r : Receiver) (f : Frame) : Option Receiver :=
  if f.isControl then some r
  else
    match r.progress, f.opcode.val with
    | some m, 0 => some (r.extend { m with content := m.content ++ f.payload } f.fin)
    | none, 1 => some (r.extend ⟨.text, f.payload⟩ f.fin)
    | none, 2 => some (r.extend ⟨.binary, f.payload⟩ f.fin)
    | _, _ => none

def receiveAll (r : Receiver) : List Frame → Option Receiver
  | [] => some r
  | f :: fs => (r.receive f).bind (fun r => r.receiveAll fs)

/-- What a piece of type `type` comes after, where the receiver is: nothing, or the content so far
of a message of that type. -/
def before (r : Receiver) (type : DataType) : Option (List UInt8) :=
  match r.progress with
  | none => some []
  | some m => if m.type = type then some m.content else none

/-- A piece of a message, as the next data frame brings it. -/
def piece (r : Receiver) (type : DataType) (payload : List UInt8) (fin : Bool) : Option Receiver :=
  (r.before type).map fun content => r.extend ⟨type, content ++ payload⟩ fin

/-- The opcode that the frame of a piece must have. -/
def pieceOpcode (r : Receiver) (type : DataType) : Fin 16 :=
  if r.progress.isSome then 0 else type.opcode

theorem receive_piece {r r' : Receiver} {type : DataType} {f : Frame}
    (h : r.piece type f.payload f.fin = some r') (hop : f.opcode = r.pieceOpcode type) :
    r.receive f = some r' := by
  unfold piece before at h
  unfold pieceOpcode at hop
  rcases hp : r.progress with _ | m
  · rw [hp] at h hop
    simp only [Option.map_some, List.nil_append, Option.some.injEq] at h
    cases type <;> simp [receive, Frame.isControl, hop, hp, DataType.opcode, h]
  · rw [hp] at h hop
    simp only at h
    split at h
    · rename_i ht
      simp only [Option.map_some, Option.some.injEq] at h
      simp [receive, Frame.isControl, hop, hp, ← ht] at h ⊢
      exact h
    · cases h

/-- The bytes that the receiver holds, of whole messages and of the one in progress. -/
def bytes (r : Receiver) : Nat :=
  (r.whole.map fun m => m.content.length).sum + (r.progress.map fun m => m.content.length).getD 0

theorem before_bytes {r : Receiver} {type : DataType} {content : List UInt8}
    (h : r.before type = some content) :
    (r.progress.map fun m => m.content.length).getD 0 = content.length := by
  unfold before at h
  rcases hp : r.progress with _ | m
  · rw [hp] at h; cases h; rfl
  · rw [hp] at h
    simp only at h
    split at h
    · cases h; rfl
    · cases h

theorem piece_before {r r' : Receiver} {type : DataType} {payload : List UInt8} {fin : Bool}
    (h : r.piece type payload fin = some r') :
    ∃ content, r.before type = some content ∧ r' = r.extend ⟨type, content ++ payload⟩ fin := by
  unfold piece at h
  rcases hb : r.before type with _ | content
  · rw [hb] at h; cases h
  · rw [hb] at h
    cases h
    exact ⟨content, rfl, rfl⟩

/-- A piece brings its bytes, and a message when it is the last one. -/
theorem piece_counts {r r' : Receiver} {type : DataType} {payload : List UInt8} {fin : Bool}
    (h : r.piece type payload fin = some r') :
    r'.whole.length = r.whole.length + fin.toNat ∧ r'.bytes = r.bytes + payload.length := by
  obtain ⟨content, hb, rfl⟩ := piece_before h
  have hbytes := before_bytes hb
  cases fin
  · simp [extend, bytes, hbytes, Nat.add_assoc]
  · simp [extend, bytes, hbytes, Nat.add_assoc]

theorem before_extend_false (r : Receiver) (m : Message) :
    (r.extend m false).before m.type = some m.content := by
  simp [extend, before]

theorem receiveAll_append (r : Receiver) (fs gs : List Frame) :
    r.receiveAll (fs ++ gs) = (r.receiveAll fs).bind (fun r => r.receiveAll gs) := by
  induction fs generalizing r with
  | nil => rfl
  | cons f fs ih =>
    simp only [List.cons_append, receiveAll]
    cases r.receive f with
    | none => rfl
    | some r' => exact ih r'

end Receiver

/-! ## Messages in pieces -/

/-- What a data frame brings of a message. -/
structure Piece where
  type : DataType
  payload : List UInt8
  fin : Bool
  deriving DecidableEq, Repr

namespace Receiver

/-- The pieces of messages one after another, each where the one before it left off. -/
def pieces (r : Receiver) : List Piece → Option Receiver
  | [] => some r
  | p :: ps => (r.piece p.type p.payload p.fin).bind (fun r => r.pieces ps)

theorem pieces_cons {r r' : Receiver} {p : Piece} {ps : List Piece}
    (h : r.pieces (p :: ps) = some r') :
    ∃ r1, r.piece p.type p.payload p.fin = some r1 ∧ r1.pieces ps = some r' := by
  rw [pieces, Option.bind_eq_some_iff] at h
  exact h

theorem pieces_append (r : Receiver) (ps qs : List Piece) :
    r.pieces (ps ++ qs) = (r.pieces ps).bind (fun r => r.pieces qs) := by
  induction ps generalizing r with
  | nil => rfl
  | cons p ps ih =>
    simp only [List.cons_append, pieces]
    cases r.piece p.type p.payload p.fin with
    | none => rfl
    | some r' => exact ih r'

/-- The number of last pieces, and the number of all bytes. -/
def lastPieces (ps : List Piece) : Nat := (ps.map fun p => p.fin.toNat).sum

def pieceBytes (ps : List Piece) : Nat := (ps.map fun p => p.payload.length).sum

theorem pieces_counts {r r' : Receiver} {ps : List Piece} (h : r.pieces ps = some r') :
    r'.whole.length = r.whole.length + lastPieces ps ∧ r'.bytes = r.bytes + pieceBytes ps := by
  induction ps generalizing r with
  | nil => cases h; exact ⟨rfl, rfl⟩
  | cons p ps ih =>
    obtain ⟨r1, h1, h2⟩ := pieces_cons h
    obtain ⟨hw, hb⟩ := ih h2
    obtain ⟨hw1, hb1⟩ := piece_counts h1
    simp only [lastPieces, pieceBytes, List.map_cons, List.sum_cons] at hw hb ⊢
    omega

end Receiver

/-- What a receiver makes of a stream of bytes from its start. -/
def received (bs : List UInt8) : Option Receiver :=
  (decodeAll bs).bind Receiver.start.receiveAll

theorem received_encodeAll {fs : List Frame} (h : ∀ f ∈ fs, f.payload.length < 2 ^ 63) :
    received (encodeAll fs) = Receiver.start.receiveAll fs := by
  unfold received
  rw [decodeAll_encodeAll h]
  rfl

end lib.rfc6455
