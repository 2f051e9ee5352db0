-- What `serialize` writes with no extension: the frame of the wire that
-- stands for what it was given.
import Aether.Lib.Rfc6455
import Aether.Websocket.WebsocketManager

open util.bytes lib.big_endian

namespace proxy.websocket.protocol

open extensions

variable {z : Zlib}

/-! ## The masks -/

/-- The bytes of a key as they stand on the wire. -/
def wireKey (key : UInt32) : lib.rfc6455.MaskKey :=
  ⟨extract_byte 4 key.toNat, extract_byte 3 key.toNat, extract_byte 2 key.toNat,
    extract_byte 1 key.toNat⟩

theorem toList_wireKey (key : UInt32) :
    (wireKey key).toList = util.bytes.insert 4 key.toNat := rfl

theorem xor_mask_key_eq (key : UInt32) (i : Nat) :
    xor_mask_key key.toNat i = (wireKey key).get i := by
  unfold xor_mask_key lib.rfc6455.MaskKey.get
  rw [show i &&& 3 = i % 4 from Nat.and_two_pow_sub_one_eq_mod i 2]
  rfl

theorem xor_mask_eq (key : UInt32) (i : Nat) (bs : List UInt8) :
    xor_mask key.toNat i bs = lib.rfc6455.mask (wireKey key) i bs := by
  induction bs generalizing i with
  | nil => rfl
  | cons b bs ih => rw [xor_mask, lib.rfc6455.mask, ih, xor_mask_key_eq]

/-- The masking key is read as it stands on the wire. -/
theorem parse_key (k : lib.rfc6455.MaskKey) :
    parse_network_byte_order 8 k.toList % 2 ^ 32 = lib.big_endian.ofBigEndian k.toList := by
  have hlow : parseWord 8 k.toList = parseWord 4 k.toList := by
    simp only [lib.rfc6455.MaskKey.toList, parseWord_eight]
    exact BitVec.or_zero
  have hlt := lib.big_endian.ofBigEndian_lt k.toList
  have hlen : k.toList.length = 4 := rfl
  rw [hlen] at hlt
  have hword := toNat_parseWord (Nat.le_refl 4) hlen
  rw [parse_network_byte_order_eq, hlow, BitVec.toNat_signExtend, BitVec.toNat_setWidth, hword]
  split <;> omega

theorem wireKey_read (k : lib.rfc6455.MaskKey) :
    wireKey (UInt32.ofNat (lib.big_endian.ofBigEndian k.toList)) = k := by
  have hlt := lib.big_endian.ofBigEndian_lt k.toList
  have hlen : k.toList.length = 4 := rfl
  rw [hlen] at hlt
  have hlist : (wireKey (UInt32.ofNat (lib.big_endian.ofBigEndian k.toList))).toList =
      k.toList := by
    rw [toList_wireKey, insert_eq_bigEndian, UInt32.toNat_ofNat', Nat.mod_eq_of_lt (by omega)]
    exact lib.big_endian.bigEndian_ofBigEndian k.toList
  simp only [lib.rfc6455.MaskKey.toList, List.cons.injEq, and_true] at hlist
  obtain ⟨h0, h1, h2, h3⟩ := hlist
  cases k
  simp only [wireKey, lib.rfc6455.MaskKey.mk.injEq] at h0 h1 h2 h3 ⊢
  exact ⟨h0, h1, h2, h3⟩

/-- A masked payload goes back to what it was with the key that was read. -/
theorem xor_mask_read (k : lib.rfc6455.MaskKey) (i : Nat) (bs : List UInt8) :
    xor_mask (lib.big_endian.ofBigEndian k.toList) i bs = lib.rfc6455.mask k i bs := by
  have hlt := lib.big_endian.ofBigEndian_lt k.toList
  have hlen : k.toList.length = 4 := rfl
  rw [hlen] at hlt
  have h := xor_mask_eq (UInt32.ofNat (lib.big_endian.ofBigEndian k.toList)) i bs
  rw [UInt32.toNat_ofNat', Nat.mod_eq_of_lt (by omega), wireKey_read] at h
  exact h

theorem unmask_read (k : lib.rfc6455.MaskKey) (payload : List UInt8) :
    xor_mask (lib.big_endian.ofBigEndian k.toList) 0 (lib.rfc6455.mask k 0 payload) = payload := by
  rw [xor_mask_read, lib.rfc6455.mask_mask]

/-! ## The frame on the wire -/

/-- The frame that a call of `serialize_frame` stands for: with a mask towards the server, and none
towards the client. -/
def wireFrame (fp : FrameParser z) (type : Opcode) (payload : List UInt8) (finished : Bool) :
    lib.rfc6455.Frame where
  fin := finished
  rsv1 := false
  rsv2 := false
  rsv3 := false
  opcode := ⟨type.value, type.value_lt⟩
  maskKey := if fp.destination_ = .server then some (wireKey (fp.generator 0)) else none
  payload := payload

theorem isSome_wireFrame_key (fp : FrameParser z) (type : Opcode) (payload : List UInt8)
    (finished : Bool) : (wireFrame fp type payload finished).maskKey.isSome =
      decide (fp.destination_ = .server) := by
  unfold wireFrame
  split
  · simp_all
  · simp_all

/-- The parser after it has drawn the key that the frame needs. -/
def drawn (fp : FrameParser z) : FrameParser z :=
  if fp.destination_ = .server then { fp with generator := fun n => fp.generator (n + 1) } else fp

@[simp] theorem drawn_extensions (fp : FrameParser z) :
    (drawn fp).extensions_ = fp.extensions_ := by
  unfold drawn; split <;> rfl

@[simp] theorem drawn_effective_opcode_out (fp : FrameParser z) :
    (drawn fp).effective_opcode_out_ = fp.effective_opcode_out_ := by
  unfold drawn; split <;> rfl

@[simp] theorem drawn_destination (fp : FrameParser z) :
    (drawn fp).destination_ = fp.destination_ := by
  unfold drawn; split <;> rfl

theorem first_byte_eq (fp : FrameParser z) (type : Opcode) (payload : List UInt8) (fin rsv1 : Bool)
    (n key : Nat) (m : Bool) :
    UInt8.ofNat (first_byte ⟨fin, ⟨rsv1, false, false⟩, type, m, n, key⟩) =
      lib.rfc6455.firstByte { wireFrame fp type payload fin with rsv1 := rsv1 } := by
  unfold first_byte lib.rfc6455.firstByte wireFrame
  cases fin <;> cases rsv1 <;> cases type <;> simp [Opcode.value]

theorem length_bytes_eq {type : Opcode} {n : Nat} (h : is_control type = true → n ≤ 125) :
    length_bytes type n = some (lib.rfc6455.lengthField n) := by
  unfold length_bytes lib.rfc6455.lengthField
  by_cases h1 : n ≤ 125
  · simp only [h1, if_true]
  · have hc : ¬ is_control type = true := fun hc => h1 (h hc)
    simp only [h1, hc, if_false, insert_eq_bigEndian]
    by_cases h2 : n ≤ 65535
    · simp [h2, show n < 65536 by omega]
    · simp [h2, show ¬ n < 65536 by omega]

theorem second_byte_eq {len : Nat} (m : Bool) (h : len ≤ 127) :
    (if m then 0x80 else 0) ||| len = m.toNat * 128 + len := by
  cases m with
  | false => simp
  | true =>
    have := Nat.two_pow_add_eq_or_of_lt (show len < 2 ^ 7 by omega) 1
    simpa using this.symm

/-- The header of a frame to be written. -/
def outboundHeader (fp : FrameParser z) (type : Opcode) (finished rsv1 : Bool) : FrameHeader :=
  ⟨finished, ⟨rsv1, false, false⟩, type, fp.destination_ = .server, 0, 0⟩

/-- What the extensions leave of a frame is written: the header with the RSV1 bit they set, and the
payload that is in the input buffer. -/
theorem serialize_frame_hooked {fp : FrameParser z} {type : Opcode} {payload : List UInt8}
    {finished rsv1 : Bool} {exts : List (PermessageDeflate z)} {buffers : DoubleBuffer}
    (hhooks : run_outbound_hooks fp.extensions_ (outboundHeader fp type finished false)
      ⟨payload, [], false⟩ = .ok ⟨exts, outboundHeader fp type finished rsv1, buffers, none⟩)
    (h : is_control type = true → buffers.input.length ≤ 125) :
    serialize_frame fp type payload finished =
      ⟨drawn { fp with extensions_ := exts }, .ok (lib.rfc6455.encode
        { wireFrame fp type buffers.input finished with rsv1 := rsv1 })⟩ := by
  have hlen := lib.rfc6455.lengthField_le buffers.input.length
  unfold outboundHeader at hhooks
  unfold serialize_frame
  simp only [FrameHeader.zero, hhooks, Option.isSome_none, Bool.false_eq_true, if_false,
    length_bytes_eq h]
  by_cases hd : fp.destination_ = .server
  · simp only [hd, if_true, first_byte_eq fp type buffers.input, drawn]
    have h2 := second_byte_eq true hlen
    simp only [if_true] at h2
    simp only [decide_true, if_true, h2, xor_mask_eq, lib.rfc6455.encode, lib.rfc6455.header,
      lib.rfc6455.wirePayload, wireFrame, hd, Option.isSome_some, Option.map_some, Option.getD_some,
      toList_wireKey]
  · simp only [hd, if_false, first_byte_eq fp type buffers.input, drawn]
    have h2 := second_byte_eq false hlen
    simp only [Bool.false_eq_true, if_false] at h2
    simp only [decide_false, Bool.false_eq_true, if_false, h2, lib.rfc6455.encode,
      lib.rfc6455.header, lib.rfc6455.wirePayload, wireFrame, hd, Option.isSome_none,
      Option.map_none, Option.getD_none]
    simp

/-- A call that is given no control frame of more than 125 bytes writes its frame. -/
theorem serialize_frame_plain {fp : FrameParser z} {type : Opcode} {payload : List UInt8}
    (he : fp.extensions_ = []) (h : is_control type = true → payload.length ≤ 125)
    (finished : Bool) :
    serialize_frame fp type payload finished =
      ⟨drawn fp, .ok (lib.rfc6455.encode (wireFrame fp type payload finished))⟩ := by
  have hsame : { fp with extensions_ := [] } = fp := by rw [← he]
  have hhooks : run_outbound_hooks fp.extensions_ (outboundHeader fp type finished false)
      ⟨payload, [], false⟩ =
        .ok ⟨[], outboundHeader fp type finished false, ⟨payload, [], false⟩, none⟩ := by
    rw [he]
    rfl
  have hcall := serialize_frame_hooked hhooks h
  rw [hsame] at hcall
  exact hcall

end proxy.websocket.protocol
