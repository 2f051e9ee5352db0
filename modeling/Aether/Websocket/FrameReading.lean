-- What `parse` does with a frame that stands whole on the wire: the header,
-- the length, the payload, and the frame that is returned.
import Aether.Lib.Rfc6455
import Aether.Websocket.FrameParserCuts
import Mathlib.Data.Nat.Bitwise

open util.buffer util.buffer.BufferSegment util.bytes lib.big_endian

namespace proxy.websocket.protocol

open extensions

variable {z : Zlib}

/-- A parser between two frames. -/
structure Idle (fp : FrameParser z) : Prop where
  state : fp.state_ = .header
  header : fp.header_segment_ = .new
  payload_length : fp.payload_length_segment_ = .new
  mask_key : fp.mask_key_segment_ = .new
  payload : fp.payload_segment_ = .new
  content : fp.current_frame_.content = []

theorem Idle.tidy {fp : FrameParser z} (h : Idle fp) : Tidy fp where
  header := by rw [h.header]; exact gathering_new (by decide)
  payload_length := .inl h.payload_length
  mask_key := .inl h.mask_key
  payload := .inl h.payload

theorem idle_new (destination : Endpoint) (exts : List (PermessageDeflate z))
    (generator : Nat → UInt32) : Idle (FrameParser.new destination exts generator) :=
  ⟨rfl, rfl, rfl, rfl, rfl, rfl⟩

/-- A segment with nothing in it takes what it asks for off the front. -/
theorem read_segment_new {bytes : Nat} {front rest : List UInt8}
    {hold : BufferSegment → FrameParser z} {next : BufferSegment → List UInt8 → Stage z}
    (hlen : front.length = bytes) (hb : bytes < 2 ^ 31) :
    read_segment .new bytes (front ++ rest) hold next = next ⟨true, front, []⟩ rest := by
  by_cases h0 : bytes = 0
  · subst h0
    obtain rfl := List.length_eq_zero_iff.mp hlen
    simp [read_segment, read_up_to_bytes, new]
  · have henough : bytes ≤ new.uncommitted.length + (front ++ rest).length := by simp [hlen, new]
    have hread := read_enough (gathering_new (Nat.pos_of_ne_zero h0)) hb henough
    have htake : (front ++ rest).take bytes = front := by rw [← hlen]; exact List.take_left' rfl
    have hdrop : (front ++ rest).drop bytes = rest := by rw [← hlen]; exact List.drop_left' rfl
    simp only [new, List.length_nil, Nat.sub_zero, List.nil_append, htake, hdrop] at hread
    rw [read_segment, new, hread]
    simp

/-- Nothing comes of nothing. -/
theorem parse_nil {fp : FrameParser z} (hi : Idle fp) : parse fp [] = ⟨fp, [], .more⟩ := by
  have hgather : new.Gathering 2 := gathering_new (by decide)
  have hread : new.read_up_to_bytes [] 2 = .ok ⟨new, []⟩ := read_short hgather (by decide)
  have hsame : { fp with header_segment_ := new } = fp := by rw [← hi.header]
  rw [parse, parse_header, if_neg (by simp [hi.state]), hi.header, read_segment, hread]
  simp only [new, Bool.not_false, if_true, Stage.bind, Stage.call]
  exact congrArg (fun fp => (⟨fp, [], .more⟩ : ParseCall z)) hsame

/-! ## The header -/

theorem and_two_pow_ne_zero (n i : Nat) : (n &&& 2 ^ i ≠ 0) ↔ n / 2 ^ i % 2 = 1 := by
  rw [Nat.and_two_pow, Nat.testBit_eq_decide_div_mod_eq]
  by_cases h : n / 2 ^ i % 2 = 1
  · simp [h]
  · simp [h]

theorem decide_and_two_pow (n i : Nat) (b : Bool) (h : n / 2 ^ i % 2 = b.toNat) :
    decide (n &&& 2 ^ i ≠ 0) = b := by
  cases b with
  | false => rw [decide_eq_false_iff_not, and_two_pow_ne_zero, h]; decide
  | true => rw [decide_eq_true_iff, and_two_pow_ne_zero, h]; rfl

theorem is_control_cast (n : Fin 16) : is_control (Opcode.cast n) = decide (8 ≤ n.val) := by
  revert n; decide

/-- The frame that the parser holds after the length of a frame on the wire. -/
def readFrame (fp : FrameParser z) (f : lib.rfc6455.Frame) (payload_length : Nat) : Frame :=
  { fp.current_frame_ with
    fin := f.fin
    rsv := ⟨f.rsv1, f.rsv2, f.rsv3⟩
    type := Opcode.cast f.opcode
    mask_bit := f.maskKey.isSome
    payload_length := payload_length }

/-- The parser after the first two bytes. -/
def headed (fp : FrameParser z) (f : lib.rfc6455.Frame) : FrameParser z :=
  { fp with
    current_frame_ := readFrame fp f (lib.rfc6455.lengthField f.payload.length).1
    state_ := .payload_length }

/-- A frame whose header the parser takes where it is: a control frame is whole and short, and a
fragment is a continuation exactly when one is expected. -/
structure Takes (fp : FrameParser z) (f : lib.rfc6455.Frame) : Prop where
  control : f.isControl = true → f.fin = true ∧ f.payload.length ≤ 125
  expected : fp.effective_opcode_in_.isSome = true → f.opcode = 0

theorem lengthField_of_le {n : Nat} (h : n ≤ 125) : lib.rfc6455.lengthField n = (n, []) := by
  simp [lib.rfc6455.lengthField, h]

theorem parse_header_encode {fp : FrameParser z} {f : lib.rfc6455.Frame} (hi : Idle fp)
    (ht : Takes fp f) (rest : List UInt8) :
    parse_header fp (lib.rfc6455.encode f ++ rest) =
      .go (headed fp f)
        ((lib.rfc6455.lengthField f.payload.length).2 ++
          ((f.maskKey.map lib.rfc6455.MaskKey.toList).getD [] ++
            (lib.rfc6455.wirePayload f ++ rest))) := by
  have hlen := lib.rfc6455.lengthField_le f.payload.length
  have hkey := f.maskKey.isSome.toNat_le
  have h1 := f.fin.toNat_le
  have h2 := f.rsv1.toNat_le
  have h3 := f.rsv2.toNat_le
  have h4 := f.rsv3.toNat_le
  have h5 := f.opcode.isLt
  have hb0 := lib.rfc6455.toNat_firstByte f
  generalize hn1 : (lib.rfc6455.lengthField f.payload.length).1 = len7 at *
  have hb1 : (UInt8.ofNat (f.maskKey.isSome.toNat * 128 + len7)).toNat =
      f.maskKey.isSome.toNat * 128 + len7 := by
    rw [UInt8.toNat_ofNat', Nat.mod_eq_of_lt (by omega)]
  -- The bits of the two bytes.
  have hfin := decide_and_two_pow (lib.rfc6455.firstByte f).toNat 7 f.fin (by rw [hb0]; omega)
  have hrsv1 := decide_and_two_pow (lib.rfc6455.firstByte f).toNat 6 f.rsv1 (by rw [hb0]; omega)
  have hrsv2 := decide_and_two_pow (lib.rfc6455.firstByte f).toNat 5 f.rsv2 (by rw [hb0]; omega)
  have hrsv3 := decide_and_two_pow (lib.rfc6455.firstByte f).toNat 4 f.rsv3 (by rw [hb0]; omega)
  have hop : (lib.rfc6455.firstByte f).toNat &&& 0xF = f.opcode.val := by
    rw [Nat.and_two_pow_sub_one_eq_mod _ 4, hb0]; omega
  have hmask := decide_and_two_pow (f.maskKey.isSome.toNat * 128 + len7) 7 f.maskKey.isSome
    (by omega)
  have hlen7 : (f.maskKey.isSome.toNat * 128 + len7) &&& 0x7F = len7 := by
    rw [Nat.and_two_pow_sub_one_eq_mod _ 7]; omega
  simp only [Nat.reducePow] at hfin hrsv1 hrsv2 hrsv3 hmask
  -- The bytes, as the segment takes them.
  have hbytes : lib.rfc6455.encode f ++ rest =
      [lib.rfc6455.firstByte f, UInt8.ofNat (f.maskKey.isSome.toNat * 128 + len7)] ++
        ((lib.rfc6455.lengthField f.payload.length).2 ++
          ((f.maskKey.map lib.rfc6455.MaskKey.toList).getD [] ++
            (lib.rfc6455.wirePayload f ++ rest))) := by
    simp [lib.rfc6455.encode, lib.rfc6455.header, hn1]
  have hcontrol := is_control_cast f.opcode
  rw [parse_header, if_neg (by simp [hi.state]), hbytes, hi.header,
    read_segment_new (show [_, _].length = 2 from rfl) (by decide)]
  simp only [check_header, hb1, hop, hfin, hrsv1, hrsv2, hrsv3, hmask, hlen7, reset_eq_new,
    ← hi.header]
  have hmax : ¬ Opcode.max.value < f.opcode.val := by simp only [Opcode.value]; omega
  have hfrag : (is_control (Opcode.cast f.opcode) && !f.fin) = false := by
    rw [hcontrol]
    cases hc : f.isControl with
    | false => unfold lib.rfc6455.Frame.isControl at hc; rw [hc]; rfl
    | true => simp [(ht.control hc).1]
  have hcont : (fp.effective_opcode_in_.isSome && decide (Opcode.cast f.opcode ≠ .continuation)) =
      false := by
    cases he : fp.effective_opcode_in_.isSome with
    | false => rfl
    | true => simp [ht.expected he, Opcode.cast]
  have hlong : (is_control (Opcode.cast f.opcode) && decide (125 < len7)) = false := by
    rw [hcontrol]
    cases hc : f.isControl with
    | false => unfold lib.rfc6455.Frame.isControl at hc; rw [hc]; rfl
    | true =>
      have hle := (ht.control hc).2
      rw [lengthField_of_le hle] at hn1
      simp only at hn1
      have : ¬ 125 < len7 := by omega
      simp [this]
  rw [if_neg hmax, hfrag, hcont, hlong, headed, hn1]
  rfl

/-! ## The length -/

/-- The parser after the length. -/
def withLength (fp : FrameParser z) (payload_length : Nat) : FrameParser z :=
  { fp with
    current_frame_ := { fp.current_frame_ with payload_length := payload_length }
    payload_length_segment_ := .new }

theorem parse_extended_length_new {fp : FrameParser z} {bytes : Nat} {field : List UInt8}
    (most : Nat) (hn : fp.payload_length_segment_ = .new) (hlen : field.length = bytes)
    (hb : bytes < 2 ^ 31) (rest : List UInt8) :
    parse_extended_length bytes most fp (field ++ rest) =
      if parse_network_byte_order bytes field ≤ most then
        stop_invalid (withLength fp (parse_network_byte_order bytes field)) rest
          "Payload length did not encode with minimum bytes"
      else .go (withLength fp (parse_network_byte_order bytes field)) rest := by
  rw [parse_extended_length, hn, read_segment_new hlen hb]
  rfl

theorem withLength_self {fp : FrameParser z} (hn : fp.payload_length_segment_ = .new) :
    withLength fp fp.current_frame_.payload_length = fp := by
  unfold withLength
  rw [← hn]

/-- The length of a payload below 2^31 is read as it is. -/
theorem parse_payload_length_small (fp : FrameParser z) {n : Nat} (hs : fp.state_ = .payload_length)
    (hn : fp.payload_length_segment_ = .new)
    (hl : fp.current_frame_.payload_length = (lib.rfc6455.lengthField n).1) (h : n < 2 ^ 31)
    (rest : List UInt8) :
    parse_payload_length fp ((lib.rfc6455.lengthField n).2 ++ rest) =
      check_mask (withLength fp n) rest := by
  rw [parse_payload_length, if_neg (by simp [hs])]
  by_cases h1 : n ≤ 125
  · rw [lengthField_of_le h1] at hl ⊢
    simp only at hl
    simp only [hl, show n ≠ 126 by omega, show n ≠ 127 by omega, if_false, List.nil_append,
      Stage.bind]
    rw [← hl, withLength_self hn]
  by_cases h2 : n < 65536
  · have hfield : lib.rfc6455.lengthField n = (126, bigEndian 2 n) := by
      simp [lib.rfc6455.lengthField, h1, h2]
    have hp : parse_network_byte_order 2 (bigEndian 2 n) = n := by
      rw [parse_two (length_bigEndian 2 n), ofBigEndian_bigEndian (by omega)]
    rw [hfield] at hl ⊢
    simp only at hl
    simp only [hl, if_true]
    rw [parse_extended_length_new 125 hn (length_bigEndian 2 n) (by decide), hp, if_neg (by omega)]
    rfl
  · have hfield : lib.rfc6455.lengthField n = (127, bigEndian 8 n) := by
      simp [lib.rfc6455.lengthField, h1, h2]
    have hp : parse_network_byte_order 8 (bigEndian 8 n) = n := by
      rw [parse_eight (length_bigEndian 8 n) (by rw [ofBigEndian_bigEndian] <;> omega),
        ofBigEndian_bigEndian (by omega)]
    rw [hfield] at hl ⊢
    simp only at hl
    simp only [hl, Nat.reduceEqDiff, if_false, if_true]
    rw [parse_extended_length_new 65535 hn (length_bigEndian 8 n) (by decide), hp,
      if_neg (by omega)]
    simp only [Stage.bind, check_msb]
    rw [if_neg (by simp [withLength, Nat.shiftRight_eq_div_pow]; omega)]

/-- The length of a payload from 2^31 on is refused, or read as a smaller one. -/
theorem parse_payload_length_large (fp : FrameParser z) {n : Nat} (hs : fp.state_ = .payload_length)
    (hn : fp.payload_length_segment_ = .new)
    (hl : fp.current_frame_.payload_length = (lib.rfc6455.lengthField n).1) (h : 2 ^ 31 ≤ n)
    (h63 : n < 2 ^ 63) (rest : List UInt8) :
    (∃ fp' r e, parse_payload_length fp ((lib.rfc6455.lengthField n).2 ++ rest) =
      .stop ⟨fp', r, .error e⟩) ∨
    ∃ m, 0 < m ∧ m < 2 ^ 31 ∧ parse_payload_length fp ((lib.rfc6455.lengthField n).2 ++ rest) =
      check_mask (withLength fp m) rest := by
  have hfield : lib.rfc6455.lengthField n = (127, bigEndian 8 n) := by
    unfold lib.rfc6455.lengthField
    rw [if_neg (by omega), if_neg (by omega)]
  rw [hfield] at hl ⊢
  simp only at hl ⊢
  have hval : ofBigEndian (bigEndian 8 n) = n := ofBigEndian_bigEndian (by omega)
  rw [parse_payload_length, if_neg (by simp [hs])]
  simp only [hl, Nat.reduceEqDiff, if_false, if_true]
  rw [parse_extended_length_new 65535 hn (length_bigEndian 8 n) (by decide)]
  split
  · exact .inl ⟨_, _, _, rfl⟩
  · rename_i hmost
    simp only [Stage.bind, check_msb]
    rcases parse_network_byte_order_gap 8 (bigEndian 8 n) with hgap | hgap
    · right
      refine ⟨parse_network_byte_order 8 (bigEndian 8 n), by omega, hgap, ?_⟩
      rw [if_neg (by simp [withLength, Nat.shiftRight_eq_div_pow]; omega)]
    · left
      rw [if_pos (by simp [withLength, Nat.shiftRight_eq_div_pow]; omega)]
      exact ⟨_, _, _, rfl⟩

/-! ## Frames without a mask, and no extension -/

/-- A parser that reads the frames of a server, with no extension. -/
structure Plain (fp : FrameParser z) : Prop extends Idle fp where
  destination : fp.destination_ = .client
  exts : fp.extensions_ = []

theorem plain_new (generator : Nat → UInt32) :
    Plain (FrameParser.new .client [] generator : FrameParser z) :=
  ⟨idle_new _ _ _, rfl, rfl⟩

/-- The opcode that a frame is returned with, and the one that is expected after it. -/
def effectiveOpcode (fp : FrameParser z) (f : lib.rfc6455.Frame) : Opcode × Option Opcode :=
  effective_opcode fp.effective_opcode_in_ (Opcode.cast f.opcode) f.fin

/-- The frame that is returned for a frame on the wire whose length was read as `n`. -/
def returned (fp : FrameParser z) (f : lib.rfc6455.Frame) (n : Nat) (content : List UInt8) :
    Frame :=
  { readFrame fp f n with type := (effectiveOpcode fp f).1, content := content }

/-- The parser after it. -/
def afterFrame (fp : FrameParser z) (f : lib.rfc6455.Frame) (n : Nat) : FrameParser z :=
  { fp with
    state_ := .header
    current_frame_ := returned fp f n []
    effective_opcode_in_ := (effectiveOpcode fp f).2
    extensions_ := []
    payload_length_segment_ := .new
    payload_segment_ := .new }

theorem plain_afterFrame {fp : FrameParser z} (hp : Plain fp) (f : lib.rfc6455.Frame) (n : Nat) :
    Plain (afterFrame fp f n) :=
  ⟨⟨rfl, hp.header, rfl, hp.mask_key, rfl, rfl⟩, hp.destination, rfl⟩

@[simp] theorem afterFrame_effective_opcode_in (fp : FrameParser z) (f : lib.rfc6455.Frame)
    (n : Nat) : (afterFrame fp f n).effective_opcode_in_ = (effectiveOpcode fp f).2 := rfl

theorem check_mask_plain {fp : FrameParser z} (he : fp.extensions_ = [])
    (hd : fp.destination_ = .client) (hm : fp.current_frame_.mask_bit = false) (inp : List UInt8) :
    check_mask fp inp = .go { fp with extensions_ := [], state_ := .mask_key } inp := by
  unfold check_mask
  simp only [he, run_header_hooks, hm, hd, Bool.false_and, Bool.not_false, Bool.true_and,
    reduceCtorEq, decide_false, Bool.false_eq_true, if_false]

/-- From the length of a frame without a mask on, when its payload is there. -/
theorem parse_data {fp : FrameParser z} {f : lib.rfc6455.Frame} (hp : Plain fp)
    (hm : f.maskKey = none) {data : List UInt8} (hn : data.length < 2 ^ 31) (rest : List UInt8) :
    (((check_mask (withLength (headed fp f) data.length) (data ++ rest)).bind parse_mask_key).bind
        parse_payload).call =
      ⟨afterFrame fp f data.length, rest, .frame (returned fp f data.length data)⟩ := by
  have hbit : f.maskKey.isSome = false := by rw [hm]; rfl
  rw [check_mask_plain (by exact hp.exts) (by exact hp.destination) (by exact hbit)]
  simp only [Stage.bind, parse_mask_key, withLength, headed, readFrame, hbit, ne_eq,
    not_true_eq_false,
    if_false, Bool.not_false, if_true, parse_payload, hp.payload, read_segment_new rfl hn,
    process_payload, hp.content, Bool.false_eq_true, run_payload_hooks, run_complete_hooks,
    DoubleBuffer.move_and_swap, DoubleBuffer.put, DoubleBuffer.output, DoubleBuffer.input,
    DoubleBuffer.swap, List.nil_append, complete_frame, Stage.call, reset_eq_new]
  simp only [afterFrame, returned, effectiveOpcode, readFrame, hbit]

theorem takes_lengths {fp : FrameParser z} {f : lib.rfc6455.Frame} (hp : Plain fp)
    (ht : Takes fp f) (hm : f.maskKey = none) (rest : List UInt8) :
    stages fp (lib.rfc6455.encode f ++ rest) =
      ((parse_payload_length (headed fp f)
        ((lib.rfc6455.lengthField f.payload.length).2 ++ (f.payload ++ rest))).bind
          parse_mask_key).bind parse_payload := by
  have hwire : lib.rfc6455.wirePayload f = f.payload := by
    simp [lib.rfc6455.wirePayload, hm]
  rw [stages, parse_header_encode hp.toIdle ht rest]
  simp only [Stage.bind, hm, hwire, Option.map_none, Option.getD_none, List.nil_append]

/-- A frame that the parser takes where it is, with a payload below 2^31, is returned as it
is, and the input after it is left. -/
theorem parse_encode {fp : FrameParser z} {f : lib.rfc6455.Frame} (hp : Plain fp)
    (ht : Takes fp f) (hm : f.maskKey = none) (hn : f.payload.length < 2 ^ 31)
    (rest : List UInt8) :
    parse fp (lib.rfc6455.encode f ++ rest) =
      ⟨afterFrame fp f f.payload.length, rest,
        .frame (returned fp f f.payload.length f.payload)⟩ := by
  rw [parse_eq, takes_lengths hp ht hm,
    parse_payload_length_small (headed fp f) rfl hp.payload_length rfl hn]
  exact parse_data hp hm hn rest

/-- A longer payload makes an error, or a frame with a part of it. -/
theorem parse_encode_large {fp : FrameParser z} {f : lib.rfc6455.Frame} (hp : Plain fp)
    (ht : Takes fp f) (hm : f.maskKey = none) (hn : 2 ^ 31 ≤ f.payload.length)
    (h63 : f.payload.length < 2 ^ 63) (rest : List UInt8) :
    (∃ e, (parse fp (lib.rfc6455.encode f ++ rest)).parsed = .error e) ∨
    ∃ n, 0 < n ∧ n < f.payload.length ∧ parse fp (lib.rfc6455.encode f ++ rest) =
      ⟨afterFrame fp f n, f.payload.drop n ++ rest,
        .frame (returned fp f n (f.payload.take n))⟩ := by
  rw [parse_eq, takes_lengths hp ht hm]
  have hlong := parse_payload_length_large (headed fp f) rfl hp.payload_length rfl hn h63
  rcases hlong (f.payload ++ rest) with
    ⟨fp', r, e, he⟩ | ⟨n, h0, hlt, hlen⟩
  · left
    rw [he]
    exact ⟨e, rfl⟩
  · right
    refine ⟨n, h0, by omega, ?_⟩
    have htake : (f.payload.take n).length = n := by rw [List.length_take]; omega
    have hsplit : f.payload ++ rest = f.payload.take n ++ (f.payload.drop n ++ rest) := by
      rw [← List.append_assoc, List.take_append_drop]
    have hdata := parse_data hp hm (by rw [htake]; exact hlt) (f.payload.drop n ++ rest)
    rw [htake] at hdata
    rw [hlen, hsplit]
    exact hdata

/-! ## Any frame is as long as the input that it is read from -/

/-- What the stages before the payload keep. -/
structure Kept (fp fp' : FrameParser z) : Prop where
  destination : fp'.destination_ = fp.destination_
  exts : fp'.extensions_.length = fp.extensions_.length
  content : fp'.current_frame_.content = fp.current_frame_.content

theorem Kept.refl (fp : FrameParser z) : Kept fp fp := ⟨rfl, rfl, rfl⟩

theorem Kept.trans {fp fp' fp'' : FrameParser z} (h : Kept fp fp') (h' : Kept fp' fp'') :
    Kept fp fp'' :=
  ⟨h'.destination.trans h.destination, h'.exts.trans h.exts, h'.content.trans h.content⟩

theorem parse_header_kept {fp fp' : FrameParser z} {a r : List UInt8}
    (h : parse_header fp a = .go fp' r) : Kept fp fp' := by
  unfold parse_header at h
  split at h
  · cases h; exact .refl _
  · obtain ⟨read, -, -, hn⟩ := read_segment_go h
    split at hn
    · unfold check_header stop_invalid at hn
      simp only at hn
      split_ifs at hn
      cases hn
      exact ⟨rfl, rfl, rfl⟩
    · cases hn

@[simp] theorem length_run_header_hooks (fh : FrameHeader) (exts : List (PermessageDeflate z)) :
    (run_header_hooks fh exts).1.length = exts.length := by
  induction exts with
  | nil => rfl
  | cons ext exts ih =>
    simp only [run_header_hooks]
    split
    · rfl
    · simp [ih]

theorem check_mask_kept {fp fp' : FrameParser z} {a r : List UInt8}
    (h : check_mask fp a = .go fp' r) : Kept fp fp' := by
  unfold check_mask stop_invalid at h
  simp only at h
  split at h
  · cases h
  · split_ifs at h
    cases h
    exact ⟨rfl, by simp, rfl⟩

theorem parse_payload_length_kept {fp fp' : FrameParser z} {a r : List UInt8}
    (h : parse_payload_length fp a = .go fp' r) : Kept fp fp' := by
  unfold parse_payload_length at h
  split at h
  · cases h; exact .refl _
  · obtain ⟨fp1, r1, h1, h2⟩ := bind_go h
    refine Kept.trans ?_ (check_mask_kept h2)
    split_ifs at h1
    · obtain ⟨length, rfl⟩ := parse_extended_length_go h1
      exact ⟨rfl, rfl, rfl⟩
    · obtain ⟨fp2, r2, h3, h4⟩ := bind_go h1
      obtain ⟨rfl, -⟩ := check_msb_go h4
      obtain ⟨length, rfl⟩ := parse_extended_length_go h3
      exact ⟨rfl, rfl, rfl⟩
    · cases h1; exact .refl _

theorem parse_mask_key_kept {fp fp' : FrameParser z} {a r : List UInt8}
    (h : parse_mask_key fp a = .go fp' r) : Kept fp fp' := by
  rcases parse_mask_key_go h with ⟨-, rfl, -⟩ | ⟨-, -, rfl, -⟩ | ⟨-, -, key, rfl⟩
  · exact .refl _
  · exact ⟨rfl, rfl, rfl⟩
  · exact ⟨rfl, rfl, rfl⟩

@[simp] theorem length_xor_mask (key i : Nat) (bs : List UInt8) :
    (xor_mask key i bs).length = bs.length := by
  induction bs generalizing i with
  | nil => rfl
  | cons b bs ih => simp [xor_mask, ih]

/-- With no extension, a payload is returned as long as it was read. -/
theorem process_payload_plain {fp fp' : FrameParser z} {inp r : List UInt8} {f : Frame}
    (he : fp.extensions_ = []) (hc : fp.current_frame_.content = [])
    (h : process_payload fp inp = .stop ⟨fp', r, .frame f⟩) :
    f.content.length = fp.payload_segment_.committed.length ∧ r = inp ∧
      fp'.current_frame_.content = [] ∧ fp'.extensions_ = [] ∧
      fp'.destination_ = fp.destination_ ∧ fp'.payload_segment_ = .new ∧
      fp'.header_segment_ = fp.header_segment_ := by
  unfold process_payload complete_frame at h
  simp only [he, run_payload_hooks, run_complete_hooks, hc] at h
  split at h
  · rename_i hm
    cases h
    simp [DoubleBuffer.put, DoubleBuffer.swap, DoubleBuffer.output, DoubleBuffer.input]
  · cases h
    simp [DoubleBuffer.put, DoubleBuffer.swap, DoubleBuffer.output, DoubleBuffer.input,
      DoubleBuffer.move_and_swap]

theorem commit_length_le {seg seg' : BufferSegment} (h : seg.commit = .ok seg') :
    seg'.committed.length ≤ seg.committed.length + seg.uncommitted.length := by
  unfold commit at h
  rcases hc : seg.commit_buffer with e | s
  · rw [hc] at h; cases h
  · rw [hc] at h
    cases h
    unfold commit_buffer at hc
    simp only at hc
    split at hc
    · cases hc
    · cases hc
      simp only [List.length_append, List.length_take]
      omega

theorem read_new_committed {inp : List UInt8} {bytes : Nat} {r : SegmentRead}
    (h : new.read_up_to_bytes inp bytes = .ok r) :
    r.segment.committed.length + r.input.length ≤ inp.length := by
  unfold read_up_to_bytes at h
  split_ifs at h with h1 h2
  · cases h1
  · cases h; simp [new]
  · simp only at h
    split at h
    · rcases hc : commit _ with e | s
      · rw [hc] at h; cases h
      · rw [hc] at h
        cases h
        have hle := commit_length_le hc
        simp only [new, List.nil_append, List.length_nil, List.length_take,
          List.length_drop] at hle ⊢
        omega
    · cases h
      simp [new]

/-- The frames that a parser returns are no longer than its input. -/
theorem parse_plain {fp fp' : FrameParser z} {a r : List UInt8} {f : Frame} (hp : Plain fp)
    (h : parse fp a = ⟨fp', r, .frame f⟩) :
    Plain fp' ∧ f.content.length ≤ a.length ∧ r.length ≤ a.length := by
  have ht := hp.tidy
  have hstop := parse_stop ht a
  rw [h] at hstop
  obtain ⟨ht', hs', hr, -⟩ := stages_frame ht hstop
  have hno2 := (noFrame_parse_header fp a).bind noFrame_parse_payload_length
  obtain ⟨fp3, r3, h3, h4⟩ := bind_frame (hno2.bind noFrame_parse_mask_key) hstop
  obtain ⟨fp2, r2, h2, h3⟩ := bind_go h3
  obtain ⟨fp1, r1, h1, h2⟩ := bind_go h2
  have ht1 := parse_header_go_tidy ht h1
  have ht2 := parse_payload_length_go_tidy ht1.1 ht1.2 h2
  have ht3 := parse_mask_key_go_tidy ht2.1 ht2.2 h3
  have hkept := ((parse_header_kept h1).trans (parse_payload_length_kept h2)).trans
    (parse_mask_key_kept h3)
  have hlen1 := ((cut_parse_header ht).go h1).1
  have hlen2 := ((cut_parse_payload_length ht1.1).go h2).1
  have hlen3 := ((cut_parse_mask_key ht2.1).go h3).1
  -- The payload segment is untouched so far, for the parser was idle.
  have hseg : fp3.payload_segment_ = .new := by
    have hf1 : fp1.payload_segment_ = fp.payload_segment_ := by
      rcases parse_header_go ht h1 with ⟨-, rfl, -⟩ | ⟨-, -, frame, rfl⟩ <;> rfl
    have hf2 : fp2.payload_segment_ = fp1.payload_segment_ := by
      rcases parse_payload_length_go ht1.1 h2 with ⟨-, rfl, -⟩ | ⟨-, frame, exts, rfl⟩ <;> rfl
    have hf3 : fp3.payload_segment_ = fp2.payload_segment_ := by
      rcases parse_mask_key_go h3 with ⟨-, rfl, -⟩ | ⟨-, -, rfl, -⟩ | ⟨-, -, key, rfl⟩ <;> rfl
    rw [hf3, hf2, hf1, hp.payload]
  have hnew : fp3.header_segment_ = .new := by
    have hf1 : fp1.header_segment_ = .new := by
      rcases parse_header_go ht h1 with ⟨hne, -⟩ | ⟨-, -, frame, rfl⟩
      · exact absurd hp.state hne
      · rfl
    have hf2 : fp2.header_segment_ = fp1.header_segment_ := by
      rcases parse_payload_length_go ht1.1 h2 with ⟨-, rfl, -⟩ | ⟨-, frame, exts, rfl⟩ <;> rfl
    have hf3 : fp3.header_segment_ = fp2.header_segment_ := by
      rcases parse_mask_key_go h3 with ⟨-, rfl, -⟩ | ⟨-, -, rfl, -⟩ | ⟨-, -, key, rfl⟩ <;> rfl
    rw [hf3, hf2, hf1]
  rw [parse_payload, if_neg (by simp [ht3.2])] at h4
  obtain ⟨read, hread, -, hn⟩ := read_segment_stop h4
  rw [hseg] at hread
  have hread := read_new_committed hread
  have hexts : fp3.extensions_ = [] :=
    List.length_eq_zero_iff.mp (by rw [hkept.exts, hp.exts]; rfl)
  obtain ⟨hf, rfl, hc, he, hd, hpay, hhead⟩ := process_payload_plain (by exact hexts)
    (by exact hkept.content.trans hp.content) hn
  have hl := ht'.payload_length
  have hm := ht'.mask_key
  simp only [hs', reduceCtorEq, false_and, or_false] at hl hm
  simp only at hf hd hhead
  refine ⟨⟨⟨hs', hhead.trans hnew, hl, hm, hpay, hc⟩, (hd.trans hkept.destination).trans
    hp.destination, he⟩, ?_, hr⟩
  rw [hf]
  omega

end proxy.websocket.protocol
