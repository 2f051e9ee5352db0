-- What `parse` does with any header, legal or not, and with a frame behind it,
-- in either direction.
import Aether.Lib.Rfc6455Headers
import Aether.Websocket.FrameReading
import Aether.Websocket.FrameWriting

open util.buffer util.buffer.BufferSegment util.bytes lib.big_endian
open lib.rfc6455 (Head)

namespace proxy.websocket.protocol

open extensions

variable {z : Zlib}

/-! ## The checks of a header -/

/-- What the first two bytes are checked for, after the frames before them. -/
def HeaderTaken (expected : Option Opcode) (h : Head) : Prop :=
  (h.isControl = true → h.fin = true ∧ h.length7 ≤ 125) ∧ (expected.isSome = true → h.opcode = 0)

/-- The length of the payload, as it is read from the bytes of the header. -/
def declared_length (h : Head) : Nat :=
  if h.length7 = 126 then parse_network_byte_order 2 h.extended
  else if h.length7 = 127 then parse_network_byte_order 8 h.extended
  else h.length7

/-- What the length is checked for. -/
def LengthTaken (h : Head) : Prop :=
  (h.length7 = 126 → 125 < declared_length h) ∧
    (h.length7 = 127 → 65535 < declared_length h ∧ declared_length h < 2 ^ 63)

/-- All that a header is checked for. -/
structure Taken (destination : Endpoint) (expected : Option Opcode) (h : Head) : Prop where
  header : HeaderTaken expected h
  length : LengthTaken h
  masked : h.masked = decide (destination = .server)

/-- The extensions leave a frame alone, which has RSV1 or not. -/
structure Quiet (rsv1 : Bool) (exts : List (PermessageDeflate z)) : Prop where
  reserved : rsv1 = true → exts = []
  flag : ∀ ext ∈ exts, ext.inbound_compressed_.getD false = false

theorem quiet_nil (rsv1 : Bool) : Quiet rsv1 ([] : List (PermessageDeflate z)) :=
  ⟨fun _ => rfl, by simp⟩

theorem quiet_start {exts : List (PermessageDeflate z)}
    (h : ∀ ext ∈ exts, ext.inbound_compressed_ = none) : Quiet false exts := by
  refine ⟨by simp, ?_⟩
  intro ext hext
  rw [h ext hext]
  rfl

/-! ## The first two bytes -/

/-- The fields of the frame that the parser holds after the header, with its length read as `n`. -/
def frameOf (fp : FrameParser z) (h : Head) (n : Nat) : Frame :=
  { fp.current_frame_ with
    fin := h.fin
    rsv := ⟨h.rsv1, h.rsv2, h.rsv3⟩
    type := Opcode.cast h.opcode
    mask_bit := h.masked
    payload_length := n }

/-- The parser after the first two bytes. -/
def headedBy (fp : FrameParser z) (h : Head) : FrameParser z :=
  { fp with
    header_segment_ := .new
    current_frame_ := frameOf fp h h.length7
    state_ := .payload_length }

theorem head_bits (h : Head) :
    decide (h.b0.toNat &&& 0x80 ≠ 0) = h.fin ∧ decide (h.b0.toNat &&& 0x40 ≠ 0) = h.rsv1 ∧
      decide (h.b0.toNat &&& 0x20 ≠ 0) = h.rsv2 ∧ decide (h.b0.toNat &&& 0x10 ≠ 0) = h.rsv3 ∧
      decide (h.b1.toNat &&& 0x80 ≠ 0) = h.masked := by
  have h0 : h.b0.toNat < 256 := h.b0.toNat_lt
  have h1 : h.b1.toNat < 256 := h.b1.toNat_lt
  have htop : ∀ n, n < 256 → (n &&& 2 ^ 7 ≠ 0 ↔ 128 ≤ n) := by
    intro n hn
    rw [and_two_pow_ne_zero]
    omega
  have hfin := htop h.b0.toNat h0
  have hmask := htop h.b1.toNat h1
  have h6 := and_two_pow_ne_zero h.b0.toNat 6
  have h5 := and_two_pow_ne_zero h.b0.toNat 5
  have h4 := and_two_pow_ne_zero h.b0.toNat 4
  simp only [Nat.reducePow] at hfin hmask h6 h5 h4
  unfold Head.fin Head.rsv1 Head.rsv2 Head.rsv3 Head.masked
  exact ⟨decide_eq_decide.mpr hfin, decide_eq_decide.mpr h6, decide_eq_decide.mpr h5,
    decide_eq_decide.mpr h4, decide_eq_decide.mpr hmask⟩

theorem head_low (h : Head) :
    h.b0.toNat &&& 0xF = h.opcode.val ∧ h.b1.toNat &&& 0x7F = h.length7 :=
  ⟨Nat.and_two_pow_sub_one_eq_mod _ 4, Nat.and_two_pow_sub_one_eq_mod _ 7⟩

theorem cast_ne_continuation (n : Fin 16) :
    decide (Opcode.cast n ≠ .continuation) = !decide (n = 0) := by
  revert n; decide

theorem check_header_eq (fp : FrameParser z) (inp : List UInt8) (h : Head)
    (hs : fp.header_segment_ = .new) :
    (HeaderTaken fp.effective_opcode_in_ h →
        check_header fp inp h.b0 h.b1 = .go (headedBy fp h) inp) ∧
      (¬ HeaderTaken fp.effective_opcode_in_ h →
        ∃ fp' e, check_header fp inp h.b0 h.b1 = .stop ⟨fp', inp, .error e⟩) := by
  obtain ⟨hfin, hrsv1, hrsv2, hrsv3, hmask⟩ := head_bits h
  obtain ⟨hop, hlen⟩ := head_low h
  have hcontrol : is_control (Opcode.cast h.opcode) = h.isControl := is_control_cast h.opcode
  have hmax : ¬ Opcode.max.value < h.opcode.val := by
    have := h.opcode.isLt
    simp only [Opcode.value]
    omega
  unfold check_header
  simp only [hop, hlen, hfin, hrsv1, hrsv2, hrsv3, hmask, hcontrol, cast_ne_continuation]
  rw [if_neg hmax]
  -- The three checks one after another.
  by_cases h1 : (h.isControl && !h.fin) = true
  · rw [if_pos h1]
    simp only [Bool.and_eq_true, Bool.not_eq_true'] at h1
    refine ⟨?_, fun _ => ⟨_, _, rfl⟩⟩
    intro ht
    have := (ht.1 h1.1).1
    rw [h1.2] at this
    cases this
  rw [if_neg h1]
  by_cases h2 : (fp.effective_opcode_in_.isSome && !decide (h.opcode = 0)) = true
  · rw [if_pos h2]
    simp only [Bool.and_eq_true, Bool.not_eq_true', decide_eq_false_iff_not] at h2
    exact ⟨fun ht => absurd (ht.2 h2.1) h2.2, fun _ => ⟨_, _, rfl⟩⟩
  rw [if_neg h2]
  by_cases h3 : (h.isControl && decide (125 < h.length7)) = true
  · rw [if_pos h3]
    simp only [Bool.and_eq_true, decide_eq_true_eq] at h3
    refine ⟨?_, fun _ => ⟨_, _, rfl⟩⟩
    intro ht
    have := (ht.1 h3.1).2
    omega
  rw [if_neg h3]
  refine ⟨?_, ?_⟩
  · intro _
    simp only [headedBy, frameOf, ← hs]
  · intro hn
    refine absurd ⟨?_, ?_⟩ hn
    · intro hc
      rw [hc] at h1 h3
      simp only [Bool.true_and, Bool.not_eq_true', decide_eq_true_eq] at h1 h3
      exact ⟨by simpa using h1, by omega⟩
    · intro he
      rw [he] at h2
      simpa using h2

theorem parse_header_head {fp : FrameParser z} (hi : Idle fp) (h : Head) (rest : List UInt8) :
    parse_header fp (h.b0 :: h.b1 :: rest) = check_header fp rest h.b0 h.b1 := by
  have hsame : { fp with header_segment_ := new } = fp := by rw [← hi.header]
  rw [parse_header, if_neg (by simp [hi.state]), hi.header]
  rw [show h.b0 :: h.b1 :: rest = [h.b0, h.b1] ++ rest from rfl,
    read_segment_new (show [h.b0, h.b1].length = 2 from rfl) (by decide)]
  simp only [reset_eq_new, hsame]

/-! ## The length -/

/-- The parser after the length. -/
def lengthRead (fp : FrameParser z) (h : Head) : FrameParser z :=
  withLength (headedBy fp h) (declared_length h)

theorem parse_payload_length_head {fp : FrameParser z} (hi : Idle fp) {h : Head} (hs : h.Shaped)
    (rest : List UInt8) :
    (LengthTaken h → parse_payload_length (headedBy fp h) (h.extended ++ rest) =
        check_mask (lengthRead fp h) rest) ∧
      (¬ LengthTaken h → ∃ fp' r e,
        parse_payload_length (headedBy fp h) (h.extended ++ rest) = .stop ⟨fp', r, .error e⟩) := by
  have hnew : (headedBy fp h).payload_length_segment_ = .new := hi.payload_length
  have hlen : (headedBy fp h).current_frame_.payload_length = h.length7 := rfl
  have hext := hs.extended
  rw [parse_payload_length, if_neg (by simp [headedBy]), hlen]
  by_cases h126 : h.length7 = 126
  · have hd : declared_length h = parse_network_byte_order 2 h.extended := by
      rw [declared_length, if_pos h126]
    have hext : h.extended.length = 2 := by rw [hext, h126]; rfl
    rw [if_pos h126, parse_extended_length_new 125 hnew hext (by decide), ← hd]
    by_cases hle : declared_length h ≤ 125
    · rw [if_pos hle]
      refine ⟨?_, fun _ => ⟨_, _, _, rfl⟩⟩
      intro ht
      have := ht.1 h126
      omega
    · rw [if_neg hle]
      refine ⟨fun _ => rfl, ?_⟩
      intro hn
      refine absurd ⟨fun _ => by omega, fun h127 => ?_⟩ hn
      rw [h126] at h127
      cases h127
  rw [if_neg h126]
  by_cases h127 : h.length7 = 127
  · have hd : declared_length h = parse_network_byte_order 8 h.extended := by
      rw [declared_length, if_neg h126, if_pos h127]
    have hext : h.extended.length = 8 := by rw [hext, h127]; rfl
    rw [if_pos h127, parse_extended_length_new 65535 hnew hext (by decide), ← hd]
    by_cases hle : declared_length h ≤ 65535
    · rw [if_pos hle]
      refine ⟨?_, fun _ => ⟨_, _, _, rfl⟩⟩
      intro ht
      have := (ht.2 h127).1
      omega
    · rw [if_neg hle]
      have hbit : (withLength (headedBy fp h) (declared_length h)).current_frame_.payload_length =
          declared_length h := rfl
      simp only [Stage.bind, check_msb, hbit, Nat.shiftRight_eq_div_pow]
      by_cases hmsb : declared_length h / 2 ^ 63 ≠ 0
      · rw [if_pos hmsb]
        refine ⟨?_, fun _ => ⟨_, _, _, rfl⟩⟩
        intro ht
        have := (ht.2 h127).2
        exact absurd (Nat.div_eq_of_lt this) hmsb
      · rw [if_neg hmsb]
        refine ⟨fun _ => rfl, ?_⟩
        intro hn
        refine absurd ⟨fun h => absurd h h126, fun _ => ⟨by omega, ?_⟩⟩ hn
        simp only [ne_eq, not_not] at hmsb
        exact (Nat.div_eq_zero_iff_lt (by decide)).mp hmsb
  · have hd : declared_length h = h.length7 := by rw [declared_length, if_neg h126, if_neg h127]
    have hext : h.extended = [] := by
      apply List.length_eq_zero_iff.mp
      rw [hext, lib.rfc6455.extendedSize, if_neg h126, if_neg h127]
    have hsame : lengthRead fp h = headedBy fp h := by
      rw [lengthRead, hd, ← hlen]
      exact withLength_self hnew
    rw [if_neg h127, hext, hsame]
    refine ⟨fun _ => rfl, ?_⟩
    intro hn
    exact absurd ⟨fun h => absurd h h126, fun h => absurd h h127⟩ hn

/-! ## Extensions that have nothing to do -/

/-- The extensions after the header hooks of a frame that they leave alone. -/
def headerHooked (fh : FrameHeader) (exts : List (PermessageDeflate z)) :
    List (PermessageDeflate z) :=
  exts.map fun ext => (on_inbound_frame_header ext fh).1

theorem run_header_hooks_quiet {fh : FrameHeader} {exts : List (PermessageDeflate z)}
    (hq : Quiet fh.rsv.rsv1 exts) :
    run_header_hooks fh exts = (headerHooked fh exts, none) ∧
      ∀ ext ∈ headerHooked fh exts, ext.inbound_compressed_.getD false = false := by
  rcases hr : fh.rsv.rsv1 with _ | _
  · have hhook : ∀ ext : PermessageDeflate z, on_inbound_frame_header ext fh =
        ({ ext with
          inbound_is_compressible_ := some (opcode_is_compressible fh.type)
          inbound_compressed_ := some (ext.inbound_compressed_.getD false) }, ⟨false, none⟩) := by
      intro ext
      simp [on_inbound_frame_header, hr]
    have hflag := hq.flag
    clear hq
    induction exts with
    | nil => exact ⟨rfl, by simp [headerHooked]⟩
    | cons ext exts ih =>
      obtain ⟨hrun, hlater⟩ := ih fun ext hext => hflag ext (List.mem_cons_of_mem _ hext)
      refine ⟨?_, ?_⟩
      · rw [run_header_hooks, hrun]
        simp only [hhook, headerHooked, List.map_cons]
      · intro ext' hext'
        rcases List.mem_cons.mp hext' with rfl | hext'
        · simp only [hhook]
          exact hflag ext (List.mem_cons_self ..)
        · exact hlater ext' hext'
  · obtain rfl := hq.reserved hr
    exact ⟨rfl, by simp [headerHooked]⟩

theorem put_self (b : DoubleBuffer) : b.put b.input b.output = b := by
  unfold DoubleBuffer.put DoubleBuffer.input DoubleBuffer.output
  split <;> rfl

theorem run_payload_hooks_quiet {exts : List (PermessageDeflate z)}
    (hf : ∀ ext ∈ exts, ext.inbound_compressed_.getD false = false) (b : DoubleBuffer) :
    run_payload_hooks exts b = .ok (exts, b, none) := by
  induction exts with
  | nil => rfl
  | cons ext exts ih =>
    have hext := hf ext (List.mem_cons_self ..)
    have hhook : on_inbound_frame_payload ext b.input b.output =
        .ok ⟨ext, b.input, b.output, ⟨false, none⟩⟩ := by
      simp [on_inbound_frame_payload, hext]
    rw [run_payload_hooks, hhook]
    simp only [bind, Except.bind, put_self, Bool.false_eq_true, if_false]
    rw [ih fun ext hext => hf ext (List.mem_cons_of_mem _ hext)]

theorem complete_hook_quiet {ext : PermessageDeflate z} (fh : FrameHeader)
    (hf : ext.inbound_compressed_.getD false = false) :
    (on_inbound_frame_complete ext fh).2.close = none ∧
      (on_inbound_frame_complete ext fh).1.inbound_compressed_.getD false = false := by
  unfold on_inbound_frame_complete
  split
  · exact ⟨rfl, hf⟩
  · split
    · exact ⟨rfl, hf⟩
    · exact ⟨rfl, rfl⟩

theorem run_complete_hooks_quiet {exts : List (PermessageDeflate z)} (fh : FrameHeader)
    (hf : ∀ ext ∈ exts, ext.inbound_compressed_.getD false = false) :
    ∃ exts', run_complete_hooks fh exts = (exts', none) ∧ exts'.length = exts.length ∧
      ∀ ext ∈ exts', ext.inbound_compressed_.getD false = false := by
  induction exts with
  | nil => exact ⟨[], rfl, rfl, by simp⟩
  | cons ext exts ih =>
    obtain ⟨hclose, hflag⟩ := complete_hook_quiet fh (hf ext (List.mem_cons_self ..))
    obtain ⟨exts', hrun, hlen, hlater⟩ := ih fun ext hext => hf ext (List.mem_cons_of_mem _ hext)
    refine ⟨(on_inbound_frame_complete ext fh).1 :: exts', ?_, by simp [hlen], ?_⟩
    · rw [run_complete_hooks]
      simp only [hclose, hrun]
    · intro ext' hext'
      rcases List.mem_cons.mp hext' with rfl | hext'
      · exact hflag
      · exact hlater ext' hext'

/-! ## The mask and the payload -/

/-- The parser after the check of the mask. -/
def maskChecked (fp : FrameParser z) (h : Head) : FrameParser z :=
  { lengthRead fp h with
    extensions_ := headerHooked (lengthRead fp h).current_frame_.toFrameHeader fp.extensions_
    state_ := .mask_key }

theorem check_mask_head {fp : FrameParser z} {h : Head} (hq : Quiet h.rsv1 fp.extensions_)
    (rest : List UInt8) :
    (h.masked = decide (fp.destination_ = .server) →
        check_mask (lengthRead fp h) rest = .go (maskChecked fp h) rest) ∧
      (h.masked ≠ decide (fp.destination_ = .server) →
        ∃ fp' e, check_mask (lengthRead fp h) rest = .stop ⟨fp', rest, .error e⟩) := by
  have hq' : Quiet (lengthRead fp h).current_frame_.toFrameHeader.rsv.rsv1
      (lengthRead fp h).extensions_ := hq
  have hbit : (lengthRead fp h).current_frame_.mask_bit = h.masked := rfl
  have hdest : (lengthRead fp h).destination_ = fp.destination_ := rfl
  unfold check_mask
  rw [(run_header_hooks_quiet hq').1]
  simp only [hbit, hdest]
  constructor
  · intro hm
    have hclient : (h.masked && decide (fp.destination_ = .client)) = false := by
      rw [hm]; cases fp.destination_ <;> rfl
    have hserver : (!h.masked && decide (fp.destination_ = .server)) = false := by
      rw [hm]; cases fp.destination_ <;> rfl
    rw [hclient, hserver]
    rfl
  · intro hm
    by_cases hclient : (h.masked && decide (fp.destination_ = .client)) = true
    · rw [if_pos hclient]
      exact ⟨_, _, rfl⟩
    · have hserver : (!h.masked && decide (fp.destination_ = .server)) = true := by
        revert hm hclient
        cases h.masked <;> cases fp.destination_ <;> decide
      rw [if_neg hclient, if_pos hserver]
      exact ⟨_, _, rfl⟩

/-- A frame that was returned for a header and the content behind it. -/
structure StandsFor (g : Frame) (h : Head) (content : List UInt8) : Prop where
  fin : g.fin = h.fin
  rsv : g.rsv = ⟨h.rsv1, h.rsv2, h.rsv3⟩
  mask_bit : g.mask_bit = h.masked
  content : g.content = content

/-- What the parser returns for a frame that it takes and leaves alone, and what it is after it. -/
structure Reads (fp : FrameParser z) (h : Head) (payload rest : List UInt8) (call : ParseCall z) :
    Prop where
  frame : ∃ g, call.parsed = .frame g ∧ StandsFor g h (lib.rfc6455.unmask h.maskKey payload) ∧
    g.type = (effective_opcode fp.effective_opcode_in_ (Opcode.cast h.opcode) h.fin).1
  input : call.input = rest
  idle : Idle call.parser
  destination : call.parser.destination_ = fp.destination_
  exts : call.parser.extensions_.length = fp.extensions_.length
  flag : ∀ ext ∈ call.parser.extensions_, ext.inbound_compressed_.getD false = false
  expected : call.parser.effective_opcode_in_ =
    (effective_opcode fp.effective_opcode_in_ (Opcode.cast h.opcode) h.fin).2

/-- A parser that holds the whole payload of a frame, and extensions that leave it alone. -/
structure HoldsPayload (fp fp0 : FrameParser z) (h : Head) (payload : List UInt8) : Prop where
  segment : fp.payload_segment_ = ⟨true, payload, []⟩
  content : fp.current_frame_.content = []
  fin : fp.current_frame_.fin = h.fin
  rsv : fp.current_frame_.rsv = ⟨h.rsv1, h.rsv2, h.rsv3⟩
  type : fp.current_frame_.type = Opcode.cast h.opcode
  mask_bit : fp.current_frame_.mask_bit = h.masked
  mask_key : ∀ k, h.maskKey = some k → fp.current_frame_.mask_key = ofBigEndian k.toList
  header_segment : fp.header_segment_ = .new
  payload_length_segment : fp.payload_length_segment_ = .new
  mask_key_segment : fp.mask_key_segment_ = .new
  destination : fp.destination_ = fp0.destination_
  expected : fp.effective_opcode_in_ = fp0.effective_opcode_in_
  exts : fp.extensions_.length = fp0.extensions_.length
  flag : ∀ ext ∈ fp.extensions_, ext.inbound_compressed_.getD false = false

theorem process_payload_quiet {fp fp0 : FrameParser z} {h : Head} {payload : List UInt8}
    (hs : h.Shaped) (hp : HoldsPayload fp fp0 h payload) (rest : List UInt8) :
    Reads fp0 h payload rest (process_payload fp rest).call := by
  obtain ⟨exts', hcomplete, hlen, hflag⟩ :=
    run_complete_hooks_quiet fp.current_frame_.toFrameHeader hp.flag
  unfold process_payload
  simp only [run_payload_hooks_quiet hp.flag, hp.segment, hp.content, hp.mask_bit]
  rcases hm : h.masked with _ | _
  · obtain ⟨-, hkey⟩ := hs.maskKey_none hm
    simp only [Bool.false_eq_true, if_false, hcomplete, complete_frame, Stage.call,
      DoubleBuffer.move_and_swap, DoubleBuffer.put, DoubleBuffer.output, DoubleBuffer.input,
      DoubleBuffer.swap, Bool.not_false, if_true, List.nil_append, hp.type, hp.fin, hp.expected]
    refine ⟨⟨_, rfl, ⟨rfl, hp.rsv, hp.mask_bit, ?_⟩, rfl⟩, rfl, ⟨rfl, hp.header_segment,
      hp.payload_length_segment, hp.mask_key_segment, rfl, rfl⟩, hp.destination,
      hlen.trans hp.exts, hflag, rfl⟩
    rw [hkey]
    rfl
  · obtain ⟨k, -, hkey⟩ := hs.maskKey_some hm
    simp only [if_true, hcomplete, complete_frame, Stage.call, DoubleBuffer.put,
      DoubleBuffer.output, DoubleBuffer.input, DoubleBuffer.swap, Bool.not_false, Bool.not_true,
      Bool.false_eq_true, if_false, List.nil_append, hp.type, hp.fin, hp.expected]
    refine ⟨⟨_, rfl, ⟨rfl, hp.rsv, hp.mask_bit, ?_⟩, rfl⟩, rfl, ⟨rfl, hp.header_segment,
      hp.payload_length_segment, hp.mask_key_segment, rfl, rfl⟩, hp.destination,
      hlen.trans hp.exts, hflag, rfl⟩
    rw [hkey, hp.mask_key k hkey]
    exact xor_mask_read k 0 payload

/-- From the mask key on. -/
theorem mask_key_and_payload {fp : FrameParser z} (hi : Idle fp) {h : Head} (hs : h.Shaped)
    (hq : Quiet h.rsv1 fp.extensions_) {payload : List UInt8}
    (hlen : payload.length = declared_length h) (hn : declared_length h < 2 ^ 31)
    (rest : List UInt8) :
    Reads fp h payload rest
      ((parse_mask_key (maskChecked fp h) (h.key ++ (payload ++ rest))).bind
        parse_payload).call := by
  have hq' : Quiet (lengthRead fp h).current_frame_.toFrameHeader.rsv.rsv1
      (lengthRead fp h).extensions_ := hq
  have hflag := (run_header_hooks_quiet hq').2
  have hexts : (maskChecked fp h).extensions_.length = fp.extensions_.length := List.length_map ..
  have hbit : (maskChecked fp h).current_frame_.mask_bit = h.masked := rfl
  have hkeyseg : (maskChecked fp h).mask_key_segment_ = .new := hi.mask_key
  rw [parse_mask_key, if_neg (by simp [maskChecked]), hbit]
  rcases hm : h.masked with _ | _
  · obtain ⟨hnil, hkey⟩ := hs.maskKey_none hm
    simp only [Bool.not_false, if_true, Stage.bind, hnil, List.nil_append]
    rw [parse_payload, if_neg (by simp)]
    simp only [show (maskChecked fp h).payload_segment_ = .new from hi.payload]
    rw [read_segment_new (by exact hlen) (by exact hn)]
    apply process_payload_quiet hs
    refine ⟨rfl, hi.content, rfl, rfl, rfl, rfl, ?_, rfl, rfl, hkeyseg, rfl, rfl, hexts, hflag⟩
    intro k hk
    rw [hkey] at hk
    cases hk
  · obtain ⟨k, hlist, hkey⟩ := hs.maskKey_some hm
    simp only [Bool.not_true, Bool.false_eq_true, if_false, hkeyseg, hlist]
    rw [read_segment_new (show k.toList.length = 4 from rfl) (by decide)]
    simp only [Stage.bind]
    rw [parse_payload, if_neg (by simp)]
    simp only [show (maskChecked fp h).payload_segment_ = .new from hi.payload]
    rw [read_segment_new (by exact hlen) (by exact hn)]
    apply process_payload_quiet hs
    refine ⟨rfl, hi.content, rfl, rfl, rfl, rfl, ?_, rfl, rfl, rfl, rfl, rfl, hexts, hflag⟩
    intro k' hk
    rw [hkey] at hk
    cases hk
    exact parse_key k

/-! ## The call -/

theorem declared_length_lt {h : Head} (hs : h.Shaped) (ht : LengthTaken h) :
    declared_length h < 2 ^ 31 := by
  have hext := hs.extended
  have hmod : h.length7 < 128 := Nat.mod_lt _ (by decide)
  by_cases h126 : h.length7 = 126
  · have hext : h.extended.length = 2 := by rw [hext, h126]; rfl
    have hlt := ofBigEndian_lt h.extended
    rw [hext] at hlt
    rw [declared_length, if_pos h126, parse_two hext]
    omega
  by_cases h127 : h.length7 = 127
  · have hd : declared_length h = parse_network_byte_order 8 h.extended := by
      rw [declared_length, if_neg h126, if_pos h127]
    have hmsb := (ht.2 h127).2
    rcases parse_network_byte_order_gap 8 h.extended with hlt | hge
    · rw [hd]
      exact hlt
    · omega
  · rw [declared_length, if_neg h126, if_neg h127]
    omega

/-- A frame behind a header that is taken is read, and the input after it is left. -/
theorem parse_taken {fp : FrameParser z} (hi : Idle fp) {h : Head} (hs : h.Shaped)
    (hq : Quiet h.rsv1 fp.extensions_) (ht : Taken fp.destination_ fp.effective_opcode_in_ h)
    {payload : List UInt8} (hlen : payload.length = declared_length h) (rest : List UInt8) :
    Reads fp h payload rest (parse fp (h.bytes ++ (payload ++ rest))) := by
  have hbytes : h.bytes ++ (payload ++ rest) =
      h.b0 :: h.b1 :: (h.extended ++ (h.key ++ (payload ++ rest))) := by
    simp [Head.bytes]
  rw [parse_eq, stages, hbytes, parse_header_head hi,
    (check_header_eq fp _ h hi.header).1 ht.header]
  simp only [Stage.bind]
  rw [(parse_payload_length_head hi hs _).1 ht.length, (check_mask_head hq _).1 ht.masked]
  exact mask_key_and_payload hi hs hq hlen (declared_length_lt hs ht.length) rest

/-- A header that is not taken makes an error, whatever is behind it. -/
theorem parse_refused {fp : FrameParser z} (hi : Idle fp) {h : Head} (hs : h.Shaped)
    (hq : Quiet h.rsv1 fp.extensions_)
    (ht : ¬ Taken fp.destination_ fp.effective_opcode_in_ h) (rest : List UInt8) :
    ∃ e, (parse fp (h.bytes ++ rest)).parsed = .error e := by
  have hbytes : h.bytes ++ rest = h.b0 :: h.b1 :: (h.extended ++ (h.key ++ rest)) := by
    simp [Head.bytes]
  rw [parse_eq, stages, hbytes, parse_header_head hi]
  by_cases hheader : HeaderTaken fp.effective_opcode_in_ h
  · rw [(check_header_eq fp _ h hi.header).1 hheader]
    simp only [Stage.bind]
    by_cases hlength : LengthTaken h
    · rw [(parse_payload_length_head hi hs _).1 hlength]
      have hmask : h.masked ≠ decide (fp.destination_ = .server) := by
        intro hm
        exact ht ⟨hheader, hlength, hm⟩
      obtain ⟨fp', e, he⟩ := (check_mask_head hq (h.key ++ rest)).2 hmask
      rw [he]
      exact ⟨e, rfl⟩
    · obtain ⟨fp', r, e, he⟩ := (parse_payload_length_head hi hs (h.key ++ rest)).2 hlength
      rw [he]
      exact ⟨e, rfl⟩
  · obtain ⟨fp', e, he⟩ := (check_header_eq fp _ h hi.header).2 hheader
    rw [he]
    exact ⟨e, rfl⟩

/-! ## The frame that a call returns stood on the wire -/

/-- Any bytes are the front of a header and of as many bytes as it declares. -/
theorem exists_whole (a : List UInt8) : ∃ (b : List UInt8) (h : Head) (payload rest : List UInt8),
    h.Shaped ∧ payload.length = declared_length h ∧ a ++ b = h.bytes ++ (payload ++ rest) := by
  -- Enough bytes for the longest header, and then for the payload that it declares.
  have hpad : ∃ b0 b1 tail, a ++ List.replicate 14 0 = b0 :: b1 :: tail ∧ 12 ≤ tail.length := by
    match hl : a ++ List.replicate 14 0 with
    | [] => have h := congrArg List.length hl; simp at h
    | [_] => have h := congrArg List.length hl; simp at h
    | b0 :: b1 :: tail =>
      have h := congrArg List.length hl
      simp only [List.length_append, List.length_replicate, List.length_cons] at h
      exact ⟨b0, b1, tail, rfl, by omega⟩
  obtain ⟨b0, b1, tail, htail, hlen⟩ := hpad
  have hsize : lib.rfc6455.extendedSize (b1.toNat % 128) ≤ 8 := by
    unfold lib.rfc6455.extendedSize
    split_ifs <;> omega
  let size := lib.rfc6455.extendedSize (b1.toNat % 128)
  let keySize := if decide (128 ≤ b1.toNat) then 4 else 0
  have hkey : keySize ≤ 4 := by
    simp only [keySize]
    split_ifs <;> omega
  let h : Head := ⟨b0, b1, tail.take size, (tail.drop size).take keySize⟩
  have hshaped : h.Shaped := by
    constructor
    · rw [List.length_take]
      exact Nat.min_eq_left (by omega)
    · rw [List.length_take, List.length_drop]
      exact Nat.min_eq_left (by omega)
  let behind := (tail.drop size).drop keySize ++ List.replicate (declared_length h) 0
  refine ⟨List.replicate 14 0 ++ List.replicate (declared_length h) 0, h,
    behind.take (declared_length h), behind.drop (declared_length h), hshaped, ?_, ?_⟩
  · rw [List.length_take, List.length_append, List.length_replicate]
    omega
  · rw [List.take_append_drop, ← List.append_assoc, htail]
    simp only [Head.bytes, behind, h, List.cons_append, List.append_assoc]
    rw [← List.append_assoc (List.take keySize _), List.take_append_drop, ← List.append_assoc,
      List.take_append_drop]

/-- The bytes that a returned frame took are a header that is taken and the payload it declares. -/
theorem parse_frame {fp fp' : FrameParser z} (hi : Idle fp) (he : fp.extensions_ = [])
    {a r : List UInt8} {g : Frame} (h : parse fp a = ⟨fp', r, .frame g⟩) :
    ∃ (h : Head) (payload : List UInt8), h.Shaped ∧ payload.length = declared_length h ∧
      a = h.bytes ++ (payload ++ r) ∧ Taken fp.destination_ fp.effective_opcode_in_ h := by
  obtain ⟨b, head, payload, rest, hs, hlen, hbytes⟩ := exists_whole a
  have hstop := parse_stop hi.tidy a
  rw [h] at hstop
  have hlonger := ((cut_stages hi.tidy).stop hstop (by simp)).2 b
  have hparse : parse fp (a ++ b) = ⟨fp', r ++ b, .frame g⟩ := by rw [parse_eq, hlonger]; rfl
  have hq : Quiet head.rsv1 fp.extensions_ := he ▸ quiet_nil _
  by_cases ht : Taken fp.destination_ fp.effective_opcode_in_ head
  · have hreads := (parse_taken hi hs hq ht hlen rest).input
    rw [← hbytes, hparse] at hreads
    simp only at hreads
    refine ⟨head, payload, hs, hlen, ?_, ht⟩
    rw [← hreads, ← List.append_assoc, ← List.append_assoc] at hbytes
    rw [List.append_cancel_right hbytes, List.append_assoc]
  · obtain ⟨e, hrefused⟩ := parse_refused hi hs hq ht (payload ++ rest)
    rw [← hbytes, hparse] at hrefused
    cases hrefused

/-! ## A frame that is encoded -/

/-- The frame that was returned for a frame on the wire. The type is the one on the wire for control
frames; a data frame has the type that `parse` gives it. -/
structure IsFrame (g : Frame) (f : lib.rfc6455.Frame) : Prop where
  fin : g.fin = f.fin
  content : g.content = f.payload
  control : is_control g.type = f.isControl
  type : f.isControl = true → g.type = Opcode.cast f.opcode

/-- A length below 2^31 is read as it is. -/
theorem declared_length_small {f : lib.rfc6455.Frame} (hn : f.payload.length < 2 ^ 31) :
    declared_length f.head = f.payload.length ∧ LengthTaken f.head := by
  unfold LengthTaken
  have hd : declared_length f.head = f.payload.length := by
    unfold declared_length
    rw [lib.rfc6455.Frame.head_length7, lib.rfc6455.Frame.head_extended]
    unfold lib.rfc6455.lengthField
    by_cases h1 : f.payload.length ≤ 125
    · rw [if_pos h1]
      simp only
      rw [if_neg (by omega), if_neg (by omega)]
    rw [if_neg h1]
    by_cases h2 : f.payload.length < 65536
    · rw [if_pos h2]
      simp only [if_true]
      rw [parse_two (length_bigEndian 2 _), ofBigEndian_bigEndian (by omega)]
    · rw [if_neg h2]
      simp only [Nat.reduceEqDiff, if_false, if_true]
      have hval : ofBigEndian (bigEndian 8 f.payload.length) = f.payload.length :=
        ofBigEndian_bigEndian (by omega)
      rw [parse_eight (length_bigEndian 8 _) (by omega), hval]
  refine ⟨hd, ?_⟩
  rw [hd, lib.rfc6455.Frame.head_length7]
  unfold lib.rfc6455.lengthField
  split_ifs
  · simp only; omega
  · simp only; omega
  · simp only; omega

/-- A longer one is read as a smaller one, or as one from 2^63 on. -/
theorem declared_length_large {f : lib.rfc6455.Frame} (hn : 2 ^ 31 ≤ f.payload.length) :
    declared_length f.head < 2 ^ 31 ∨ ¬ LengthTaken f.head := by
  have hfield : lib.rfc6455.lengthField f.payload.length =
      (127, bigEndian 8 f.payload.length) := by
    unfold lib.rfc6455.lengthField
    rw [if_neg (by omega), if_neg (by omega)]
  have h127 : f.head.length7 = 127 := by rw [lib.rfc6455.Frame.head_length7, hfield]
  have hd : declared_length f.head = parse_network_byte_order 8 f.head.extended := by
    rw [declared_length, h127]
    rfl
  rcases parse_network_byte_order_gap 8 f.head.extended with hlt | hge
  · left
    rw [hd]
    exact hlt
  · right
    intro ht
    have := (ht.2 h127).2
    omega

/-- The frame is sent by whom it should be, and has no reserved bit. -/
structure Unextended (destination : Endpoint) (f : lib.rfc6455.Frame) : Prop where
  masked : f.maskKey.isSome = decide (destination = .server)
  reserved : f.rsv1 = false ∧ f.rsv2 = false ∧ f.rsv3 = false

/-- A parser between two frames, whose extensions have nothing to do. -/
structure Steady (fp : FrameParser z) : Prop extends Idle fp where
  quiet : Quiet false fp.extensions_
  data : ∀ o, fp.effective_opcode_in_ = some o → is_control o = false

theorem steady_new (destination : Endpoint) {exts : List (PermessageDeflate z)}
    (h : ∀ ext ∈ exts, ext.inbound_compressed_ = none) (generator : Nat → UInt32) :
    Steady (FrameParser.new destination exts generator) :=
  ⟨idle_new _ _ _, quiet_start h, by simp [FrameParser.new]⟩

/-- The opcode that a frame is returned with is one of a control frame exactly when its own is. -/
theorem effective_opcode_control {expected : Option Opcode} {type : Opcode} {fin : Bool}
    (h : ∀ o, expected = some o → is_control o = false) :
    is_control (effective_opcode expected type fin).1 = is_control type ∧
      ∀ o, (effective_opcode expected type fin).2 = some o → is_control o = false := by
  unfold effective_opcode
  by_cases hc : is_control type = true
  · rw [if_pos hc]
    exact ⟨rfl, h⟩
  rw [if_neg hc]
  by_cases hfin : fin = true
  · rw [if_pos hfin]
    exact ⟨rfl, by simp⟩
  rw [if_neg hfin]
  rcases expected with _ | opcode
  · refine ⟨rfl, ?_⟩
    intro o ho
    cases ho
    simpa using hc
  · refine ⟨?_, ?_⟩
    · rw [h opcode rfl]
      simpa using hc
    · intro o ho
      cases ho
      exact h opcode rfl

theorem Reads.steady {fp : FrameParser z} {h : Head} {payload rest : List UInt8}
    {call : ParseCall z} (hr : Reads fp h payload rest call) (hs : Steady fp) :
    Steady call.parser := by
  refine ⟨hr.idle, ⟨by simp, hr.flag⟩, ?_⟩
  rw [hr.expected]
  exact (effective_opcode_control hs.data).2

/-- A frame whose header the parser takes where it is, with a payload below 2^31, is read as it is.
-/
theorem reads_encode {fp : FrameParser z} (hs : Steady fp) {f : lib.rfc6455.Frame}
    (hf : Unextended fp.destination_ f) (hheader : HeaderTaken fp.effective_opcode_in_ f.head)
    (hn : f.payload.length < 2 ^ 31) (rest : List UInt8) :
    Reads fp f.head (lib.rfc6455.wirePayload f) rest
      (parse fp (lib.rfc6455.encode f ++ rest)) := by
  obtain ⟨hd, hlength⟩ := declared_length_small hn
  have hq : Quiet f.head.rsv1 fp.extensions_ := by
    rw [lib.rfc6455.Frame.head_rsv1, hf.reserved.1]
    exact hs.quiet
  have hmasked : f.head.masked = decide (fp.destination_ = .server) := by
    rw [lib.rfc6455.Frame.head_masked]
    exact hf.masked
  have hlen : (lib.rfc6455.wirePayload f).length = declared_length f.head := by
    rw [lib.rfc6455.length_wirePayload, hd]
  rw [lib.rfc6455.Frame.encode_eq_head, List.append_assoc]
  exact parse_taken hs.toIdle f.shaped_head hq ⟨hheader, hlength, hmasked⟩ hlen rest

theorem Reads.isFrame {fp : FrameParser z} (hs : Steady fp) {f : lib.rfc6455.Frame}
    {rest : List UInt8} {call : ParseCall z}
    (hr : Reads fp f.head (lib.rfc6455.wirePayload f) rest call) :
    ∃ g, call.parsed = .frame g ∧ IsFrame g f := by
  obtain ⟨g, hg, hstands, htype⟩ := hr.frame
  have hcontrol : is_control (Opcode.cast f.opcode) = f.isControl := is_control_cast f.opcode
  rw [lib.rfc6455.Frame.head_opcode, lib.rfc6455.Frame.head_fin] at htype
  refine ⟨g, hg, hstands.fin.trans f.head_fin, ?_, ?_, ?_⟩
  · rw [hstands.content, lib.rfc6455.Frame.head_maskKey, lib.rfc6455.unmask_wirePayload]
  · rw [htype, (effective_opcode_control hs.data).1, hcontrol]
  · intro hc
    rw [hc] at hcontrol
    rw [htype]
    unfold effective_opcode
    rw [if_pos hcontrol]

/-- A frame that is returned as it is was taken at its header, and its payload is shorter than
2^31. -/
theorem returned_taken {fp : FrameParser z} (hs : Steady fp) {f : lib.rfc6455.Frame}
    (hf : Unextended fp.destination_ f) {rest : List UInt8} {g : Frame}
    (hg : (parse fp (lib.rfc6455.encode f ++ rest)).parsed = .frame g) (hframe : IsFrame g f) :
    HeaderTaken fp.effective_opcode_in_ f.head ∧ f.payload.length < 2 ^ 31 := by
  have hq : Quiet f.head.rsv1 fp.extensions_ := by
    rw [lib.rfc6455.Frame.head_rsv1, hf.reserved.1]
    exact hs.quiet
  rw [lib.rfc6455.Frame.encode_eq_head, List.append_assoc] at hg
  by_cases ht : Taken fp.destination_ fp.effective_opcode_in_ f.head
  · refine ⟨ht.header, ?_⟩
    by_contra hn
    have hn : 2 ^ 31 ≤ f.payload.length := by omega
    have hshort : declared_length f.head < 2 ^ 31 := by
      rcases declared_length_large hn with h | h
      · exact h
      · exact absurd ht.length h
    -- A part of the payload is taken for all of it.
    have hwire := lib.rfc6455.length_wirePayload f
    have hpart : ((lib.rfc6455.wirePayload f).take (declared_length f.head)).length =
        declared_length f.head := by
      rw [List.length_take]
      omega
    have hread := parse_taken hs.toIdle f.shaped_head hq ht hpart
      ((lib.rfc6455.wirePayload f).drop (declared_length f.head) ++ rest)
    rw [← List.append_assoc (List.take _ _), List.take_append_drop] at hread
    obtain ⟨g', hg', hstands, -⟩ := hread.frame
    rw [hg] at hg'
    cases hg'
    have hlen := congrArg List.length hstands.content
    have hunmask : ∀ key bs, (lib.rfc6455.unmask key bs).length = bs.length := by
      intro key bs
      cases key <;> simp [lib.rfc6455.unmask]
    rw [hframe.content, hunmask, hpart] at hlen
    omega
  · obtain ⟨e, he⟩ :=
      parse_refused hs.toIdle f.shaped_head hq ht (lib.rfc6455.wirePayload f ++ rest)
    rw [he] at hg
    cases hg

end proxy.websocket.protocol
