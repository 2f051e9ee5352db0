-- The key of a masked frame, and the shifts that it is read with.
--
-- The key has four bytes, but is read as a number of eight. On the targets of the
-- project the value is right all the same, as the machine takes the counts modulo 32.
import Aether.Websocket.FrameHeaders

open util.buffer util.buffer.BufferSegment util.bytes lib.big_endian
open lib.rfc6455 (Head MaskKey)

namespace proxy.websocket.protocol

open extensions

variable {z : Zlib}

/-! ## The shifts of a call -/

/-- Of what is done with a segment once it is read. -/
def read_segment_shifts (segment : BufferSegment) (bytes : Nat) (inp : List UInt8)
    (next : BufferSegment → List Shift) : List Shift :=
  match segment.read_up_to_bytes inp bytes with
  | .error _ => []
  | .ok read => if !read.segment.is_complete_ then [] else next read.segment

def payload_length_shifts (fp : FrameParser z) (inp : List UInt8) : List Shift :=
  if fp.state_ ≠ .payload_length then []
  else if fp.current_frame_.payload_length = 126 then
    read_segment_shifts fp.payload_length_segment_ 2 inp
      fun segment => parse_shifts 2 segment.committed
  else if fp.current_frame_.payload_length = 127 then
    read_segment_shifts fp.payload_length_segment_ 8 inp
      fun segment => parse_shifts 8 segment.committed ++
        if parse_network_byte_order 8 segment.committed ≤ 65535 then [] else [⟨63, 64⟩]
  else []

def mask_key_shifts (fp : FrameParser z) (inp : List UInt8) : List Shift :=
  if fp.state_ ≠ .mask_key then []
  else if !fp.current_frame_.mask_bit then []
  else
    read_segment_shifts fp.mask_key_segment_ 4 inp fun segment => parse_shifts 8 segment.committed

/-- Of `xor_mask`, whose key has 32 bits. -/
def xor_mask_shifts : List Shift :=
  [extract_shift 4 32, extract_shift 3 32, extract_shift 2 32, extract_shift 1 32]

def payload_shifts (fp : FrameParser z) (inp : List UInt8) : List Shift :=
  if fp.state_ ≠ .payload then []
  else
    read_segment_shifts fp.payload_segment_ fp.current_frame_.payload_length inp
      fun _ => if fp.current_frame_.mask_bit then xor_mask_shifts else []

/-- Of the stage that a stage goes on to. -/
def Stage.shifts (s : Stage z) (next : FrameParser z → List UInt8 → List Shift) : List Shift :=
  match s with
  | .go fp inp => next fp inp
  | .stop _ => []

/-- Of a call of `parse`, without extensions. -/
def parse_call_shifts (fp : FrameParser z) (inp : List UInt8) : List Shift :=
  let header := parse_header fp inp
  let length := header.bind parse_payload_length
  let key := length.bind parse_mask_key
  header.shifts payload_length_shifts ++ length.shifts mask_key_shifts ++ key.shifts payload_shifts

/-- The frame is returned with the key of the wire and with its payload unmasked, and all shifts
are defined. -/
structure Unmasks (fp : FrameParser z) (k : MaskKey) (payload inp : List UInt8) : Prop where
  frame : ∃ g, (parse fp inp).parsed = .frame g ∧ g.mask_key = ofBigEndian k.toList ∧
    g.content.length = payload.length ∧
    ∀ i b, payload[i]? = some b → g.content[i]? = some (b ^^^ k.get i)
  shifts : ∀ s ∈ parse_call_shifts fp inp, s.Defined

/-! ## The stages of a masked frame -/

variable {fp : FrameParser z} {h : Head} {k : MaskKey} {payload : List UInt8}

/-- The first two stages leave the key and the payload. -/
theorem stages_until_key (hi : Idle fp) (hs : h.Shaped) (hq : Quiet h.rsv1 fp.extensions_)
    (ht : Taken fp.destination_ fp.effective_opcode_in_ h) (rest : List UInt8) :
    (parse_header fp (h.bytes ++ rest)).bind parse_payload_length =
      .go (maskChecked fp h) (h.key ++ rest) := by
  have hbytes : h.bytes ++ rest = h.b0 :: h.b1 :: (h.extended ++ (h.key ++ rest)) := by
    simp [Head.bytes]
  rw [hbytes, parse_header_head hi, (check_header_eq fp _ h hi.header).1 ht.header, Stage.bind,
    (parse_payload_length_head hi hs _).1 ht.length, (check_mask_head hq _).1 ht.masked]

/-- The parser with the key. -/
def keyRead (fp : FrameParser z) (h : Head) (k : MaskKey) : FrameParser z :=
  { maskChecked fp h with
    current_frame_ := { (maskChecked fp h).current_frame_ with mask_key := ofBigEndian k.toList }
    mask_key_segment_ := .new
    state_ := .payload }

theorem parse_mask_key_masked (hi : Idle fp) (hm : h.masked = true) (rest : List UInt8) :
    parse_mask_key (maskChecked fp h) (k.toList ++ rest) = .go (keyRead fp h k) rest := by
  have hbit : (maskChecked fp h).current_frame_.mask_bit = true := hm
  have hseg : (maskChecked fp h).mask_key_segment_ = .new := hi.mask_key
  rw [parse_mask_key, if_neg (by simp [maskChecked]), hbit, if_neg (by simp), hseg,
    read_segment_new (show k.toList.length = 4 from rfl) (by decide), keyRead, parse_key]
  rfl

theorem parse_payload_masked (hi : Idle fp) (hlen : payload.length = declared_length h)
    (hn : payload.length < 2 ^ 31) (rest : List UInt8) :
    parse_payload (keyRead fp h k) (payload ++ rest) =
      process_payload { keyRead fp h k with payload_segment_ := ⟨true, payload, []⟩ } rest := by
  have hseg : (keyRead fp h k).payload_segment_ = .new := hi.payload
  have hlength : (keyRead fp h k).current_frame_.payload_length = payload.length := hlen.symm
  rw [parse_payload, if_neg (by simp [keyRead]), hseg, hlength, read_segment_new rfl hn]

/-- A frame keeps the key that the parser holds. -/
theorem mask_key_of_frame {fp : FrameParser z} {inp : List UInt8} {g : Frame}
    (hg : (process_payload fp inp).call.parsed = .frame g) :
    g.mask_key = fp.current_frame_.mask_key := by
  unfold process_payload at hg
  dsimp only at hg
  generalize hbuffers : (if fp.current_frame_.mask_bit = true then _ else _ : DoubleBuffer) =
    buffers at hg
  cases hhooks : run_payload_hooks fp.extensions_ buffers with
  | error e =>
    rw [hhooks] at hg
    cases hg
  | ok hooks =>
    rw [hhooks] at hg
    obtain ⟨exts, buffers', close⟩ := hooks
    cases close with
    | some code => cases hg
    | none =>
      dsimp only at hg
      generalize hcomplete : run_complete_hooks _ exts = complete at hg
      obtain ⟨exts', close⟩ := complete
      cases close with
      | some code => cases hg
      | none =>
        cases hg
        rfl

theorem masked_of_maskKey (hs : h.Shaped) (hk : h.maskKey = some k) :
    h.masked = true ∧ h.key = k.toList := by
  cases hm : h.masked with
  | true =>
    obtain ⟨k', hkey, hk'⟩ := hs.maskKey_some hm
    obtain rfl : k' = k := Option.some.inj (hk'.symm.trans hk)
    exact ⟨rfl, hkey⟩
  | false =>
    rw [(hs.maskKey_none hm).2] at hk
    cases hk

/-- A masked frame is returned with the key of the wire and unmasked. -/
theorem masked_frame_read (hi : Idle fp) (hs : h.Shaped) (hq : Quiet h.rsv1 fp.extensions_)
    (ht : Taken fp.destination_ fp.effective_opcode_in_ h) (hk : h.maskKey = some k)
    (hlen : payload.length = declared_length h) (rest : List UInt8) :
    ∃ g, (parse fp (h.bytes ++ (payload ++ rest))).parsed = .frame g ∧
      g.mask_key = ofBigEndian k.toList ∧ g.content = lib.rfc6455.mask k 0 payload := by
  obtain ⟨hm, hkey⟩ := masked_of_maskKey hs hk
  have hn : payload.length < 2 ^ 31 := hlen ▸ declared_length_lt hs ht.length
  have hread := parse_taken hi hs hq ht hlen rest
  obtain ⟨g, hg, hstands, -⟩ := hread.frame
  refine ⟨g, hg, ?_, ?_⟩
  · rw [parse_eq, stages, stages_until_key hi hs hq ht, Stage.bind, hkey,
      parse_mask_key_masked hi hm, Stage.bind, parse_payload_masked hi hlen hn] at hg
    exact mask_key_of_frame hg
  · rw [hstands.content, hk]
    rfl

theorem read_segment_shifts_new {bytes : Nat} {front rest : List UInt8}
    {next : BufferSegment → List Shift} (hlen : front.length = bytes) (h0 : 0 < bytes)
    (hb : bytes < 2 ^ 31) :
    read_segment_shifts .new bytes (front ++ rest) next = next ⟨true, front, []⟩ := by
  have henough : bytes ≤ new.uncommitted.length + (front ++ rest).length := by simp [hlen, new]
  have hread := read_enough (gathering_new h0) hb henough
  have htake : (front ++ rest).take bytes = front := by rw [← hlen]; exact List.take_left' rfl
  simp only [new, List.length_nil, Nat.sub_zero, List.nil_append, htake] at hread
  rw [read_segment_shifts, new, hread]
  simp

/-- The key is shifted as the first four of eight bytes. -/
theorem mask_key_shifts_masked (hi : Idle fp) (hm : h.masked = true) (rest : List UInt8) :
    mask_key_shifts (maskChecked fp h) (k.toList ++ rest) = parse_shifts 8 k.toList := by
  have hbit : (maskChecked fp h).current_frame_.mask_bit = true := hm
  have hseg : (maskChecked fp h).mask_key_segment_ = .new := hi.mask_key
  rw [mask_key_shifts, if_neg (by simp [maskChecked]), hbit, if_neg (by simp), hseg,
    read_segment_shifts_new (show k.toList.length = 4 from rfl) (by decide) (by decide)]

/-- Not all shifts of a call that takes a masked frame are defined. -/
theorem shifts_masked (hi : Idle fp) (hs : h.Shaped) (hq : Quiet h.rsv1 fp.extensions_)
    (ht : Taken fp.destination_ fp.effective_opcode_in_ h) (hk : h.maskKey = some k)
    (rest : List UInt8) : ¬ ∀ s ∈ parse_call_shifts fp (h.bytes ++ rest), s.Defined := by
  obtain ⟨hm, hkey⟩ := masked_of_maskKey hs hk
  intro hall
  have hshifts : ∀ s ∈ parse_shifts 8 k.toList, s.Defined := by
    intro s hmem
    apply hall s
    rw [parse_call_shifts, stages_until_key hi hs hq ht, hkey]
    simp only [Stage.shifts, mask_key_shifts_masked hi hm]
    exact List.mem_append_left _ (List.mem_append_right _ hmem)
  exact absurd ((parse_shifts_defined_iff (by decide)).mp hshifts) (by decide)

/-! ## Masked frames of a client -/

/-- A frame with a key, whose payload is on the wire as it is given. -/
def maskedFrame (fin : Bool) (opcode : Fin 16) (k : MaskKey) (payload : List UInt8) :
    lib.rfc6455.Frame :=
  ⟨fin, false, false, false, opcode, some k, lib.rfc6455.mask k 0 payload⟩

variable {fin : Bool} {opcode : Fin 16}

theorem encode_maskedFrame : lib.rfc6455.encode (maskedFrame fin opcode k payload) =
    (maskedFrame fin opcode k payload).head.bytes ++ payload := by
  rw [lib.rfc6455.Frame.encode_eq_head]
  simp [lib.rfc6455.wirePayload, maskedFrame]

/-- What the parser takes of them. -/
theorem taken_maskedFrame (hserver : fp.destination_ = .server) (hn : payload.length < 2 ^ 31)
    (hheader : HeaderTaken fp.effective_opcode_in_ (maskedFrame fin opcode k payload).head) :
    Taken fp.destination_ fp.effective_opcode_in_ (maskedFrame fin opcode k payload).head ∧
      payload.length = declared_length (maskedFrame fin opcode k payload).head := by
  have hlen : (maskedFrame fin opcode k payload).payload.length = payload.length := by
    simp [maskedFrame]
  obtain ⟨hd, hlength⟩ := declared_length_small (hlen ▸ hn)
  refine ⟨⟨hheader, hlength, ?_⟩, (hd.trans hlen).symm⟩
  rw [lib.rfc6455.Frame.head_masked, hserver]
  rfl

theorem the_key_and_the_content_are_right (hs : Steady fp) (hserver : fp.destination_ = .server)
    (hn : payload.length < 2 ^ 31)
    (hheader : HeaderTaken fp.effective_opcode_in_ (maskedFrame fin opcode k payload).head)
    (rest : List UInt8) :
    ∃ g, (parse fp (lib.rfc6455.encode (maskedFrame fin opcode k payload) ++ rest)).parsed =
        .frame g ∧ g.mask_key = ofBigEndian k.toList ∧ g.content.length = payload.length ∧
      ∀ i b, payload[i]? = some b → g.content[i]? = some (b ^^^ k.get i) := by
  obtain ⟨ht, hlen⟩ := taken_maskedFrame hserver hn hheader
  have hkey : (maskedFrame fin opcode k payload).head.maskKey = some k := by
    rw [lib.rfc6455.Frame.head_maskKey]
    rfl
  have hq : Quiet (maskedFrame fin opcode k payload).head.rsv1 fp.extensions_ := by
    rw [lib.rfc6455.Frame.head_rsv1]
    exact hs.quiet
  obtain ⟨g, hg, hmask, hcontent⟩ := masked_frame_read hs.toIdle
    (maskedFrame fin opcode k payload).shaped_head hq ht hkey hlen rest
  rw [encode_maskedFrame, List.append_assoc]
  refine ⟨g, hg, hmask, by rw [hcontent, lib.rfc6455.length_mask], ?_⟩
  intro i b hb
  rw [hcontent, lib.rfc6455.getElem_mask, hb, Nat.zero_add]
  rfl

theorem shifts_maskedFrame (hs : Steady fp) (hserver : fp.destination_ = .server)
    (hn : payload.length < 2 ^ 31)
    (hheader : HeaderTaken fp.effective_opcode_in_ (maskedFrame fin opcode k payload).head)
    (rest : List UInt8) : ¬ ∀ s ∈ parse_call_shifts fp
      (lib.rfc6455.encode (maskedFrame fin opcode k payload) ++ rest), s.Defined := by
  obtain ⟨ht, -⟩ := taken_maskedFrame hserver hn hheader
  have hkey : (maskedFrame fin opcode k payload).head.maskKey = some k := by
    rw [lib.rfc6455.Frame.head_maskKey]
    rfl
  have hq : Quiet (maskedFrame fin opcode k payload).head.rsv1 fp.extensions_ := by
    rw [lib.rfc6455.Frame.head_rsv1]
    exact hs.quiet
  rw [encode_maskedFrame, List.append_assoc]
  exact shifts_masked hs.toIdle (maskedFrame fin opcode k payload).shaped_head hq ht hkey _

/-- The values are right, but no masked frame is read with shifts that are all defined. -/
theorem no_masked_frame_is_read_with_defined_shifts (hs : Steady fp)
    (hserver : fp.destination_ = .server) (hn : payload.length < 2 ^ 31)
    (hheader : HeaderTaken fp.effective_opcode_in_ (maskedFrame fin opcode k payload).head)
    (rest : List UInt8) :
    ¬ Unmasks fp k payload (lib.rfc6455.encode (maskedFrame fin opcode k payload) ++ rest) :=
  fun hunmasks => shifts_maskedFrame hs hserver hn hheader rest hunmasks.shifts

theorem headerTaken_binary (payload : List UInt8) :
    HeaderTaken none (maskedFrame true 2 k payload).head := by
  constructor
  · intro hcontrol
    rw [lib.rfc6455.Frame.head_isControl] at hcontrol
    cases hcontrol
  · intro hsome
    cases hsome

/-- A server's parser before the first frame. -/
def serverParser : FrameParser .inert := .new .server [] (fun _ => 0)

theorem steady_serverParser : Steady serverParser := steady_new .server (by simp) _

theorem a_binary_frame_is_read_with_undefined_shifts :
    ¬ Unmasks serverParser ⟨1, 2, 3, 4⟩ [5]
      (lib.rfc6455.encode (maskedFrame true 2 ⟨1, 2, 3, 4⟩ [5]) ++ []) :=
  no_masked_frame_is_read_with_defined_shifts steady_serverParser rfl (by decide)
    (headerTaken_binary [5]) []

theorem the_shifts_of_a_key_are_not_all_defined : ¬ ∀ (fp : FrameParser .inert) (k : MaskKey)
    (payload rest : List UInt8), Steady fp → fp.destination_ = .server →
    payload.length < 2 ^ 31 →
    HeaderTaken fp.effective_opcode_in_ (maskedFrame true 2 k payload).head →
    Unmasks fp k payload (lib.rfc6455.encode (maskedFrame true 2 k payload) ++ rest) := by
  intro h
  have hunmasks := h serverParser ⟨1, 2, 3, 4⟩ [5] [] steady_serverParser rfl (by decide)
    (headerTaken_binary [5])
  exact shifts_maskedFrame steady_serverParser rfl (by decide) (headerTaken_binary [5]) []
    hunmasks.shifts

end proxy.websocket.protocol
