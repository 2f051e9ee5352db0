-- Which frames permessage-deflate inflates: the three inbound hooks of a frame
-- over a run of frames, and the call of `parse` that makes them.
import Aether.Websocket.FrameReading
import Aether.Websocket.FrameWriting
import Mathlib.Data.List.Chain

open util.bytes

namespace proxy.websocket.protocol

open extensions

variable {z : Zlib}

/-! ## The hooks of one frame -/

/-- What the hooks of a frame leave: the extension, whether the payload was handed to `inflate`, the
content, and the code if the extension asks for a close. -/
structure HookCall (z : Zlib) where
  ext : PermessageDeflate z
  handed : Bool
  content : List UInt8
  close : Option CloseCode

/-- The three hooks, in the order in which `parse` calls them. -/
def inbound_hooks (ext : PermessageDeflate z) (fh : FrameHeader) (payload : List UInt8) :
    Except Error (HookCall z) :=
  let (ext, result) := on_inbound_frame_header ext fh
  match result.close with
  | some code => .ok ⟨ext, false, payload, some code⟩
  | none => do
    let hook ← on_inbound_frame_payload ext payload []
    let content := if hook.ret.transferred_input_to_output then hook.output else hook.input
    match hook.ret.close with
    | some code => .ok ⟨hook.ext, inflates ext, content, some code⟩
    | none =>
      .ok ⟨(on_inbound_frame_complete hook.ext fh).1, inflates ext, content, none⟩

/-- The header that the parser has of a frame on the wire, with no mask key. -/
def headerOf (f : lib.rfc6455.Frame) : FrameHeader :=
  ⟨f.fin, ⟨f.rsv1, f.rsv2, f.rsv3⟩, Opcode.cast f.opcode, f.maskKey.isSome, f.payload.length, 0⟩

/-- For each frame, up to the one that ends the connection, whether its payload was handed to
`inflate`. -/
def passed (ext : PermessageDeflate z) : List lib.rfc6455.Frame → List Bool
  | [] => []
  | f :: fs =>
    match inbound_hooks ext (headerOf f) f.payload with
    | .error _ => []
    | .ok call =>
      call.handed ::
        match call.close with
        | some _ => []
        | none => passed call.ext fs

/-- What the payload hook adds to the trace of `inflate`. -/
theorem payload_trace {ext : PermessageDeflate z} {input output : List UInt8} {hook : PayloadHook z}
    (h : on_inbound_frame_payload ext input output = .ok hook) :
    hook.ext.inflated = ext.inflated ++
      if inflates ext then
        [(input ++ flush_marker).take ((input ++ flush_marker).length % 2 ^ 32)]
      else [] := by
  rw [inflates_eq_not]
  unfold on_inbound_frame_payload at h
  split at h
  · rename_i hn
    cases h
    simp [hn]
  · rename_i hn
    simp only [hn, Bool.not_false, if_true]
    simp only at h
    split at h
    · cases h; rfl
    · rcases hc : consume_all (input ++ flush_marker) with e | rest
      · rw [hc] at h; cases h
      · rw [hc] at h; cases h; rfl

theorem payload_flags {ext : PermessageDeflate z} {input output : List UInt8} {hook : PayloadHook z}
    (h : on_inbound_frame_payload ext input output = .ok hook) :
    hook.ext.inbound_compressed_ = ext.inbound_compressed_ ∧
      hook.ext.inbound_is_compressible_ = ext.inbound_is_compressible_ := by
  unfold on_inbound_frame_payload at h
  split at h
  · cases h; exact ⟨rfl, rfl⟩
  · simp only at h
    split at h
    · cases h; exact ⟨rfl, rfl⟩
    · rcases hc : consume_all (input ++ flush_marker) with e | rest
      · rw [hc] at h; cases h
      · rw [hc] at h; cases h; exact ⟨rfl, rfl⟩

/-! ## What the hooks go by -/

/-- What is to be inflated when `compressed` is what `inbound_compressed_` has: the flag is taken
from the first frame that finds none, and only the last frame of a message clears it. -/
def handedFrom (compressed : Option Bool) : List lib.rfc6455.Frame → List Bool
  | [] => []
  | f :: fs =>
    if f.isControl then false :: handedFrom (some (compressed.getD f.rsv1)) fs
    else
      compressed.getD f.rsv1 ::
        handedFrom (if f.fin then none else some (compressed.getD f.rsv1)) fs

/-- A frame that keeps the rules of RSV1, and of the FIN of control frames. -/
def WellFormed (f : lib.rfc6455.Frame) : Prop :=
  (f.isControl = true → f.fin = true ∧ f.rsv1 = false) ∧ (f.opcode = 0 → f.rsv1 = false)

theorem isControl_cast (f : lib.rfc6455.Frame) :
    is_control (Opcode.cast f.opcode) = f.isControl := is_control_cast f.opcode

theorem cast_eq_continuation {n : Fin 16} (h : Opcode.cast n = .continuation) : n = 0 := by
  revert h; revert n; decide

theorem header_passes {ext : PermessageDeflate z} {f : lib.rfc6455.Frame} (hf : WellFormed f) :
    on_inbound_frame_header ext (headerOf f) =
      ({ ext with
          inbound_is_compressible_ := some (!f.isControl)
          inbound_compressed_ := some (ext.inbound_compressed_.getD f.rsv1) }, ⟨false, none⟩) := by
  have hrsv : ((headerOf f).rsv.rsv1 &&
      (is_control (headerOf f).type || decide ((headerOf f).type = .continuation))) = false := by
    cases hr : f.rsv1 with
    | false => simp [headerOf, hr]
    | true =>
      have hc : is_control (headerOf f).type = false := by
        rw [headerOf, isControl_cast]
        cases hc : f.isControl with
        | false => rfl
        | true => rw [(hf.1 hc).2] at hr; cases hr
      have hne : (headerOf f).type ≠ .continuation := by
        intro h
        rw [hf.2 (cast_eq_continuation h)] at hr
        cases hr
      simp [hc, hne]
  rw [on_inbound_frame_header, hrsv, ← isControl_cast]
  rfl

/-- The hooks of one frame, in terms of the flag alone. -/
theorem hooks_flag {ext : PermessageDeflate z} {f : lib.rfc6455.Frame} (hf : WellFormed f)
    {call : HookCall z} (h : inbound_hooks ext (headerOf f) f.payload = .ok call) :
    call.handed = (!f.isControl && ext.inbound_compressed_.getD f.rsv1) ∧
      (call.close = none → call.ext.inbound_compressed_ =
        if f.isControl || !f.fin then some (ext.inbound_compressed_.getD f.rsv1) else none) := by
  unfold inbound_hooks at h
  rw [header_passes hf] at h
  simp only at h
  rcases hp : on_inbound_frame_payload _ f.payload [] with e | hook
  · rw [hp] at h; cases h
  · rw [hp] at h
    obtain ⟨hcompressed, hcompressible⟩ := payload_flags hp
    simp only [bind, Except.bind] at h
    rcases hc : hook.ret.close with _ | code
    · rw [hc] at h
      cases h
      refine ⟨by simp [inflates, Bool.and_comm], fun _ => ?_⟩
      simp only [on_inbound_frame_complete, headerOf, hcompressible]
      cases hfin : f.fin with
      | false => simp [hcompressed]
      | true => cases f.isControl <;> simp [hcompressed]
    · rw [hc] at h
      cases h
      exact ⟨by simp [inflates, Bool.and_comm], fun hn => by cases hn⟩

theorem passed_prefix {ext : PermessageDeflate z} {fs : List lib.rfc6455.Frame}
    (hf : ∀ f ∈ fs, WellFormed f) : passed ext fs <+: handedFrom ext.inbound_compressed_ fs := by
  induction fs generalizing ext with
  | nil => exact List.prefix_rfl
  | cons f fs ih =>
    rw [passed]
    split
    · exact List.nil_prefix
    · rename_i call hcall
      obtain ⟨hhanded, hflag⟩ := hooks_flag (hf f (by simp)) hcall
      have hcons : handedFrom ext.inbound_compressed_ (f :: fs) =
          (!f.isControl && ext.inbound_compressed_.getD f.rsv1) ::
            handedFrom (if f.isControl || !f.fin then some (ext.inbound_compressed_.getD f.rsv1)
              else none) fs := by
        rw [handedFrom]
        cases f.isControl <;> cases f.fin <;> simp
      rw [hcons, hhanded]
      refine List.cons_prefix_cons.mpr ⟨rfl, ?_⟩
      split
      · exact List.nil_prefix
      · rename_i hc
        rw [← hflag hc]
        exact ih fun g hg => hf g (by simp [hg])

/-- A zlib that fails on nothing ends no run, as long as the payloads are shorter than 2^31 - 4
bytes. -/
theorem hooks_ok (ext : PermessageDeflate z) {f : lib.rfc6455.Frame} (hf : WellFormed f)
    (hz : ∀ s data output, (inflate_loop (z := z) s data output).failed = false)
    (hn : f.payload.length + 4 < 2 ^ 31) :
    ∃ call, inbound_hooks ext (headerOf f) f.payload = .ok call ∧ call.close = none := by
  have htoInt : toInt (f.payload ++ flush_marker).length = (f.payload ++ flush_marker).length :=
    toInt_of_lt (by simpa [flush_marker] using hn)
  have hpayload : ∀ ext : PermessageDeflate z, ∃ hook,
      on_inbound_frame_payload ext f.payload [] = .ok hook ∧ hook.ret.close = none := by
    intro ext
    unfold on_inbound_frame_payload
    split
    · exact ⟨_, rfl, rfl⟩
    · simp only [hz, Bool.false_eq_true, if_false, consume_all, htoInt, if_true]
      exact ⟨_, rfl, rfl⟩
  unfold inbound_hooks
  rw [header_passes hf]
  obtain ⟨hook, hp, hc⟩ := hpayload { ext with
    inbound_is_compressible_ := some (!f.isControl)
    inbound_compressed_ := some (ext.inbound_compressed_.getD f.rsv1) }
  simp only [hp, bind, Except.bind, hc]
  exact ⟨_, rfl, rfl⟩

theorem passed_length {fs : List lib.rfc6455.Frame} (hf : ∀ f ∈ fs, WellFormed f)
    (hz : ∀ s data output, (inflate_loop (z := z) s data output).failed = false)
    (hn : ∀ f ∈ fs, f.payload.length + 4 < 2 ^ 31) (ext : PermessageDeflate z) :
    (passed ext fs).length = fs.length := by
  induction fs generalizing ext with
  | nil => rfl
  | cons f fs ih =>
    obtain ⟨call, hcall, hclose⟩ := hooks_ok ext (hf f (by simp)) hz (hn f (by simp))
    rw [passed, hcall]
    simp only [hclose, List.length_cons]
    rw [ih (fun g hg => hf g (by simp [hg])) (fun g hg => hn g (by simp [hg]))]

/-! ## What should be inflated -/

/-- Whether each frame is one of a data message whose first frame has RSV1 set. `message` has that
of the message in progress. -/
def compressed (message : Option Bool) : List lib.rfc6455.Frame → List Bool
  | [] => []
  | f :: fs =>
    if f.isControl then false :: compressed message fs
    else
      message.getD f.rsv1 :: compressed (if f.fin then none else some (message.getD f.rsv1)) fs

/-- The frames are legal with the extension: control frames are whole, short and outside of
fragmented messages, the first frame of a message has its type, the others are continuations, and
RSV1 is on first frames of messages only. -/
def Legal (message : Option Bool) : List lib.rfc6455.Frame → Prop
  | [] => True
  | f :: fs =>
    if f.isControl then
      message = none ∧ f.fin = true ∧ f.rsv1 = false ∧ f.payload.length ≤ 125 ∧ Legal message fs
    else
      (if message.isSome then f.opcode = 0 ∧ f.rsv1 = false else f.opcode = 1 ∨ f.opcode = 2) ∧
        Legal (if f.fin then none else some (message.getD f.rsv1)) fs

theorem Legal.wellFormed {message : Option Bool} {fs : List lib.rfc6455.Frame}
    (h : Legal message fs) : ∀ f ∈ fs, WellFormed f := by
  induction fs generalizing message with
  | nil => intro f hf; cases hf
  | cons f fs ih =>
    rw [Legal] at h
    intro g hg
    split at h
    · rename_i hc
      obtain ⟨-, hfin, hrsv, -, hrest⟩ := h
      rcases List.mem_cons.mp hg with rfl | hg
      · exact ⟨fun _ => ⟨hfin, hrsv⟩, fun _ => hrsv⟩
      · exact ih hrest g hg
    · rename_i hc
      obtain ⟨hfirst, hrest⟩ := h
      rcases List.mem_cons.mp hg with rfl | hg
      · refine ⟨fun h => absurd h hc, fun h0 => ?_⟩
        split at hfirst
        · exact hfirst.2
        · rw [h0] at hfirst
          rcases hfirst with h | h <;> cases h
      · exact ih hrest g hg

/-- A frame that comes directly after a control frame has no RSV1. -/
def Apart (f g : lib.rfc6455.Frame) : Prop := f.isControl = true → g.rsv1 = false

/-- The flag is the one that it should be as long as no frame with RSV1 finds the flag of a control
frame, which is `stale`. -/
theorem handedFrom_eq_iff {fs : List lib.rfc6455.Frame} (message : Option Bool) (stale : Bool)
    (hs : stale = true → message = none) (hl : Legal message fs) :
    handedFrom (if stale then some false else message) fs = compressed message fs ↔
      (stale = true → ∀ g ∈ fs.head?, g.rsv1 = false) ∧ fs.IsChain Apart := by
  induction fs generalizing message stale with
  | nil => simp [handedFrom, compressed]
  | cons f fs ih =>
    rw [Legal] at hl
    rw [handedFrom, compressed, List.isChain_cons]
    split at hl
    · rename_i hc
      obtain ⟨rfl, -, hrsv, -, hrest⟩ := hl
      -- A control frame leaves its own flag behind.
      have hflag : some ((if stale then some false else none).getD f.rsv1) =
          if true then some false else none := by
        cases stale <;> simp [hrsv]
      have hlater := ih none true (fun _ => rfl) hrest
      rw [if_pos hc, if_pos hc, hflag, List.cons_inj_right, hlater]
      simp [Apart, hc, hrsv]
    · rename_i hc
      obtain ⟨-, hrest⟩ := hl
      rw [if_neg hc, if_neg hc, List.cons.injEq]
      have hhead : ∀ g ∈ fs.head?, Apart f g := fun g _ h => absurd h hc
      rw [and_iff_right hhead]
      cases stale with
      | false =>
        have hlater := ih _ false (fun h => by cases h) hrest
        simp only [Bool.false_eq_true, if_false, false_implies, true_and] at hlater ⊢
        exact hlater
      | true =>
        obtain rfl := hs rfl
        have hfirst : (∀ g ∈ (f :: fs).head?, g.rsv1 = false) ↔ f.rsv1 = false := by simp
        rw [hfirst]
        cases hrsv : f.rsv1 with
        | true => simp
        | false =>
          rw [hrsv] at hrest
          have hlater := ih _ false (fun h => by cases h) hrest
          simp only [Bool.false_eq_true, if_false, false_implies, true_and, Option.getD_none]
            at hlater
          simp only [if_true, Option.getD_some, Option.getD_none, true_and, true_implies]
          exact hlater

/-- In a run that no frame ends, the frames that are inflated are those of the messages with RSV1
exactly when no frame with RSV1 comes directly after a control frame. -/
theorem compressed_messages_are_inflated_iff_none_follows_a_control_frame (flush : Flush)
    (deflate : z.Deflate) (inflate : z.Inflate) {fs : List lib.rfc6455.Frame} (hl : Legal none fs)
    (hrun : (passed (.start flush deflate inflate : PermessageDeflate z) fs).length = fs.length) :
    passed (.start flush deflate inflate : PermessageDeflate z) fs = compressed none fs ↔
      fs.IsChain Apart := by
  have hlength : ∀ c, (handedFrom c fs).length = fs.length := by
    clear hl hrun
    induction fs with
    | nil => intro c; rfl
    | cons f fs ih =>
      intro c
      rw [handedFrom]
      split <;> simp [ih]
  have hall : passed (.start flush deflate inflate : PermessageDeflate z) fs = handedFrom none fs :=
    List.IsPrefix.eq_of_length ( passed_prefix hl.wellFormed) (by rw [hrun, hlength])
  have hiff := handedFrom_eq_iff none false (fun h => by cases h) hl
  simp only [Bool.false_eq_true, if_false, false_implies, true_and] at hiff
  rw [hall]
  exact hiff

/-- A compressed message in two frames, a ping, and a message that is not compressed. -/
theorem a_compressed_message_before_a_ping_is_inflated :
    passed (.start .sync_flush () () : PermessageDeflate .inert)
        [⟨false, true, false, false, 1, none, [72]⟩, ⟨true, false, false, false, 0, none, [105]⟩,
          ⟨true, false, false, false, 9, none, []⟩, ⟨true, false, false, false, 2, none, [7]⟩] =
      compressed none
        [⟨false, true, false, false, 1, none, [72]⟩, ⟨true, false, false, false, 0, none, [105]⟩,
          ⟨true, false, false, false, 9, none, []⟩, ⟨true, false, false, false, 2, none, [7]⟩] ↔
      List.IsChain Apart
        [⟨false, true, false, false, 1, none, [72]⟩, ⟨true, false, false, false, 0, none, [105]⟩,
          ⟨true, false, false, false, 9, none, []⟩, ⟨true, false, false, false, 2, none, [7]⟩] := by
  have hlegal : Legal none [⟨false, true, false, false, 1, none, [72]⟩,
      ⟨true, false, false, false, 0, none, [105]⟩, ⟨true, false, false, false, 9, none, []⟩,
      ⟨true, false, false, false, 2, none, [7]⟩] := by
    exact ⟨.inl rfl, ⟨rfl, rfl⟩, rfl, rfl, rfl, by decide, .inr rfl, trivial⟩
  refine compressed_messages_are_inflated_iff_none_follows_a_control_frame (z := .inert)
    .sync_flush () () hlegal
    (passed_length hlegal.wellFormed (fun s data output => ?_) (by simp) _)
  rw [inflate_loop]
  simp [Zlib.inert, buffer_size]

/-- A ping, and then a compressed message: it is not inflated. -/
theorem a_compressed_message_after_a_ping_is_not_inflated :
    passed (.start .sync_flush () () : PermessageDeflate .inert)
        [⟨true, false, false, false, 9, none, []⟩, ⟨true, true, false, false, 1, none, [72]⟩] ≠
      compressed none
        [⟨true, false, false, false, 9, none, []⟩, ⟨true, true, false, false, 1, none, [72]⟩] := by
  decide

/-! ## The call of `parse` that makes the hooks -/

/-- A payload hook that asks for no close left its buffers alone, or emptied its input. -/
theorem payload_buffers {ext : PermessageDeflate z} {payload : List UInt8} {hook : PayloadHook z}
    (h : on_inbound_frame_payload ext payload [] = .ok hook) (hc : hook.ret.close = none) :
    (hook.ret.transferred_input_to_output = false ∧ hook.input = payload ∧ hook.output = []) ∨
      (hook.ret.transferred_input_to_output = true ∧ hook.input = []) := by
  unfold on_inbound_frame_payload at h
  split at h
  · cases h; exact .inl ⟨rfl, rfl, rfl⟩
  · simp only at h
    split at h
    · cases h; cases hc
    · unfold consume_all at h
      split at h
      · cases h; exact .inr ⟨rfl, rfl⟩
      · cases h

/-- The two buffers that the payload hooks start from, with and without a mask. -/
def startBuffers (masked : Bool) (payload : List UInt8) : DoubleBuffer :=
  if masked then ⟨[], payload, true⟩ else ⟨payload, [], false⟩

/-- What the buffers hold in the end. -/
def endBuffers (b : DoubleBuffer) (hook : PayloadHook z) : DoubleBuffer :=
  if hook.ret.transferred_input_to_output then (b.put hook.input hook.output).swap
  else b.put hook.input hook.output

theorem endBuffers_content {ext : PermessageDeflate z} {payload : List UInt8} {hook : PayloadHook z}
    (h : on_inbound_frame_payload ext payload [] = .ok hook) (hc : hook.ret.close = none)
    (masked : Bool) :
    let b := endBuffers (startBuffers masked payload) hook
    (if !b.is_swapped then b.move_and_swap else b).second =
      if hook.ret.transferred_input_to_output then hook.output else hook.input := by
  rcases payload_buffers h hc with ⟨ht, hi, ho⟩ | ⟨ht, hi⟩
  · cases masked <;>
      simp [endBuffers, startBuffers, ht, ho, DoubleBuffer.put, DoubleBuffer.swap,
        DoubleBuffer.move_and_swap, DoubleBuffer.input, DoubleBuffer.output]
  · cases masked <;>
      simp [endBuffers, startBuffers, ht, hi, DoubleBuffer.put, DoubleBuffer.swap,
        DoubleBuffer.move_and_swap, DoubleBuffer.input, DoubleBuffer.output]

/-- A parser whose payload segment has just read the wire payload of a frame. -/
structure AtPayload (fp : FrameParser z) (ext : PermessageDeflate z) (f : lib.rfc6455.Frame) :
    Prop where
  exts : fp.extensions_ = [ext]
  segment : fp.payload_segment_ = ⟨true, lib.rfc6455.wirePayload f, []⟩
  content : fp.current_frame_.content = []
  fin : fp.current_frame_.fin = f.fin
  type : fp.current_frame_.type = Opcode.cast f.opcode
  mask_bit : fp.current_frame_.mask_bit = f.maskKey.isSome
  mask_key : ∀ k, f.maskKey = some k →
    fp.current_frame_.mask_key = lib.big_endian.ofBigEndian k.toList

theorem AtPayload.buffers {fp : FrameParser z} {ext : PermessageDeflate z} {f : lib.rfc6455.Frame}
    (h : AtPayload fp ext f) :
    (if fp.current_frame_.mask_bit then
      ((⟨fp.payload_segment_.committed, fp.current_frame_.content, false⟩ : DoubleBuffer).put []
        ((⟨fp.payload_segment_.committed, fp.current_frame_.content, false⟩ :
            DoubleBuffer).output ++
          xor_mask fp.current_frame_.mask_key 0
            (⟨fp.payload_segment_.committed, fp.current_frame_.content, false⟩ :
              DoubleBuffer).input)).swap
    else ⟨fp.payload_segment_.committed, fp.current_frame_.content, false⟩) =
      startBuffers f.maskKey.isSome f.payload := by
  rw [h.mask_bit, h.segment, h.content]
  rcases hk : f.maskKey with _ | k
  · simp [startBuffers, lib.rfc6455.wirePayload, hk]
  · simp [startBuffers, lib.rfc6455.wirePayload, hk, h.mask_key k hk, DoubleBuffer.put,
      DoubleBuffer.swap, DoubleBuffer.output, DoubleBuffer.input, unmask_read]

@[simp] theorem startBuffers_input (masked : Bool) (payload : List UInt8) :
    (startBuffers masked payload).input = payload := by cases masked <;> rfl

@[simp] theorem startBuffers_output (masked : Bool) (payload : List UInt8) :
    (startBuffers masked payload).output = [] := by cases masked <;> rfl

theorem complete_hooks_one (ext : PermessageDeflate z) (fh : FrameHeader) :
    run_complete_hooks fh [ext] = ([(on_inbound_frame_complete ext fh).1], none) := by
  have hnone : (on_inbound_frame_complete ext fh).2.close = none := by
    unfold on_inbound_frame_complete
    split
    · rfl
    · split <;> rfl
  simp only [run_complete_hooks, hnone]

/-- What is returned for a frame, and what the parser is after it. -/
structure Returns (fp : FrameParser z) (f : lib.rfc6455.Frame) (ext : PermessageDeflate z)
    (content rest : List UInt8) (call : ParseCall z) : Prop where
  frame : ∃ g, call.parsed = .frame g ∧ g.type = (effectiveOpcode fp f).1 ∧ g.fin = f.fin ∧
    g.content = content
  input : call.input = rest
  idle : Idle call.parser
  exts : call.parser.extensions_ = [ext]
  destination : call.parser.destination_ = fp.destination_
  expected : call.parser.effective_opcode_in_ = (effectiveOpcode fp f).2

/-- What a call leaves that made the payload hook and the one after it. -/
def Hooked (fp : FrameParser z) (f : lib.rfc6455.Frame) (ext : PermessageDeflate z)
    (rest : List UInt8) (call : ParseCall z) : Prop :=
  match on_inbound_frame_payload ext f.payload [] with
  | .error e => call.parsed = .error e
  | .ok hook =>
    match hook.ret.close with
    | some code => call.parsed = .close code ∧ call.parser.extensions_ = [hook.ext]
    | none =>
      Returns fp f (on_inbound_frame_complete hook.ext (headerOf f)).1
        (if hook.ret.transferred_input_to_output then hook.output else hook.input) rest call

theorem hooked_process_payload {fp fp0 : FrameParser z} {ext : PermessageDeflate z}
    {f : lib.rfc6455.Frame} (h : AtPayload fp ext f) (hheader : fp.header_segment_ = .new)
    (hlength : fp.payload_length_segment_ = .new) (hkey : fp.mask_key_segment_ = .new)
    (hd : fp.destination_ = fp0.destination_)
    (hin : fp.effective_opcode_in_ = fp0.effective_opcode_in_) (rest : List UInt8) :
    Hooked fp0 f ext rest (process_payload fp rest).call := by
  unfold Hooked process_payload
  simp only [h.buffers, h.exts, run_payload_hooks, startBuffers_input, startBuffers_output]
  rcases hp : on_inbound_frame_payload ext f.payload [] with e | hook
  · rfl
  · simp only [bind, Except.bind]
    rcases hc : hook.ret.close with _ | code
    · have hcontent := endBuffers_content hp hc f.maskKey.isSome
      have hcomplete : ∀ fh : FrameHeader, fh.fin = f.fin →
          on_inbound_frame_complete hook.ext fh =
            on_inbound_frame_complete hook.ext (headerOf f) := by
        intro fh hfin
        have hfin' : (headerOf f).fin = f.fin := rfl
        rw [on_inbound_frame_complete, on_inbound_frame_complete, hfin, hfin']
      simp only [complete_hooks_one, complete_frame, Stage.call]
      refine ⟨⟨_, rfl, ?_, h.fin, ?_⟩, rfl, ⟨rfl, hheader, hlength, hkey, rfl, rfl⟩, ?_, hd, ?_⟩
      · simp only [effectiveOpcode, hin, h.type, h.fin]
      · exact hcontent
      · exact congrArg (fun c => [c.1]) (hcomplete _ h.fin)
      · simp only [effectiveOpcode, hin, h.type, h.fin]
    · exact ⟨rfl, rfl⟩

/-- From the mask key on. -/
theorem hooked_from_mask_key (fp fp0 : FrameParser z) {ext : PermessageDeflate z}
    {f : lib.rfc6455.Frame} (hs : fp.state_ = .mask_key) (hexts : fp.extensions_ = [ext])
    (hheader : fp.header_segment_ = .new) (hlength : fp.payload_length_segment_ = .new)
    (hkey : fp.mask_key_segment_ = .new) (hpayload : fp.payload_segment_ = .new)
    (hd : fp.destination_ = fp0.destination_)
    (hin : fp.effective_opcode_in_ = fp0.effective_opcode_in_)
    (hframe : ∃ key, fp.current_frame_ =
      { headerOf f with mask_key := key, content := [] })
    (hn : f.payload.length < 2 ^ 31) (rest : List UInt8) :
    Hooked fp0 f ext rest
      (((parse_mask_key fp ((f.maskKey.map lib.rfc6455.MaskKey.toList).getD [] ++
        (lib.rfc6455.wirePayload f ++ rest))).bind parse_payload).call) := by
  obtain ⟨key, hframe⟩ := hframe
  have hlen : (lib.rfc6455.wirePayload f).length = (headerOf f).payload_length :=
    lib.rfc6455.length_wirePayload f
  have hn : (headerOf f).payload_length < 2 ^ 31 := hn
  rw [parse_mask_key, if_neg (by simp [hs])]
  rcases hk : f.maskKey with _ | k
  · have hbit : fp.current_frame_.mask_bit = false := by rw [hframe]; simp [headerOf, hk]
    rw [hbit]
    simp only [Bool.not_false, if_true, Option.map_none, Option.getD_none, List.nil_append,
      Stage.bind]
    rw [parse_payload, if_neg (by simp)]
    simp only [hpayload, hframe]
    rw [read_segment_new hlen hn]
    refine hooked_process_payload ?_ ?_ ?_ ?_ ?_ ?_ rest
    · exact ⟨hexts, rfl, rfl, rfl, rfl, rfl, fun k' h' => by rw [hk] at h'; cases h'⟩
    all_goals assumption
  · have hbit : fp.current_frame_.mask_bit = true := by rw [hframe]; simp [headerOf, hk]
    rw [hbit]
    simp only [Bool.not_true, Bool.false_eq_true, if_false, Option.map_some, Option.getD_some, hkey]
    rw [read_segment_new (show k.toList.length = 4 from rfl) (by decide)]
    simp only [Stage.bind]
    rw [parse_payload, if_neg (by simp)]
    simp only [hpayload, hframe]
    rw [read_segment_new hlen hn]
    refine hooked_process_payload ?_ ?_ ?_ ?_ ?_ ?_ rest
    · refine ⟨hexts, rfl, rfl, rfl, rfl, rfl, fun k' h' => ?_⟩
      rw [hk] at h'
      cases h'
      exact parse_key k
    · exact hheader
    · exact hlength
    · rfl
    · exact hd
    · exact hin

theorem check_mask_one {fp : FrameParser z} {ext : PermessageDeflate z}
    (he : fp.extensions_ = [ext])
    (hm : fp.current_frame_.mask_bit = decide (fp.destination_ = .server)) (inp : List UInt8) :
    check_mask fp inp =
      let hook := on_inbound_frame_header ext fp.current_frame_.toFrameHeader
      match hook.2.close with
      | some code => .stop ⟨{ fp with extensions_ := [hook.1] }, inp, .close code⟩
      | none => .go { fp with extensions_ := [hook.1], state_ := .mask_key } inp := by
  unfold check_mask
  simp only [he, run_header_hooks, hm]
  rcases (on_inbound_frame_header ext fp.current_frame_.toFrameHeader).2.close with _ | code
  · cases fp.destination_ <;> rfl
  · rfl

theorem Stage.go_bind (fp : FrameParser z) (inp : List UInt8)
    (next : FrameParser z → List UInt8 → Stage z) : (Stage.go fp inp).bind next = next fp inp := rfl

/-- A call of `parse` on a frame makes the three hooks of the frame. -/
theorem parse_makes_the_hooks {fp : FrameParser z} {ext : PermessageDeflate z}
    {f : lib.rfc6455.Frame} (hi : Idle fp) (he : fp.extensions_ = [ext]) (ht : Takes fp f)
    (hm : f.maskKey.isSome = decide (fp.destination_ = .server)) (hn : f.payload.length < 2 ^ 31)
    (rest : List UInt8) :
    match inbound_hooks ext (headerOf f) f.payload with
    | .error e => (parse fp (lib.rfc6455.encode f ++ rest)).parsed = .error e
    | .ok call =>
      match call.close with
      | some code => (parse fp (lib.rfc6455.encode f ++ rest)).parsed = .close code ∧
          (parse fp (lib.rfc6455.encode f ++ rest)).parser.extensions_ = [call.ext]
      | none => Returns fp f call.ext call.content rest
          (parse fp (lib.rfc6455.encode f ++ rest)) := by
  -- The hook goes by fields that the parser has from the frame.
  have hheader : on_inbound_frame_header ext
      (withLength (headed fp f) f.payload.length).current_frame_.toFrameHeader =
        on_inbound_frame_header ext (headerOf f) := rfl
  rw [parse_eq, stages, parse_header_encode hi ht rest]
  simp only [Stage.go_bind]
  rw [parse_payload_length_small (headed fp f) rfl hi.payload_length rfl hn,
    check_mask_one (by exact he) (by exact hm), inbound_hooks]
  simp only [hheader]
  rcases hc : (on_inbound_frame_header ext (headerOf f)).2.close with _ | code
  · simp only [Stage.go_bind]
    have hhooked := hooked_from_mask_key { withLength (headed fp f) f.payload.length with
        extensions_ := [(on_inbound_frame_header ext (headerOf f)).1], state_ := .mask_key }
      fp rfl rfl hi.header rfl hi.mask_key hi.payload rfl rfl
      ⟨fp.current_frame_.mask_key, by
        simp only [withLength, headed, readFrame, headerOf, hi.content]⟩ hn rest
    generalize Stage.call _ = call at hhooked ⊢
    unfold Hooked at hhooked
    rcases hp : on_inbound_frame_payload (on_inbound_frame_header ext (headerOf f)).1 f.payload []
      with e | hook
    · rw [hp] at hhooked
      exact hhooked
    · rw [hp] at hhooked
      simp only [bind, Except.bind] at hhooked ⊢
      rcases hclose : hook.ret.close with _ | code
      · rw [hclose] at hhooked
        exact hhooked
      · rw [hclose] at hhooked
        exact hhooked
  · exact ⟨rfl, rfl⟩

end proxy.websocket.protocol
