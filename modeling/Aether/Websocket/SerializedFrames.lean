-- The calls of `serialize` on a fresh manager without extensions: what they
-- write is read back as the frames that they were given.
import Aether.Lib.Rfc6455Reading
import Aether.Websocket.Fragments
import Aether.Websocket.FrameWriting

open util.bytes lib.big_endian
open lib.rfc6455 (DataType Item)

namespace proxy.websocket.protocol

open extensions

variable {z : Zlib}

/-! ## The calls -/

/-- What a sequence of calls leaves: the parser of the manager, the output buffer, and the frames
that the calls without an error were given. -/
structure SerializeCalls (z : Zlib) where
  parser : FrameParser z
  output : List UInt8
  passed : List CompletedFrame

/-- One call of `websocket_manager::serialize`. -/
def serialize_call (calls : SerializeCalls z) (frame : CompletedFrame) : SerializeCalls z :=
  let call := manager_serialize calls.parser frame
  match call.written with
  | .error _ => { calls with parser := call.parser }
  | .ok bytes => ⟨call.parser, calls.output ++ bytes, calls.passed ++ [frame]⟩

def serialize_calls (calls : SerializeCalls z) (frames : List CompletedFrame) :
    SerializeCalls z := frames.foldl serialize_call calls

/-- No call was made. -/
def SerializeCalls.start (destination : Endpoint) (generator : Nat → UInt32) : SerializeCalls z :=
  ⟨.new destination [] generator, [], []⟩

/-! ## What a frame says -/

/-- The type of a message frame. -/
def dataType : Opcode → DataType
  | .text => .text
  | _ => .binary

/-- What a reader gets of a frame. -/
def item : CompletedFrame → Item
  | .close f => .close (some f.code.value) f.reason
  | .ping payload => .ping payload
  | .pong payload => .pong payload
  | .message f => .data ⟨dataType f.type, f.payload, f.finished⟩

/-- A frame that a call may be given: a close code has two bytes, a message frame is one of text or
of bytes, and its length is below `2 ^ 63`. -/
def Given : CompletedFrame → Prop
  | .close f => f.code.value < 2 ^ 16
  | .ping _ => True
  | .pong _ => True
  | .message f => (f.type = .text ∨ f.type = .binary) ∧ f.payload.length < 2 ^ 63

theorem typeOpcode_dataType {type : Opcode} (h : type = .text ∨ type = .binary) :
    typeOpcode (dataType type) = type := by
  rcases h with rfl | rfl <;> rfl

/-! ## The frames that were written -/

/-- A reader has read the output as `ws`, and gets the frames that were passed. -/
structure Written (destination : Endpoint) (calls : SerializeCalls z)
    (ws : List lib.rfc6455.Frame) (progress : Option DataType) : Prop where
  exts : calls.parser.extensions_ = []
  towards : calls.parser.destination_ = destination
  expected : calls.parser.effective_opcode_out_ = progress.map typeOpcode
  output : calls.output = lib.rfc6455.encodeAll ws
  short : ∀ w ∈ ws, w.payload.length < 2 ^ 63
  masked : ∀ w ∈ ws, w.maskKey.isSome = decide (destination = .server)
  read : lib.rfc6455.readFrames none ws = some (progress, calls.passed.map item)

theorem written_start (destination : Endpoint) (generator : Nat → UInt32) :
    Written destination (SerializeCalls.start destination generator : SerializeCalls z) [] none :=
  ⟨rfl, rfl, rfl, rfl, by simp, by simp, rfl⟩

/-- What one call does: it refuses the frame and leaves all but nothing, or it writes one frame that
brings what it was given. -/
inductive Step (calls : SerializeCalls z) (progress : Option DataType) (frame : CompletedFrame) :
    Prop where
  | refused (e : Error) (h : manager_serialize calls.parser frame = ⟨calls.parser, .error e⟩)
  | wrote (fp : FrameParser z) (w : lib.rfc6455.Frame) (progress' : Option DataType)
    (h : manager_serialize calls.parser frame = ⟨fp, .ok (lib.rfc6455.encode w)⟩)
    (exts : fp.extensions_ = []) (towards : fp.destination_ = calls.parser.destination_)
    (expected : fp.effective_opcode_out_ = progress'.map typeOpcode)
    (short : w.payload.length < 2 ^ 63)
    (masked : w.maskKey.isSome = decide (calls.parser.destination_ = .server))
    (read : lib.rfc6455.readFrame progress w = some (progress', item frame))

theorem serialize_frame_refused {fp : FrameParser z} {type : Opcode} {payload : List UInt8}
    (he : fp.extensions_ = []) (hc : is_control type = true) (hlong : 125 < payload.length)
    (finished : Bool) : serialize_frame fp type payload finished =
      ⟨fp, .error
        (proxy_error .invalid_frame "Control frame payload cannot exceed 125 bytes")⟩ := by
  have hsame : { fp with extensions_ := [] } = fp := by rw [← he]
  have hlength : length_bytes type payload.length = none := by
    unfold length_bytes
    rw [if_neg (by omega), if_pos hc]
  unfold serialize_frame
  simp only [he, run_outbound_hooks, Option.isSome_none, Bool.false_eq_true, if_false,
    DoubleBuffer.input, FrameHeader.zero, hlength, hsame]

/-- A control frame is written where it is short, and refused where it is not. -/
theorem step_control {calls : SerializeCalls z} {progress : Option DataType}
    {frame : CompletedFrame} {type : Opcode} {payload : List UInt8}
    (he : calls.parser.extensions_ = [])
    (hx : calls.parser.effective_opcode_out_ = progress.map typeOpcode)
    (hcall : manager_serialize calls.parser frame = serialize_frame calls.parser type payload true)
    (hc : is_control type = true)
    (hread : payload.length ≤ 125 → lib.rfc6455.readFrame progress
      (wireFrame calls.parser type payload true) = some (progress, item frame)) :
    Step calls progress frame := by
  by_cases hshort : payload.length ≤ 125
  · refine .wrote _ _ progress (hcall.trans (serialize_frame_plain he (fun _ => hshort) true))
      (by simpa using he) (by simp) (by simpa using hx) ?_ ?_ (hread hshort)
    · exact Nat.lt_of_le_of_lt hshort (by decide)
    · exact isSome_wireFrame_key _ _ _ _
  · exact .refused _ (hcall.trans (serialize_frame_refused he hc (by omega) true))

theorem readFrame_close {progress : Option DataType} (fp : FrameParser z) {f : CloseFrame}
    (h : f.code.value < 2 ^ 16)
    (hlen : (util.bytes.insert 2 (f.code.value % 2 ^ 16) ++ f.reason).length ≤ 125) :
    lib.rfc6455.readFrame progress
      (wireFrame fp .close (util.bytes.insert 2 (f.code.value % 2 ^ 16) ++ f.reason) true) =
      some (progress, .close (some f.code.value) f.reason) := by
  rw [Nat.mod_eq_of_lt h, insert_eq_bigEndian] at hlen ⊢
  have hcode : ofBigEndian (bigEndian 2 f.code.value) = f.code.value := ofBigEndian_bigEndian h
  have hlen2 := length_bigEndian 2 f.code.value
  match hb : bigEndian 2 f.code.value, hlen2 with
  | [s0, s1], _ =>
    rw [hb] at hlen hcode
    have hshort : ¬ 125 < ([s0, s1] ++ f.reason).length := by omega
    have hbody : lib.rfc6455.closeBody ([s0, s1] ++ f.reason) =
        some (some f.code.value, f.reason) := by
      rw [← hcode]
      rfl
    simp only [lib.rfc6455.readFrame, wireFrame, lib.rfc6455.Frame.isControl, Opcode.value,
      lib.rfc6455.readControl, hshort, hbody]
    rfl

/-- A message frame is written where its type is the one in progress, and refused where it is not.
-/
theorem step_message {calls : SerializeCalls z} {progress : Option DataType} {f : MessageFrame}
    (he : calls.parser.extensions_ = [])
    (hx : calls.parser.effective_opcode_out_ = progress.map typeOpcode)
    (ht : f.type = .text ∨ f.type = .binary) (hlen : f.payload.length < 2 ^ 63) :
    Step calls progress (.message f) := by
  have hcall : manager_serialize calls.parser (.message f) = serialize_message calls.parser f := by
    rcases f with ⟨type, finished, payload⟩
    rcases ht with rfl | rfl <;> rfl
  have htype := typeOpcode_dataType ht
  have hcontrol : is_control f.type = false := by
    rw [← htype]
    exact is_control_typeOpcode _
  unfold serialize_message at hcall
  rcases progress with _ | type
  · rw [Option.map_none] at hx
    rw [hx] at hcall
    simp only at hcall
    rw [serialize_frame_plain (by exact he) (by simp [hcontrol])] at hcall
    refine .wrote _ _ (if f.finished then none else some (dataType f.type)) hcall
      (by simpa using he)
      (by simp) ?_ hlen ?_ ?_
    · rw [drawn_effective_opcode_out]
      cases f.finished <;> simp [htype]
    · exact isSome_wireFrame_key _ _ _ _
    · rcases f with ⟨type, finished, payload⟩
      rcases ht with rfl | rfl <;> rfl
  · rw [Option.map_some] at hx
    rw [hx] at hcall
    simp only at hcall
    by_cases hsame : typeOpcode type = f.type
    · have hdata : dataType f.type = type := by
        rw [← hsame]
        cases type <;> rfl
      rw [if_neg (not_not_intro hsame),
        serialize_frame_plain (by exact he) (by simp [is_control_continuation])] at hcall
      refine .wrote _ _ (if f.finished then none else some type) hcall (by simpa using he)
        (by simp) ?_ hlen ?_ ?_
      · rw [drawn_effective_opcode_out]
        cases f.finished <;> simp
      · exact isSome_wireFrame_key _ _ _ _
      · rw [item, hdata]
        rfl
    · rw [if_pos hsame] at hcall
      exact .refused _ hcall

/-- What a call does with a frame that it may be given. -/
theorem step {calls : SerializeCalls z} {progress : Option DataType} {frame : CompletedFrame}
    (he : calls.parser.extensions_ = [])
    (hx : calls.parser.effective_opcode_out_ = progress.map typeOpcode) (hg : Given frame) :
    Step calls progress frame := by
  cases frame with
  | close f =>
    exact step_control he hx rfl (by decide) (readFrame_close calls.parser hg)
  | ping payload =>
    refine step_control he hx rfl (by decide) fun hlen => ?_
    have hshort : ¬ 125 < payload.length := by omega
    simp only [lib.rfc6455.readFrame, wireFrame, lib.rfc6455.Frame.isControl, Opcode.value,
      lib.rfc6455.readControl, hshort]
    rfl
  | pong payload =>
    refine step_control he hx rfl (by decide) fun hlen => ?_
    have hshort : ¬ 125 < payload.length := by omega
    simp only [lib.rfc6455.readFrame, wireFrame, lib.rfc6455.Frame.isControl, Opcode.value,
      lib.rfc6455.readControl, hshort]
    rfl
  | message f => exact step_message he hx hg.1 hg.2

theorem written_call {destination : Endpoint} {calls : SerializeCalls z}
    {ws : List lib.rfc6455.Frame} {progress : Option DataType} {frame : CompletedFrame}
    (hw : Written destination calls ws progress) (hg : Given frame) :
    ∃ ws' progress', Written destination (serialize_call calls frame) ws' progress' := by
  unfold serialize_call
  cases step hw.exts hw.expected hg with
  | refused e h =>
    rw [h]
    exact ⟨ws, progress, hw.exts, hw.towards, hw.expected, hw.output, hw.short, hw.masked, hw.read⟩
  | wrote fp w progress' h exts towards expected short masked read =>
    rw [h]
    refine ⟨ws ++ [w], progress', exts, towards.trans hw.towards, expected, ?_, ?_, ?_, ?_⟩
    · simp only [hw.output, lib.rfc6455.encodeAll_snoc]
    · intro v hv
      rcases List.mem_append.mp hv with hv | hv
      · exact hw.short v hv
      · rw [List.mem_singleton.mp hv]
        exact short
    · intro v hv
      rcases List.mem_append.mp hv with hv | hv
      · exact hw.masked v hv
      · rw [List.mem_singleton.mp hv, masked, hw.towards]
    · rw [List.map_append]
      exact lib.rfc6455.readFrames_snoc hw.read read

theorem written_calls {destination : Endpoint} {frames : List CompletedFrame}
    (hg : ∀ f ∈ frames, Given f) {calls : SerializeCalls z} {ws : List lib.rfc6455.Frame}
    {progress : Option DataType} (hw : Written destination calls ws progress) :
    ∃ ws' progress', Written destination (serialize_calls calls frames) ws' progress' := by
  induction frames generalizing calls ws progress with
  | nil => exact ⟨ws, progress, hw⟩
  | cons frame frames ih =>
    obtain ⟨ws', progress', hw'⟩ := written_call hw (hg frame (List.mem_cons_self ..))
    exact ih (fun f hf => hg f (List.mem_cons_of_mem _ hf)) hw'

/-! ## The law -/

/-- The output reads as the frames that were passed, with the fewest bytes of length, masks towards
a server only, and every fragment where it may stand. -/
def ReadBack (destination : Endpoint) (calls : SerializeCalls z) : Prop :=
  ∃ ws progress, lib.rfc6455.decodeAll calls.output = some ws ∧
    calls.output = lib.rfc6455.encodeAll ws ∧
    (∀ w ∈ ws, w.maskKey.isSome = decide (destination = .server)) ∧
    lib.rfc6455.readFrames none ws = some (progress, calls.passed.map item)

/-- For any calls on a fresh manager, the output reads back as the frames of those that did not
fail, and one that fails writes nothing and leaves the fragmentation as it was. -/
theorem what_is_serialized_is_read_back (destination : Endpoint) (generator : Nat → UInt32)
    (frames : List CompletedFrame) (hg : ∀ f ∈ frames, Given f) :
    ReadBack destination
        (serialize_calls (.start destination generator) frames : SerializeCalls z) ∧
      ∀ before frame after, frames = before ++ frame :: after →
        ∀ e, (manager_serialize
            (serialize_calls (.start destination generator : SerializeCalls z) before).parser
            frame).written = .error e →
          (serialize_calls (.start destination generator : SerializeCalls z)
              (before ++ [frame])).output =
            (serialize_calls (.start destination generator : SerializeCalls z) before).output ∧
          (serialize_calls (.start destination generator : SerializeCalls z)
              (before ++ [frame])).parser.effective_opcode_out_ =
            (serialize_calls (.start destination generator : SerializeCalls z)
              before).parser.effective_opcode_out_ := by
  have hstart := written_start (z := z) destination generator
  constructor
  · obtain ⟨ws, progress, hw⟩ := written_calls hg hstart
    refine ⟨ws, progress, ?_, hw.output, hw.masked, hw.read⟩
    rw [hw.output]
    exact lib.rfc6455.decodeAll_encodeAll hw.short
  · intro before frame after hframes e herror
    subst hframes
    obtain ⟨ws, progress, hw⟩ := written_calls
      (fun f hf => hg f (List.mem_append_left _ hf)) hstart
    have hframe := hg frame (by simp)
    simp only [serialize_calls, List.foldl_append, List.foldl_cons, List.foldl_nil] at hw herror ⊢
    generalize List.foldl serialize_call _ before = calls at hw herror
    unfold serialize_call
    cases step hw.exts hw.expected hframe with
    | refused e' h =>
      rw [h]
      exact ⟨rfl, rfl⟩
    | wrote fp w progress' h =>
      rw [h] at herror
      cases herror

/-- Calls to a server, of which one is refused in the middle of a message. -/
theorem a_message_is_read_back_around_a_refused_call :
    ReadBack .server (serialize_calls (.start .server (fun _ => 7) : SerializeCalls .inert)
      [.message ⟨.text, false, [1, 2]⟩, .message ⟨.binary, true, [3]⟩, .ping [4],
        .message ⟨.text, true, []⟩, .close ⟨⟨1000⟩, [5]⟩]) :=
  (what_is_serialized_is_read_back .server (fun _ => 7) _ (by simp [Given])).1

end proxy.websocket.protocol
