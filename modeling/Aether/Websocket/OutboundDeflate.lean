-- The frames of a compressed message towards an endpoint: what is cut off
-- behind each frame, and what a receiver adds once behind the last.
import Aether.Lib.Rfc6455Headers
import Aether.Websocket.Fragments
import Aether.Websocket.FrameWriting

open util.bytes
open lib.rfc6455 (DataType)

namespace proxy.websocket.protocol

open extensions

variable {z : Zlib}

/-! ## What zlib makes of a chunk -/

/-- What zlib says of `deflate`: the calls for a chunk take it, and what is flushed behind it ends
with the flush marker. -/
structure Flushes (z : Zlib) : Prop where
  takes : ∀ (stream : z.Deflate) (data : List UInt8), data ≠ [] →
    (deflate_loop stream data []).failed = false
  flushes : ∀ (stream : z.Deflate) (data : List UInt8) (flush : Flush), data ≠ [] →
    flush ≠ .block →
    (z.deflate (deflate_loop stream data []).stream flush [] (flush_marker.length + 2)).ret = .ok ∧
    flush_marker <:+
      (z.deflate (deflate_loop stream data []).stream flush [] (flush_marker.length + 2)).output

/-- The call that flushes what the loop left. -/
def flush_call (ext : PermessageDeflate z) (payload : List UInt8) : ZCall z.Deflate :=
  z.deflate (deflate_loop ext.deflate_stream_ payload []).stream ext.flush_ []
    (flush_marker.length + 2)

/-- The whole of a flushed chunk. The constant stands for one of no bytes. -/
def flushed_chunk (ext : PermessageDeflate z) (payload : List UInt8) : List UInt8 :=
  if payload = [] then empty_content
  else (deflate_loop ext.deflate_stream_ payload []).output ++ (flush_call ext payload).output

/-- The extension behind a chunk. -/
def flushed_ext (ext : PermessageDeflate z) (payload : List UInt8) : PermessageDeflate z :=
  if payload = [] then ext else { ext with deflate_stream_ := (flush_call ext payload).stream }

/-- The stream of a whole message, chunk after chunk, each of them flushed. -/
def flushed_stream (ext : PermessageDeflate z) : List (List UInt8) → List UInt8
  | [] => []
  | p :: ps => flushed_chunk ext p ++ flushed_stream (flushed_ext ext p) ps

/-- What a frame takes of its chunk: all but the marker, and all of the constant. -/
def framed_chunk (ext : PermessageDeflate z) (payload : List UInt8) : List UInt8 :=
  if payload = [] then empty_content
  else (flushed_chunk ext payload).take ((flushed_chunk ext payload).length - flush_marker.length)

def framed_stream (ext : PermessageDeflate z) : List (List UInt8) → List UInt8
  | [] => []
  | p :: ps => framed_chunk ext p ++ framed_stream (flushed_ext ext p) ps

@[simp] theorem flushed_ext_flush (ext : PermessageDeflate z) (payload : List UInt8) :
    (flushed_ext ext payload).flush_ = ext.flush_ := by
  unfold flushed_ext
  split <;> rfl

theorem Flushes.marked (hz : Flushes z) {ext : PermessageDeflate z} (hflush : ext.flush_ ≠ .block)
    {payload : List UInt8} (hp : payload ≠ []) :
    flushed_chunk ext payload = framed_chunk ext payload ++ flush_marker := by
  obtain ⟨front, hfront⟩ := (hz.flushes ext.deflate_stream_ payload ext.flush_ hp hflush).2
  unfold framed_chunk flushed_chunk flush_call
  simp only [if_neg hp, ← hfront, ← List.append_assoc]
  congr 1
  rw [List.length_append, Nat.add_sub_cancel, List.take_left]

/-! ## One marker behind all frames -/

/-- Behind the first chunk with a marker no other may come. -/
theorem framed_stream_marked_iff (hz : Flushes z) {ext : PermessageDeflate z}
    (hflush : ext.flush_ ≠ .block) (payloads : List (List UInt8)) :
    framed_stream ext payloads ++ flush_marker = flush_marker ++ flushed_stream ext payloads ↔
      payloads = [] := by
  constructor
  · -- Every chunk with bytes has four more when it is flushed.
    have hle : ∀ (payloads : List (List UInt8)) (ext : PermessageDeflate z), ext.flush_ ≠ .block →
        (framed_stream ext payloads).length ≤ (flushed_stream ext payloads).length := by
      intro payloads
      induction payloads with
      | nil => exact fun _ _ => Nat.le_refl _
      | cons p ps ih =>
        intro ext hflush
        have hrest := ih (flushed_ext ext p) (by rwa [flushed_ext_flush])
        simp only [framed_stream, flushed_stream, List.length_append]
        by_cases hp : p = []
        · simp only [framed_chunk, flushed_chunk, if_pos hp]
          omega
        · rw [hz.marked hflush hp, List.length_append]
          omega
    intro h
    cases payloads with
    | nil => rfl
    | cons p ps =>
      by_cases hp : p = []
      · simp [framed_stream, framed_chunk, hp, empty_content, flush_marker] at h
      · have hlength := congrArg List.length h
        have hrest := hle ps (flushed_ext ext p) (by rwa [flushed_ext_flush])
        have hmarker : flush_marker.length = 4 := rfl
        rw [framed_stream, flushed_stream, hz.marked hflush hp] at hlength
        simp only [List.length_append] at hlength
        omega
  · rintro rfl
    rfl

/-- The one filled chunk is the last. -/
def LastFilled (payloads : List (List UInt8)) : Prop :=
  ∃ n p, payloads = List.replicate n [] ++ [p] ∧ p ≠ []

theorem lastFilled_cons_nil {payloads : List (List UInt8)} :
    LastFilled ([] :: payloads) ↔ LastFilled payloads := by
  constructor
  · rintro ⟨n, p, h, hp⟩
    cases n with
    | zero =>
      simp only [List.replicate_zero, List.nil_append, List.cons.injEq] at h
      exact absurd h.1.symm hp
    | succ n =>
      simp only [List.replicate_succ, List.cons_append, List.cons.injEq, true_and] at h
      exact ⟨n, p, h, hp⟩
  · rintro ⟨n, p, rfl, hp⟩
    exact ⟨n + 1, p, rfl, hp⟩

theorem lastFilled_cons {p : List UInt8} {payloads : List (List UInt8)} (hp : p ≠ []) :
    LastFilled (p :: payloads) ↔ payloads = [] := by
  constructor
  · rintro ⟨n, q, h, -⟩
    cases n with
    | zero =>
      simp only [List.replicate_zero, List.nil_append, List.cons.injEq] at h
      exact h.2
    | succ n =>
      simp only [List.replicate_succ, List.cons_append, List.cons.injEq] at h
      exact absurd h.1 hp
  · rintro rfl
    exact ⟨0, p, rfl, hp⟩

theorem framed_stream_iff (hz : Flushes z) {ext : PermessageDeflate z}
    (hflush : ext.flush_ ≠ .block) (payloads : List (List UInt8)) :
    framed_stream ext payloads ++ flush_marker = flushed_stream ext payloads ↔
      LastFilled payloads := by
  induction payloads generalizing ext with
  | nil =>
    constructor
    · intro h
      cases h
    · rintro ⟨n, p, h, -⟩
      simp at h
  | cons p ps ih =>
    rw [framed_stream, flushed_stream]
    by_cases hp : p = []
    · subst hp
      have hflush' : (flushed_ext ext []).flush_ ≠ .block := by rwa [flushed_ext_flush]
      rw [lastFilled_cons_nil, ← ih hflush']
      simp only [framed_chunk, flushed_chunk, if_true, List.append_assoc,
        List.append_cancel_left_eq]
    · have hflush' : (flushed_ext ext p).flush_ ≠ .block := by rwa [flushed_ext_flush]
      rw [lastFilled_cons hp, hz.marked hflush hp, ← framed_stream_marked_iff hz hflush']
      simp only [List.append_assoc, List.append_cancel_left_eq]

/-! ## The calls of a message -/

/-- What each of the calls wrote, or its error. -/
def written_each (fp : FrameParser z) : List CompletedFrame → List (Except Error (List UInt8))
  | [] => []
  | f :: fs =>
    let call := manager_serialize fp f
    call.written :: written_each call.parser fs

/-- A frame that the extension has been through. -/
def compressedFrame (fp : FrameParser z) (type : Opcode) (content : List UInt8) (finished : Bool) :
    lib.rfc6455.Frame :=
  { wireFrame fp type content finished with rsv1 := type ≠ .continuation }

/-- The outbound hook on a chunk that is not too long for `gbump`. -/
theorem outbound_hook (hz : Flushes z) {ext : PermessageDeflate z} (hflush : ext.flush_ ≠ .block)
    (fh : FrameHeader) (htype : is_control fh.type = false) {payload : List UInt8}
    (hlen : payload.length < 2 ^ 31) :
    ∃ input, on_outbound_frame ext fh payload [] = .ok ⟨flushed_ext ext payload,
      if fh.type ≠ .continuation then { fh with rsv := { fh.rsv with rsv1 := true } } else fh,
      input, framed_chunk ext payload, ⟨true, none⟩⟩ := by
  have hdata : opcode_is_compressible fh.type = true := by rw [opcode_is_compressible, htype]; rfl
  unfold on_outbound_frame
  simp only [hdata, Bool.not_true, Bool.false_eq_true, if_false]
  by_cases hp : payload = []
  · subst hp
    refine ⟨[], ?_⟩
    simp only [List.length_nil, if_true, List.nil_append, flushed_ext, framed_chunk]
  · have hne : payload.length ≠ 0 := fun h => hp (List.length_eq_zero_iff.mp h)
    have hall : payload.take (payload.length % 2 ^ 32) = payload := by
      rw [Nat.mod_eq_of_lt (by omega), List.take_length]
    have hconsume : consume_all payload = .ok [] := by
      unfold consume_all
      rw [if_pos (toInt_of_lt hlen)]
    obtain ⟨hret, hmarker⟩ := hz.flushes ext.deflate_stream_ payload ext.flush_ hp hflush
    have hroom := hmarker.length_le
    refine ⟨[], ?_⟩
    rw [if_neg hne]
    simp only [hall]
    rw [if_neg (by simp [hz.takes _ _ hp])]
    simp only [hret]
    rw [if_neg (by simp), if_neg (Nat.not_lt.mpr hroom), hconsume]
    change Except.ok _ = Except.ok _
    rw [Except.ok.injEq, OutboundHook.mk.injEq]
    refine ⟨?_, rfl, rfl, ?_, rfl⟩
    · rw [flushed_ext, if_neg hp, flush_call]
    · rw [framed_chunk, flushed_chunk, flush_call, if_neg hp, if_neg hp, List.length_append,
        Nat.add_sub_assoc hroom, List.take_length_add_append]

/-- What the hook leaves of the frame. -/
theorem outbound_hooks (hz : Flushes z) {ext : PermessageDeflate z} (hflush : ext.flush_ ≠ .block)
    {fp : FrameParser z} (he : fp.extensions_ = [ext]) {type : Opcode}
    (htype : is_control type = false) {payload : List UInt8} (hlen : payload.length < 2 ^ 31)
    (finished : Bool) :
    ∃ buffers, run_outbound_hooks fp.extensions_ (outboundHeader fp type finished false)
        ⟨payload, [], false⟩ =
      .ok ⟨[flushed_ext ext payload], outboundHeader fp type finished (type ≠ .continuation),
        buffers,
        none⟩ ∧ buffers.input = framed_chunk ext payload := by
  obtain ⟨input, hhook⟩ :=
    outbound_hook hz hflush (outboundHeader fp type finished false) htype hlen
  have hheader : (if type ≠ .continuation then outboundHeader fp type finished true
      else outboundHeader fp type finished false) =
      outboundHeader fp type finished (type ≠ .continuation) := by
    by_cases h : type = .continuation
    · simp [h]
    · simp [h]
  refine ⟨⟨input, framed_chunk ext payload, true⟩, ?_, rfl⟩
  rw [he, ← hheader]
  simp only [run_outbound_hooks, DoubleBuffer.input, DoubleBuffer.output, Bool.false_eq_true,
    if_false,
    hhook, bind, Except.bind, DoubleBuffer.put, if_true]
  rfl

theorem serialize_frame_compressed (hz : Flushes z) {ext : PermessageDeflate z}
    (hflush : ext.flush_ ≠ .block) {fp : FrameParser z} (he : fp.extensions_ = [ext])
    {type : Opcode} (htype : is_control type = false) {payload : List UInt8}
    (hlen : payload.length < 2 ^ 31) (finished : Bool) :
    serialize_frame fp type payload finished =
      ⟨drawn { fp with extensions_ := [flushed_ext ext payload] }, .ok (lib.rfc6455.encode
        (compressedFrame fp type (framed_chunk ext payload) finished))⟩ := by
  obtain ⟨buffers, hhooks, hinput⟩ := outbound_hooks hz hflush he htype hlen finished
  have hcall := serialize_frame_hooked hhooks (by simp [htype])
  rw [hinput] at hcall
  exact hcall

/-- A chunk that is too long for `gbump` is not passed on, whatever zlib makes of it. -/
theorem outbound_hook_long (ext : PermessageDeflate z) (fh : FrameHeader)
    (htype : is_control fh.type = false) {payload : List UInt8} (hlen : 2 ^ 31 ≤ payload.length) :
    (∃ e, on_outbound_frame ext fh payload [] = .error e) ∨
      ∃ hook, on_outbound_frame ext fh payload [] = .ok hook ∧ hook.ret.close.isSome = true := by
  have hdata : opcode_is_compressible fh.type = true := by rw [opcode_is_compressible, htype]; rfl
  have hne : payload.length ≠ 0 := by omega
  have hconsume : consume_all payload = .error .undefined := by
    unfold consume_all
    rw [if_neg]
    unfold toInt
    rw [Int.bmod_def]
    split <;> omega
  unfold on_outbound_frame
  simp only [hdata, Bool.not_true, Bool.false_eq_true, if_false]
  rw [if_neg hne]
  split
  · exact .inr ⟨_, rfl, rfl⟩
  · split
    · exact .inr ⟨_, rfl, rfl⟩
    · split
      · exact .inl ⟨_, rfl⟩
      · rw [hconsume]
        exact .inl ⟨_, rfl⟩

theorem serialize_frame_long {ext : PermessageDeflate z} {fp : FrameParser z}
    (he : fp.extensions_ = [ext]) {type : Opcode} (htype : is_control type = false)
    {payload : List UInt8} (hlen : 2 ^ 31 ≤ payload.length) (finished : Bool) :
    ∃ e, (serialize_frame fp type payload finished).written = .error e := by
  have hhook := outbound_hook_long ext (outboundHeader fp type finished false) htype hlen
  unfold outboundHeader at hhook
  unfold serialize_frame
  simp only [he, run_outbound_hooks, FrameHeader.zero, DoubleBuffer.input, DoubleBuffer.output,
    Bool.false_eq_true, if_false]
  rcases hhook with ⟨e, h⟩ | ⟨hook, h, hclose⟩
  · rw [h]
    exact ⟨e, rfl⟩
  · rw [h]
    obtain ⟨code, hcode⟩ := Option.isSome_iff_exists.mp hclose
    simp [bind, Except.bind, hcode]

/-- Where the parser is in a message of the type, and the opcode of its next frame. -/
inductive Sending (type : DataType) (fp : FrameParser z) : Opcode → Prop where
  | first (h : fp.effective_opcode_out_ = none) : Sending type fp (typeOpcode type)
  | next (h : fp.effective_opcode_out_ = some (typeOpcode type)) : Sending type fp .continuation

theorem Sending.is_control {type : DataType} {fp : FrameParser z} {opcode : Opcode}
    (h : Sending type fp opcode) : is_control opcode = false := by
  cases h with
  | first => exact is_control_typeOpcode type
  | next => exact is_control_continuation

theorem Sending.call {type : DataType} {fp : FrameParser z} {opcode : Opcode}
    (h : Sending type fp opcode) (payload : List UInt8) (finished : Bool) :
    manager_serialize fp (.message ⟨typeOpcode type, finished, payload⟩) =
      serialize_frame
        { fp with effective_opcode_out_ := if finished then none else some (typeOpcode type) }
        opcode payload finished := by
  have hcall : manager_serialize fp (.message ⟨typeOpcode type, finished, payload⟩) =
      serialize_message fp ⟨typeOpcode type, finished, payload⟩ := by cases type <;> rfl
  rw [hcall, serialize_message]
  cases h with
  | first h => rw [h]
  | next h => simp only [h, ne_eq, not_true_eq_false, if_false]

/-- The frames of a message, each of them cut. -/
theorem written_each_short (hz : Flushes z) {type : DataType} {payloads : List (List UInt8)}
    (hlen : ∀ p ∈ payloads, p.length < 2 ^ 31) {ext : PermessageDeflate z}
    (hflush : ext.flush_ ≠ .block) {fp : FrameParser z} (he : fp.extensions_ = [ext])
    {opcode : Opcode} (hs : Sending type fp opcode) :
    ∃ ws : List lib.rfc6455.Frame,
      written_each fp (messageFrames (typeOpcode type) payloads) =
        ws.map (fun w => .ok (lib.rfc6455.encode w)) ∧
      ws.flatMap lib.rfc6455.Frame.payload = framed_stream ext payloads ∧
      (∀ w ∈ ws.head?, w.rsv1 = decide (opcode ≠ .continuation)) ∧
      ∀ w ∈ ws.tail, w.rsv1 = false := by
  induction payloads generalizing ext fp opcode with
  | nil => exact ⟨[], rfl, rfl, by simp, by simp⟩
  | cons p ps ih =>
    have hp : p.length < 2 ^ 31 := hlen p (List.mem_cons_self ..)
    have hcall (finished : Bool) := (hs.call p finished).trans
      (serialize_frame_compressed hz hflush (by exact he) hs.is_control hp finished)
    cases ps with
    | nil =>
      refine ⟨[_], by rw [messageFrames, written_each, hcall]; rfl, ?_, ?_, by simp⟩
      · simp [compressedFrame, wireFrame, framed_stream]
      · simp [compressedFrame]
    | cons q qs =>
      have hflush' : (flushed_ext ext p).flush_ ≠ .block := by rwa [flushed_ext_flush]
      have he' : (manager_serialize fp (.message ⟨typeOpcode type, false, p⟩)).parser.extensions_ =
          [flushed_ext ext p] := by rw [hcall]; simp
      obtain ⟨ws, hwritten, hpayload, hfirst, hrest⟩ :=
        ih (fun p hp => hlen p (List.mem_cons_of_mem _ hp)) hflush' he'
          (.next (by rw [hcall]; simp))
      refine ⟨compressedFrame fp opcode (framed_chunk ext p) false :: ws, ?_, ?_, ?_, ?_⟩
      · rw [messageFrames_cons _ p (by simp), written_each]
        simp only [hwritten]
        rw [hcall]
        rfl
      · rw [List.flatMap_cons, hpayload, framed_stream]
        rfl
      · simp [compressedFrame]
      · intro w hw
        rw [List.tail_cons] at hw
        cases ws with
        | nil => cases hw
        | cons v vs =>
          rcases List.mem_cons.mp hw with rfl | hw'
          · exact (hfirst w rfl).trans (by simp)
          · exact hrest w hw'

theorem written_each_long {type : DataType} (hz : Flushes z) {payloads : List (List UInt8)}
    (hlong : ∃ p ∈ payloads, 2 ^ 31 ≤ p.length) {ext : PermessageDeflate z}
    (hflush : ext.flush_ ≠ .block) {fp : FrameParser z} (he : fp.extensions_ = [ext])
    {opcode : Opcode} (hs : Sending type fp opcode) :
    ∃ e, .error e ∈ written_each fp (messageFrames (typeOpcode type) payloads) := by
  induction payloads generalizing ext fp opcode with
  | nil =>
    obtain ⟨p, hp, -⟩ := hlong
    cases hp
  | cons p ps ih =>
    by_cases hp : p.length < 2 ^ 31
    · have hps : ∃ p ∈ ps, 2 ^ 31 ≤ p.length := by
        obtain ⟨q, hq, hlong'⟩ := hlong
        rcases List.mem_cons.mp hq with rfl | hq'
        · exact absurd hp (Nat.not_lt.mpr hlong')
        · exact ⟨q, hq', hlong'⟩
      have hcall := (hs.call p false).trans
        (serialize_frame_compressed hz hflush (by exact he) hs.is_control hp false)
      have hflush' : (flushed_ext ext p).flush_ ≠ .block := by rwa [flushed_ext_flush]
      have he' : (manager_serialize fp (.message ⟨typeOpcode type, false, p⟩)).parser.extensions_ =
          [flushed_ext ext p] := by rw [hcall]; simp
      obtain ⟨e, hmem⟩ := ih hps hflush' he' (.next (by rw [hcall]; simp))
      obtain ⟨q, hq, -⟩ := hps
      rw [messageFrames_cons _ p (List.ne_nil_of_mem hq), written_each]
      exact ⟨e, List.mem_cons_of_mem _ hmem⟩
    · have hcall (finished : Bool) : ∃ e,
          (manager_serialize fp (.message ⟨typeOpcode type, finished, p⟩)).written = .error e := by
        rw [hs.call]
        exact serialize_frame_long (by exact he) hs.is_control (Nat.not_lt.mp hp) finished
      cases ps with
      | nil =>
        obtain ⟨e, he⟩ := hcall true
        exact ⟨e, by rw [messageFrames, written_each, he]; exact List.mem_cons_self ..⟩
      | cons q qs =>
        obtain ⟨e, he⟩ := hcall false
        rw [messageFrames_cons _ p (by simp), written_each]
        exact ⟨e, by rw [he]; exact List.mem_cons_self ..⟩

/-! ## The law -/

/-- The frames are all written, their payloads and one flush marker are the stream of the message,
and RSV1 is on the first frame and on no other. -/
def SentCompressed (fp : FrameParser z) (ext : PermessageDeflate z) (type : DataType)
    (payloads : List (List UInt8)) : Prop :=
  ∃ ws : List lib.rfc6455.Frame,
    written_each fp (messageFrames (typeOpcode type) payloads) =
      ws.map (fun w => .ok (lib.rfc6455.encode w)) ∧
    ws.flatMap lib.rfc6455.Frame.payload ++ flush_marker = flushed_stream ext payloads ∧
    (∀ w ∈ ws.head?, w.rsv1 = true) ∧ ∀ w ∈ ws.tail, w.rsv1 = false

/-- For frames that are short enough, the law is about the streams. -/
theorem sentCompressed_short (hz : Flushes z) {type : DataType} {payloads : List (List UInt8)}
    (hlen : ∀ p ∈ payloads, p.length < 2 ^ 31) {ext : PermessageDeflate z}
    (hflush : ext.flush_ ≠ .block) {fp : FrameParser z} (he : fp.extensions_ = [ext])
    (hs : fp.effective_opcode_out_ = none) :
    SentCompressed fp ext type payloads ↔
      framed_stream ext payloads ++ flush_marker = flushed_stream ext payloads := by
  obtain ⟨ws, hwritten, hpayload, hfirst, hrest⟩ :=
    written_each_short hz hlen hflush he (Sending.first hs : Sending type fp _)
  constructor
  · rintro ⟨vs, hvs, hstream, -⟩
    have hsame : vs = ws := by
      rw [hwritten] at hvs
      have hinj : Function.Injective fun w : lib.rfc6455.Frame =>
          (.ok (lib.rfc6455.encode w) : Except Error (List UInt8)) := by
        intro v w h
        exact lib.rfc6455.encode_injective (Except.ok.inj h)
      exact (List.map_injective_iff.mpr hinj hvs).symm
    rw [← hpayload, ← hsame]
    exact hstream
  · intro h
    rw [← hpayload] at h
    refine ⟨ws, hwritten, h, ?_, hrest⟩
    intro w hw
    rw [hfirst w hw]
    cases type <;> rfl

/-- What zlib makes of three chunks, before the flush. -/
def sample : List UInt8 → List UInt8
  | [0x61] => [0x4A, 0x04]
  | [0x62] => [0x4A, 0x02]
  | [0x48, 0x65, 0x6C, 0x6C, 0x6F] => [0xF2, 0x48, 0xCD, 0xC9, 0xC9, 0x07]
  | _ => []

/-- Nothing is written where there is no room for more. -/
def sample_call (flush : Flush) (data : List UInt8) (n : Nat) : List UInt8 :=
  if flush = .block then if (sample data).length < n then sample data else []
  else if 5 ≤ n then 0x00 :: flush_marker else []

theorem length_sample_call_le (flush : Flush) (data : List UInt8) (n : Nat) :
    (sample_call flush data n).length ≤ n := by
  unfold sample_call
  split_ifs with h1 h2 h3
  · exact Nat.le_of_lt h2
  · exact Nat.zero_le _
  · exact h3
  · exact Nat.zero_le _

theorem length_sample_call_lt (data : List UInt8) {n : Nat} (hn : 0 < n) :
    (sample_call .block data n).length < n := by
  unfold sample_call
  rw [if_pos rfl]
  split_ifs with h
  · exact h
  · exact hn

/-- A zlib for these chunks. -/
def sampleZlib : Zlib :=
  { Zlib.inert with
    Deflate := Unit
    deflate := fun _ flush data n => ⟨(), .ok, [], sample_call flush data n⟩
    deflate_left := fun _ _ => 0
    deflate_room := fun _ => length_sample_call_le
    deflate_ends := fun _ data _ h he => absurd he (Nat.ne_of_lt (length_sample_call_lt data h)) }

theorem sample_loop (stream : sampleZlib.Deflate) (data : List UInt8) :
    deflate_loop stream data [] = ⟨(), sample data, false⟩ := by
  have hroom : (sample data).length < buffer_size := by
    unfold sample
    split <;> decide
  have hcall : sampleZlib.deflate stream .block data buffer_size = ⟨(), .ok, [], sample data⟩ := by
    simp only [sampleZlib, sample_call, if_true, if_pos hroom]
  unfold deflate_loop
  simp only [hcall, ne_eq, not_true_eq_false, if_false]
  rw [dif_neg (Nat.ne_of_lt hroom), List.nil_append]

theorem flushes_sampleZlib : Flushes sampleZlib where
  takes stream data _ := by rw [sample_loop]
  flushes _ data flush _ hflush := by
    have hcall : ∀ stream, sampleZlib.deflate stream flush [] (flush_marker.length + 2) =
        ⟨(), .ok, [], 0x00 :: flush_marker⟩ := by
      intro stream
      simp [sampleZlib, sample_call, if_neg hflush, flush_marker]
    rw [hcall]
    exact ⟨rfl, List.suffix_cons _ _⟩

/-- A compressed message is sent whole exactly when the last of its frames is the one with bytes,
and has fewer than `2 ^ 31` of them. -/
theorem a_compressed_message_is_sent_whole_iff_only_its_last_frame_is_filled (hz : Flushes z)
    (type : DataType) (payloads : List (List UInt8)) {ext : PermessageDeflate z}
    (hflush : ext.flush_ ≠ .block) {fp : FrameParser z} (he : fp.extensions_ = [ext])
    (hs : fp.effective_opcode_out_ = none) :
    SentCompressed fp ext type payloads ↔
      LastFilled payloads ∧ ∀ p ∈ payloads, p.length < 2 ^ 31 := by
  by_cases hlen : ∀ p ∈ payloads, p.length < 2 ^ 31
  · rw [sentCompressed_short hz hlen hflush he hs, framed_stream_iff hz hflush]
    exact (and_iff_left hlen).symm
  · refine ⟨fun h => ?_, fun h => absurd h.2 hlen⟩
    push Not at hlen
    obtain ⟨ws, hwritten, -⟩ := h
    obtain ⟨e, hmem⟩ := written_each_long hz hlen hflush he (Sending.first hs : Sending type fp _)
    rw [hwritten] at hmem
    obtain ⟨w, -, hw⟩ := List.mem_map.mp hmem
    cases hw

/-- A text in one frame, behind a frame of no bytes. -/
theorem a_text_behind_an_empty_frame_is_sent_whole :
    SentCompressed (.new .client [.start .sync_flush () ()] (fun _ => 0) : FrameParser sampleZlib)
      (.start .sync_flush () ()) .text [[], [0x48, 0x65, 0x6C, 0x6C, 0x6F]] :=
  (a_compressed_message_is_sent_whole_iff_only_its_last_frame_is_filled flushes_sampleZlib .text _
    (by decide) rfl rfl).mpr ⟨⟨1, _, rfl, by decide⟩, by decide⟩

/-- A text of two bytes in two frames lacks a marker between them. -/
theorem a_text_in_two_frames_is_not_sent_whole :
    ¬ SentCompressed (.new .client [.start .sync_flush () ()] (fun _ => 0) : FrameParser sampleZlib)
      (.start .sync_flush () ()) .text [[0x61], [0x62]] := by
  have hlast : ¬ LastFilled [[0x61], [0x62]] := by
    rw [lastFilled_cons (by decide)]
    decide
  rwa [sentCompressed_short flushes_sampleZlib (by decide) (by decide) rfl rfl,
    framed_stream_iff flushes_sampleZlib (by decide)]

end proxy.websocket.protocol
