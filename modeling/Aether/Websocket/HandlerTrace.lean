-- Which frames the handlers of a connection serialize, in their order. None of
-- them is a close frame: only the closing of the connection sends one.
import Aether.Websocket.FrameDelivery

namespace proxy.websocket

open protocol extensions

variable {z : Zlib}

/-! ## The frames that are serialized -/

/-- The frame, if the manager takes it. -/
def serialized (connection : Connection z) (frame : CompletedFrame) : List CompletedFrame :=
  match (manager_serialize connection.manager frame).written with
  | .error _ => []
  | .ok _ => [frame]

/-- What a handler has serialized, and what comes after it unless it failed. -/
def Handled.trace (h : Handled z) (frames : List CompletedFrame)
    (next : Pipeline → Connection z → List CompletedFrame) : List CompletedFrame :=
  match h.result with
  | .error _ => frames
  | .ok _ => frames ++ next h.pipeline h.connection

/-- A handler that went well went on to the next. -/
theorem bind_result {h : Handled z} {next : Pipeline → Connection z → Handled z}
    (hok : (h.bind next).result = .ok ()) :
    h.result = .ok () ∧ h.bind next = next h.pipeline h.connection := by
  unfold Handled.bind at hok ⊢
  rcases hres : h.result with e | _
  · rw [hres] at hok
    simp only [hres] at hok
    cases hok
  · exact ⟨rfl, rfl⟩

theorem trace_of_ok {h : Handled z} (hok : h.result = .ok ()) (frames : List CompletedFrame)
    (next : Pipeline → Connection z → List CompletedFrame) :
    h.trace frames next = frames ++ next h.pipeline h.connection := by
  unfold Handled.trace
  rw [hok]

def send_loop_trace (ep : Endpoint) (pl : Pipeline) (connection : Connection z) (msg : Message)
    (i : Nat) : List CompletedFrame :=
  let chunk := (msg.content.drop i).take (chunk_size ep)
  if _h : i + chunk_size ep ≥ msg.content.length then
    serialized connection (.message ⟨msg.type, true, chunk⟩)
  else
    (serialize pl connection (.message ⟨msg.type, false, chunk⟩)).trace
      (serialized connection (.message ⟨msg.type, false, chunk⟩))
      fun pl connection => send_loop_trace ep pl connection msg (i + chunk_size ep)
termination_by msg.content.length - i
decreasing_by
  have := chunk_size_pos ep
  omega

def send_message_trace (pl : Pipeline) (connection : Connection z) (msg : Message) :
    List CompletedFrame :=
  if msg.blocked then [] else send_loop_trace connection.source_ep pl connection msg 0

def on_message_frame_trace (received : Interceptors) (pl : Pipeline) (connection : Connection z)
    (frame : MessageFrame) : List CompletedFrame :=
  if pl.should_intercept_ then
    if !connection.ready_to_intercept then []
    else
      let content := connection.next_message_content ++ frame.payload
      if frame.finished then
        let (pl, msg) := received pl ⟨frame.type, connection.source_ep, content, false⟩
        send_message_trace pl { connection with next_message_content := [] } msg
      else []
  else serialized { connection with ready_to_intercept := false } (.message frame)

def on_frame_trace (received : Interceptors) (pl : Pipeline) (connection : Connection z)
    (frame : CompletedFrame) : List CompletedFrame :=
  match frame with
  | .ping payload => serialized connection (.ping payload)
  | .pong _ => []
  | .close _ => []
  | .message f =>
    if f.type = .binary ∨ f.type = .text then on_message_frame_trace received pl connection f
    else []

def on_frames_trace (received : Interceptors) :
    Pipeline → Connection z → List CompletedFrame → List CompletedFrame
  | _, _, [] => []
  | pl, connection, frame :: frames =>
    (on_frame received pl connection frame).trace (on_frame_trace received pl connection frame)
      fun pl connection => on_frames_trace received pl connection frames

def inject_frames_trace :
    List CompletedFrame → Pipeline → Connection z → List CompletedFrame
  | [], _, _ => []
  | frame :: frames, pl, connection =>
    (serialize pl connection frame).trace (serialized connection frame) fun pl connection =>
      inject_frames_trace frames (pl.pop_frame connection.destination_ep) connection

def inject_messages_trace : List Message → Pipeline → Connection z → List CompletedFrame
  | [], _, _ => []
  | msg :: msgs, pl, connection =>
    (send_message pl connection msg).trace (send_message_trace pl connection msg)
      fun pl connection =>
        inject_messages_trace msgs (pl.pop_message connection.destination_ep) connection

/-! ## The calls of the manager -/

/-- Calls of the manager, of which those of `serialize` with these frames were taken, from one state
of the manager and of the output to another. -/
inductive Calls : FrameParser z → List UInt8 → List CompletedFrame → FrameParser z → List UInt8 →
    Prop
  | done (fp : FrameParser z) (output : List UInt8) : Calls fp output [] fp output
  | taken {fp fp' : FrameParser z} {output output' bytes : List UInt8} {frame : CompletedFrame}
      {frames : List CompletedFrame}
      (h : (manager_serialize fp frame).written = .ok bytes)
      (rest : Calls (manager_serialize fp frame).parser (output ++ bytes) frames fp' output') :
      Calls fp output (frame :: frames) fp' output'
  | refused {fp fp' : FrameParser z} {output output' : List UInt8} {frame : CompletedFrame}
      {frames : List CompletedFrame} {e : Error}
      (h : (manager_serialize fp frame).written = .error e)
      (rest : Calls (manager_serialize fp frame).parser output frames fp' output') :
      Calls fp output frames fp' output'
  | parsed {fp fp' : FrameParser z} {output output' : List UInt8} {frames : List CompletedFrame}
      (input : List UInt8)
      (rest : Calls (manager_parse fp input).parser output frames fp' output') :
      Calls fp output frames fp' output'

theorem Calls.append {fp fp' fp'' : FrameParser z} {output output' output'' : List UInt8}
    {frames frames' : List CompletedFrame} (h : Calls fp output frames fp' output')
    (h' : Calls fp' output' frames' fp'' output'') :
    Calls fp output (frames ++ frames') fp'' output'' := by
  induction h with
  | done => exact h'
  | taken h _ ih => exact .taken h (ih h')
  | refused h _ ih => exact .refused h (ih h')
  | parsed input _ ih => exact .parsed input (ih h')

/-- What a handler did to the connection: it serialized these frames, none of which is a close
frame, and did not finish the connection. -/
structure Wrote (connection : Connection z) (frames : List CompletedFrame) (h : Handled z) :
    Prop where
  calls : Calls connection.manager connection.output frames h.connection.manager h.connection.output
  no_close : ∀ f ∈ frames, closes f = false
  finished : h.connection.finished = connection.finished
  source_ep : h.connection.source_ep = connection.source_ep
  destination_ep : h.connection.destination_ep = connection.destination_ep

theorem wrote_nothing {connection connection' : Connection z} (pl : Pipeline)
    (result : Except Error Unit) (hm : connection'.manager = connection.manager)
    (ho : connection'.output = connection.output) (hf : connection'.finished = connection.finished)
    (hs : connection'.source_ep = connection.source_ep)
    (hd : connection'.destination_ep = connection.destination_ep) :
    Wrote connection [] ⟨pl, connection', result⟩ := by
  refine ⟨?_, by simp, hf, hs, hd⟩
  rw [hm, ho]
  exact .done _ _

theorem Wrote.bind {connection : Connection z} {frames : List CompletedFrame} {h : Handled z}
    {next : Pipeline → Connection z → Handled z}
    {trace : Pipeline → Connection z → List CompletedFrame} (hw : Wrote connection frames h)
    (hnext : Wrote h.connection (trace h.pipeline h.connection) (next h.pipeline h.connection)) :
    Wrote connection (h.trace frames trace) (h.bind next) := by
  unfold Handled.bind Handled.trace
  rcases h.result with e | _
  · exact hw
  · refine ⟨hw.calls.append hnext.calls, ?_, hnext.finished.trans hw.finished,
      hnext.source_ep.trans hw.source_ep, hnext.destination_ep.trans hw.destination_ep⟩
    intro f hf
    rcases List.mem_append.mp hf with hf | hf
    · exact hw.no_close f hf
    · exact hnext.no_close f hf

/-! ## The handlers -/

theorem serialize_calls (pl : Pipeline) (connection : Connection z) (frame : CompletedFrame) :
    Calls connection.manager connection.output (serialized connection frame)
      (serialize pl connection frame).connection.manager
      (serialize pl connection frame).connection.output := by
  unfold serialize serialized
  rcases h : (manager_serialize connection.manager frame).written with e | bytes
  · simp only [h]
    exact .refused h (.done _ _)
  · simp only [h]
    exact .taken h (.done _ _)

theorem serialized_eq (pl : Pipeline) (connection : Connection z) (frame : CompletedFrame) :
    serialized connection frame =
      match (serialize pl connection frame).result with
      | .error _ => []
      | .ok _ => [frame] := by
  unfold serialize serialized
  rcases h : (manager_serialize connection.manager frame).written with e | bytes
  · simp only [h]
  · simp only [h]

theorem serialized_of_ok {pl : Pipeline} {connection : Connection z} {frame : CompletedFrame}
    (hok : (serialize pl connection frame).result = .ok ()) :
    serialized connection frame = [frame] := by
  rw [serialized_eq pl, hok]

/-- What a call of `serialize` leaves alone. -/
theorem serialize_same (pl : Pipeline) (connection : Connection z) (frame : CompletedFrame) :
    (serialize pl connection frame).connection.finished = connection.finished ∧
    (serialize pl connection frame).connection.source_ep = connection.source_ep ∧
    (serialize pl connection frame).connection.destination_ep = connection.destination_ep := by
  unfold serialize
  simp only
  split <;> exact ⟨rfl, rfl, rfl⟩

theorem serialize_wrote (pl : Pipeline) (connection : Connection z) {frame : CompletedFrame}
    (hf : closes frame = false) :
    Wrote connection (serialized connection frame) (serialize pl connection frame) := by
  have hsame := serialize_same pl connection frame
  refine ⟨serialize_calls pl connection frame, ?_, hsame.1, hsame.2.1, hsame.2.2⟩
  intro f h
  rw [serialized_eq pl] at h
  split at h
  · cases h
  · rw [List.mem_singleton.mp h]
    exact hf

theorem send_loop_wrote (ep : Endpoint) (pl : Pipeline) (connection : Connection z) (msg : Message)
    (i : Nat) :
    Wrote connection (send_loop_trace ep pl connection msg i)
      (send_loop ep pl connection msg i) := by
  fun_induction send_loop ep pl connection msg i with
  | case1 pl connection i h =>
    rw [send_loop_trace, dif_pos h]
    exact serialize_wrote pl connection rfl
  | case2 pl connection i h ih =>
    rw [send_loop_trace, dif_neg h]
    exact (serialize_wrote pl connection rfl).bind (ih _ _)

theorem send_message_wrote (pl : Pipeline) (connection : Connection z) (msg : Message) :
    Wrote connection (send_message_trace pl connection msg) (send_message pl connection msg) := by
  unfold send_message send_message_trace
  split
  · exact wrote_nothing pl _ rfl rfl rfl rfl rfl
  · exact send_loop_wrote _ pl connection msg 0

theorem on_message_frame_wrote (received : Interceptors) (pl : Pipeline)
    (connection : Connection z) (frame : MessageFrame) :
    Wrote connection (on_message_frame_trace received pl connection frame)
      (on_message_frame received pl connection frame) := by
  unfold on_message_frame on_message_frame_trace
  split
  · split
    · split <;> exact wrote_nothing pl _ rfl rfl rfl rfl rfl
    · simp only
      split
      · have h := send_message_wrote (received pl ⟨frame.type, connection.source_ep,
          connection.next_message_content ++ frame.payload, false⟩).1
          { connection with next_message_content := [] } (received pl ⟨frame.type,
            connection.source_ep, connection.next_message_content ++ frame.payload, false⟩).2
        exact ⟨h.calls, h.no_close, h.finished, h.source_ep, h.destination_ep⟩
      · exact wrote_nothing pl _ rfl rfl rfl rfl rfl
  · have hclose : closes (.message frame) = false := rfl
    have h := serialize_wrote pl { connection with ready_to_intercept := false } hclose
    exact ⟨h.calls, h.no_close, h.finished, h.source_ep, h.destination_ep⟩

theorem on_frame_wrote (received : Interceptors) (pl : Pipeline) (connection : Connection z)
    (frame : CompletedFrame) :
    Wrote connection (on_frame_trace received pl connection frame)
      (on_frame received pl connection frame) := by
  cases frame with
  | ping payload => exact serialize_wrote _ connection rfl
  | pong payload => exact wrote_nothing pl _ rfl rfl rfl rfl rfl
  | close f => exact wrote_nothing _ _ rfl rfl rfl rfl rfl
  | message f =>
    unfold on_frame on_frame_trace
    simp only
    split
    · exact on_message_frame_wrote received pl connection f
    · exact wrote_nothing pl _ rfl rfl rfl rfl rfl

theorem on_frames_wrote (received : Interceptors) (pl : Pipeline) (connection : Connection z)
    (frames : List CompletedFrame) :
    Wrote connection (on_frames_trace received pl connection frames)
      (on_frames received pl connection frames) := by
  induction frames generalizing pl connection with
  | nil => exact wrote_nothing pl _ rfl rfl rfl rfl rfl
  | cons frame frames ih =>
    exact (on_frame_wrote received pl connection frame).bind (ih _ _)

theorem inject_frames_wrote {frames : List CompletedFrame} (hf : ∀ f ∈ frames, closes f = false)
    (pl : Pipeline) (connection : Connection z) :
    Wrote connection (inject_frames_trace frames pl connection)
      (inject_frames frames pl connection) := by
  induction frames generalizing pl connection with
  | nil => exact wrote_nothing pl _ rfl rfl rfl rfl rfl
  | cons frame frames ih =>
    exact (serialize_wrote pl connection (hf frame (List.mem_cons_self ..))).bind
      (ih (fun f h => hf f (List.mem_cons_of_mem _ h)) _ _)

theorem inject_messages_wrote (msgs : List Message) (pl : Pipeline) (connection : Connection z) :
    Wrote connection (inject_messages_trace msgs pl connection)
      (inject_messages msgs pl connection) := by
  induction msgs generalizing pl connection with
  | nil => exact wrote_nothing pl _ rfl rfl rfl rfl rfl
  | cons msg msgs ih => exact (send_message_wrote pl connection msg).bind (ih _ _)

end proxy.websocket
