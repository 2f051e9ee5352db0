-- The two loops of the service, `websocket_service.cpp`, in steps between which
-- another thread may use the pipeline: each of its calls that takes a lock is a
-- step of its own.
--
-- Only a loop itself uses its connection, so a call of the serializer is one
-- step. The functions of interceptors may inject at any time, also in the middle
-- of a step of `websocket_loop_impl`.
import Aether.Websocket.HandlerTrace
import Mathlib.Logic.Function.Basic

namespace proxy.websocket.queues

open protocol extensions

variable {z : Zlib}

/-! ## The queues of the pipeline -/

@[simp] theorem frame_queue_push_frame (pl : Pipeline) (destination : Endpoint)
    (frame : CompletedFrame) : (pl.push_frame destination frame).frame_queue =
      Function.update pl.frame_queue destination (pl.frame_queue destination ++ [frame]) := by
  funext ep
  cases destination <;> cases ep <;> rfl

@[simp] theorem message_queue_push_frame (pl : Pipeline) (destination : Endpoint)
    (frame : CompletedFrame) :
    (pl.push_frame destination frame).message_queue = pl.message_queue := by
  funext ep
  cases destination <;> cases ep <;> rfl

@[simp] theorem frame_queue_inject_message (pl : Pipeline) (destination : Endpoint)
    (msg : Message) :
    (pl.inject_message destination msg).frame_queue = pl.frame_queue := by
  funext ep
  cases destination <;> cases ep <;> rfl

@[simp] theorem message_queue_inject_message (pl : Pipeline) (destination : Endpoint)
    (msg : Message) : (pl.inject_message destination msg).message_queue =
      Function.update pl.message_queue destination (pl.message_queue destination ++ [msg]) := by
  funext ep
  cases destination <;> cases ep <;> rfl

@[simp] theorem frame_queue_pop_frame (pl : Pipeline) (destination : Endpoint) :
    (pl.pop_frame destination).frame_queue =
      Function.update pl.frame_queue destination (pl.frame_queue destination).tail := by
  funext ep
  cases destination <;> cases ep <;> rfl

@[simp] theorem message_queue_pop_frame (pl : Pipeline) (destination : Endpoint) :
    (pl.pop_frame destination).message_queue = pl.message_queue := by
  funext ep
  cases destination <;> cases ep <;> rfl

@[simp] theorem frame_queue_pop_message (pl : Pipeline) (destination : Endpoint) :
    (pl.pop_message destination).frame_queue = pl.frame_queue := by
  funext ep
  cases destination <;> cases ep <;> rfl

@[simp] theorem message_queue_pop_message (pl : Pipeline) (destination : Endpoint) :
    (pl.pop_message destination).message_queue =
      Function.update pl.message_queue destination (pl.message_queue destination).tail := by
  funext ep
  cases destination <;> cases ep <;> rfl

/-- All but a close frame is queued. -/
theorem inject_frame_open (pl : Pipeline) (destination : Endpoint) {frame : CompletedFrame}
    (h : closes frame = false) :
    pl.inject_frame destination frame = pl.push_frame destination frame := by
  cases frame with
  | close f => cases h
  | _ => rfl

theorem inject_frame_closes (pl : Pipeline) (destination : Endpoint) {frame : CompletedFrame}
    (h : closes frame = true) : (pl.inject_frame destination frame).frame_queue = pl.frame_queue ∧
      (pl.inject_frame destination frame).message_queue = pl.message_queue := by
  cases frame with
  | close f => exact ⟨by funext ep; cases ep <;> rfl, by funext ep; cases ep <;> rfl⟩
  | _ => cases h

/-! ## The state -/

/-- Where a loop is in `websocket_loop_impl`. -/
inductive Point where
  /-- For the write of its output, or for a read. -/
  | waiting
  | handling (frames : List CompletedFrame)
  /-- The pong is injected, and the ping is still to be sent. -/
  | forwarding (payload : List UInt8) (frames : List CompletedFrame)
  | has_frame
  | next_frame
  | serializing (frame : CompletedFrame)
  | pop_frame
  | has_message
  | next_message
  | sending (msg : Message)
  | pop_message
  /-- The front of an empty queue was asked for, or popped. -/
  | undefined
  deriving DecidableEq, Repr

/-- What a loop has serialized, by what it was serialized for. -/
inductive Sent where
  /-- A frame of the source. -/
  | source (frames : List CompletedFrame)
  | injected_frame (frame : CompletedFrame)
  | injected_message (msg : Message) (frames : List CompletedFrame)
  deriving DecidableEq, Repr

namespace Sent

def frames : Sent → List CompletedFrame
  | source frames => frames
  | injected_frame frame => [frame]
  | injected_message _ frames => frames

def frame? : Sent → Option CompletedFrame
  | injected_frame frame => some frame
  | _ => none

def message? : Sent → Option Message
  | injected_message msg _ => some msg
  | _ => none

end Sent

/-- The loop that writes to one of the endpoints. -/
structure Loop (z : Zlib) where
  connection : Connection z
  point : Point
  sent : List Sent

/-- A call of `inject_frame`. Some are the answers of `on_ping_frame`. -/
structure Queued where
  frame : CompletedFrame
  answer : Bool
  deriving DecidableEq, Repr

/-- The pipeline and the two loops, with all that was injected for an endpoint so far, and the pings
that were received from it. -/
structure Service (z : Zlib) where
  pipeline : Pipeline
  loop : Endpoint → Loop z
  injected_frames : Endpoint → List Queued
  injected_messages : Endpoint → List Message
  received_pings : Endpoint → List (List UInt8)

def ping? : CompletedFrame → Option (List UInt8)
  | .ping payload => some payload
  | _ => none

namespace Service

def set_loop (s : Service z) (ep : Endpoint) (l : Loop z) : Service z :=
  { s with loop := Function.update s.loop ep l }

def go_to (s : Service z) (ep : Endpoint) (point : Point) : Service z :=
  s.set_loop ep { s.loop ep with point := point }

/-! ## The calls of the pipeline -/

/-- A close frame is not queued. -/
def inject_frame (s : Service z) (destination : Endpoint) (q : Queued) : Service z :=
  { s with
    pipeline := s.pipeline.inject_frame destination q.frame
    injected_frames :=
      if closes q.frame then s.injected_frames
      else Function.update s.injected_frames destination (s.injected_frames destination ++ [q]) }

def inject_message (s : Service z) (destination : Endpoint) (msg : Message) : Service z :=
  { s with
    pipeline := s.pipeline.inject_message destination msg
    injected_messages :=
      Function.update s.injected_messages destination (s.injected_messages destination ++ [msg]) }

def with_pipeline (s : Service z) (pl : Pipeline) : Service z := { s with pipeline := pl }

end Service

/-! ## The loop -/

/-- A handler that serializes. An error closes the pipeline, and is the end. -/
def return_if_error (s : Service z) (ep : Endpoint) (h : Handled z) (sent : Sent) (point : Point) :
    Option (Service z) :=
  match h.result with
  | .error _ => none
  | .ok _ => some ((s.with_pipeline h.pipeline).set_loop ep
      ⟨h.connection, point, (s.loop ep).sent ++ [sent]⟩)

/-- One turn of the loop over the frames that were parsed. -/
def handle_frame (s : Service z) (ep : Endpoint) (alter : Message → Message)
    (frame : CompletedFrame) (frames : List CompletedFrame) : Option (Service z) :=
  let connection := (s.loop ep).connection
  match frame with
  | .ping payload =>
    some ((s.inject_frame connection.source_ep ⟨.pong payload, true⟩).go_to ep
      (.forwarding payload frames))
  | .pong _ => some (s.go_to ep (.handling frames))
  | .close f =>
    some ((s.with_pipeline (on_close_frame s.pipeline connection f).pipeline).go_to ep
      (.handling frames))
  | .message f =>
    if f.type = .binary ∨ f.type = .text then
      let received : Interceptors := fun pl msg => (pl, alter msg)
      return_if_error s ep (on_message_frame received s.pipeline connection f)
        (.source (on_message_frame_trace received s.pipeline connection f)) (.handling frames)
    else some (s.go_to ep (.handling frames))

/-- One step of `websocket_loop_impl`, after the input was parsed. -/
def run (s : Service z) (ep : Endpoint) (alter : Message → Message) : Option (Service z) :=
  let l := s.loop ep
  match l.point with
  | .waiting => none
  | .handling [] => some (s.go_to ep .has_frame)
  | .handling (frame :: frames) => handle_frame s ep alter frame frames
  | .forwarding payload frames =>
    return_if_error s ep (serialize s.pipeline l.connection (.ping payload))
      (.source (serialized l.connection (.ping payload))) (.handling frames)
  -- Inject frames.
  | .has_frame =>
    match s.pipeline.frame_queue l.connection.destination_ep with
    | [] => some (s.go_to ep .has_message)
    | _ :: _ => some (s.go_to ep .next_frame)
  | .next_frame =>
    match s.pipeline.frame_queue l.connection.destination_ep with
    | [] => some (s.go_to ep .undefined)
    | frame :: _ => some (s.go_to ep (.serializing frame))
  | .serializing frame =>
    return_if_error s ep (serialize s.pipeline l.connection frame) (.injected_frame frame)
      .pop_frame
  | .pop_frame =>
    match s.pipeline.frame_queue l.connection.destination_ep with
    | [] => some (s.go_to ep .undefined)
    | _ :: _ =>
      some ((s.with_pipeline (s.pipeline.pop_frame l.connection.destination_ep)).go_to ep
        .has_frame)
  -- Inject messages.
  | .has_message =>
    match s.pipeline.message_queue l.connection.destination_ep with
    | [] => some (s.go_to ep .waiting)
    | _ :: _ => some (s.go_to ep .next_message)
  | .next_message =>
    match s.pipeline.message_queue l.connection.destination_ep with
    | [] => some (s.go_to ep .undefined)
    | msg :: _ => some (s.go_to ep (.sending msg))
  | .sending msg =>
    return_if_error s ep (send_message s.pipeline l.connection msg)
      (.injected_message msg (send_message_trace s.pipeline l.connection msg)) .pop_message
  | .pop_message =>
    match s.pipeline.message_queue l.connection.destination_ep with
    | [] => some (s.go_to ep .undefined)
    | _ :: _ =>
      some ((s.with_pipeline (s.pipeline.pop_message l.connection.destination_ep)).go_to ep
        .has_message)
  | .undefined => none

/-- `on_source_read` up to the frames of the input, or the start of the loop. An error of the
parser, and a close that it asks for, close the pipeline. -/
def read (s : Service z) (ep : Endpoint) (data : List UInt8) : Option (Service z) :=
  let l := s.loop ep
  match l.point with
  | .waiting =>
    let connection := { l.connection with input := l.connection.input ++ data }
    let call := manager_parse connection.manager connection.input
    match call.frames, call.should_close with
    | .ok frames, none =>
      some ({ s with
        received_pings := Function.update s.received_pings connection.source_ep
          (s.received_pings connection.source_ep ++ frames.filterMap ping?) }.set_loop ep
        ⟨parsed connection, .handling frames, l.sent⟩)
    | _, _ => none
  | _ => none

/-! ## Runs -/

/-- What the loops do, and what interceptors do with the pipeline, from any thread. -/
inductive Event where
  | inject_frame (destination : Endpoint) (frame : CompletedFrame)
  | inject_message (destination : Endpoint) (msg : Message)
  | set_interception (flag : Bool)
  | set_close_state (closer : Endpoint) (frame : CloseFrame)
  /-- Of the loop that writes to `ep`. -/
  | read (ep : Endpoint) (data : List UInt8)
  /-- A message that is handled in the step is altered so. -/
  | run (ep : Endpoint) (alter : Message → Message)

/-- As long as the pipeline is open. -/
def step (s : Service z) (e : Event) : Option (Service z) :=
  if s.pipeline.closed_ then none
  else
    match e with
    | .inject_frame destination frame => some (s.inject_frame destination ⟨frame, false⟩)
    | .inject_message destination msg => some (s.inject_message destination msg)
    | .set_interception flag => some (s.with_pipeline (s.pipeline.set_interception flag))
    | .set_close_state closer frame =>
      some (s.with_pipeline (s.pipeline.set_close_state closer frame))
    | .read ep data => read s ep data
    | .run ep alter => run s ep alter

/-- The buffers may hold what was read with the handshake. -/
def Service.new (should_intercept : Bool) (exts : Endpoint → List (PermessageDeflate z))
    (generator : Endpoint → Nat → UInt32) (input : Endpoint → List UInt8) : Service z where
  pipeline := .new should_intercept
  loop ep := ⟨{ Connection.new ep (exts ep) (generator ep) with input := input ep }, .waiting, []⟩
  injected_frames _ := []
  injected_messages _ := []
  received_pings _ := []

end proxy.websocket.queues
