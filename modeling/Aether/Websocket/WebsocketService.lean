-- The service of a WebSocket connection, `websocket_service.cpp`, over the
-- interface that interceptors have to it, `pipeline.cpp`.
--
-- One `Connection` carries the frames of one endpoint to the other. Its input
-- and output are the bytes that were received from the source and are not yet
-- read, and all the bytes that were serialized to the destination so far.
import Aether.Websocket.WebsocketManager

namespace proxy.websocket

open protocol extensions

/-! ## The pipeline -/

/-- `pipeline`, less the data of the handshake. -/
structure Pipeline where
  should_intercept_ : Bool
  closed_ : Bool
  closed_by_ : Endpoint
  closed_frame_ : CloseFrame
  client_message_queue_ : List Message
  server_message_queue_ : List Message
  client_frame_queue_ : List CompletedFrame
  server_frame_queue_ : List CompletedFrame
  deriving DecidableEq, Repr

namespace Pipeline

def new (should_intercept : Bool) : Pipeline :=
  ⟨should_intercept, false, .client, ⟨⟨0⟩, []⟩, [], [], [], []⟩

def set_interception (pl : Pipeline) (flag : Bool) : Pipeline :=
  { pl with should_intercept_ := flag }

def set_close_state (pl : Pipeline) (closer : Endpoint) (frame : CloseFrame) : Pipeline :=
  { pl with closed_ := true, closed_by_ := closer, closed_frame_ := frame }

def message_queue (pl : Pipeline) : Endpoint → List Message
  | .client => pl.client_message_queue_
  | .server => pl.server_message_queue_

def frame_queue (pl : Pipeline) : Endpoint → List CompletedFrame
  | .client => pl.client_frame_queue_
  | .server => pl.server_frame_queue_

def pop_message (pl : Pipeline) : Endpoint → Pipeline
  | .client => { pl with client_message_queue_ := pl.client_message_queue_.tail }
  | .server => { pl with server_message_queue_ := pl.server_message_queue_.tail }

def pop_frame (pl : Pipeline) : Endpoint → Pipeline
  | .client => { pl with client_frame_queue_ := pl.client_frame_queue_.tail }
  | .server => { pl with server_frame_queue_ := pl.server_frame_queue_.tail }

def inject_message (pl : Pipeline) (destination : Endpoint) (msg : Message) : Pipeline :=
  match destination with
  | .client => { pl with client_message_queue_ := pl.client_message_queue_ ++ [msg] }
  | .server => { pl with server_message_queue_ := pl.server_message_queue_ ++ [msg] }

def push_frame (pl : Pipeline) (destination : Endpoint) (frame : CompletedFrame) : Pipeline :=
  match destination with
  | .client => { pl with client_frame_queue_ := pl.client_frame_queue_ ++ [frame] }
  | .server => { pl with server_frame_queue_ := pl.server_frame_queue_ ++ [frame] }

/-- Injecting a close frame is the same as setting the close state. -/
def inject_frame (pl : Pipeline) (destination : Endpoint) (frame : CompletedFrame) : Pipeline :=
  match frame with
  | .close f => pl.set_close_state (flip_endpoint destination) f
  | frame => pl.push_frame destination frame

end Pipeline

/-- The interceptors of a received message, which may alter or block it and use the pipeline. -/
abbrev Interceptors := Pipeline → Message → Pipeline × Message

/-! ## One end of the connection -/

/-- `websocket_connection`. -/
structure Connection (z : Zlib) where
  source_ep : Endpoint
  destination_ep : Endpoint
  manager : FrameParser z
  finished : Bool
  ready_to_intercept : Bool
  next_message_content : List UInt8
  input : List UInt8
  output : List UInt8

variable {z : Zlib}

/-- `client_connection_` for the destination `client`, and `server_connection_` for `server`. -/
def Connection.new (destination : Endpoint) (exts : List (PermessageDeflate z))
    (generator : Nat → UInt32) : Connection z where
  source_ep := flip_endpoint destination
  destination_ep := destination
  manager := .new destination exts generator
  finished := false
  ready_to_intercept := true
  next_message_content := []
  input := []
  output := []

/-- What a handler leaves: the pipeline, the connection, and its result. -/
structure Handled (z : Zlib) where
  pipeline : Pipeline
  connection : Connection z
  result : Except Error Unit

/-- `RETURN_IF_ERROR`. -/
def Handled.bind (h : Handled z) (next : Pipeline → Connection z → Handled z) : Handled z :=
  match h.result with
  | .error _ => h
  | .ok _ => next h.pipeline h.connection

/-- `manager.serialize` into the output buffer of the destination. -/
def serialize (pl : Pipeline) (connection : Connection z) (frame : CompletedFrame) : Handled z :=
  let call := manager_serialize connection.manager frame
  match call.written with
  | .error e => ⟨pl, { connection with manager := call.parser }, .error e⟩
  | .ok bytes =>
    ⟨pl, { connection with manager := call.parser, output := connection.output ++ bytes }, .ok ()⟩

/-- Chunks are 4 KB. Client has a 4-byte mask key. -/
def chunk_size : Endpoint → Nat
  | .client => 4092 - 4
  | .server => 4092

theorem chunk_size_pos (ep : Endpoint) : 0 < chunk_size ep := by cases ep <;> decide

/-- The loop of `send_message` from offset `i` on. -/
def send_loop (ep : Endpoint) (pl : Pipeline) (connection : Connection z) (msg : Message)
    (i : Nat) : Handled z :=
  if _h : i + chunk_size ep ≥ msg.content.length then
    serialize pl connection (.message ⟨msg.type, true, (msg.content.drop i).take (chunk_size ep)⟩)
  else
    (serialize pl connection
      (.message ⟨msg.type, false, (msg.content.drop i).take (chunk_size ep)⟩)).bind
      fun pl connection => send_loop ep pl connection msg (i + chunk_size ep)
termination_by msg.content.length - i
decreasing_by
  have := chunk_size_pos ep
  omega

def send_message (pl : Pipeline) (connection : Connection z) (msg : Message) : Handled z :=
  if msg.blocked then ⟨pl, connection, .ok ()⟩
  else send_loop connection.source_ep pl connection msg 0

def on_ping_frame (pl : Pipeline) (connection : Connection z) (payload : List UInt8) : Handled z :=
  -- Inject a pong frame back to the source.
  let pl := pl.inject_frame connection.source_ep (.pong payload)
  -- Send a ping frame to the destination.
  serialize pl connection (.ping payload)

def on_pong_frame (pl : Pipeline) (connection : Connection z) : Handled z :=
  ⟨pl, connection, .ok ()⟩

def on_close_frame (pl : Pipeline) (connection : Connection z) (frame : CloseFrame) : Handled z :=
  ⟨pl.set_close_state connection.source_ep frame, connection, .ok ()⟩

def on_message_frame (received : Interceptors) (pl : Pipeline) (connection : Connection z)
    (frame : MessageFrame) : Handled z :=
  if pl.should_intercept_ then
    -- Connection was set to intercept mid-way through a message, wait until the message finishes.
    if !connection.ready_to_intercept then
      if frame.finished then ⟨pl, { connection with ready_to_intercept := true }, .ok ()⟩
      else ⟨pl, connection, .ok ()⟩
    else
      let content := connection.next_message_content ++ frame.payload
      if frame.finished then
        let (pl, msg) := received pl ⟨frame.type, connection.source_ep, content, false⟩
        send_message pl { connection with next_message_content := [] } msg
      else ⟨pl, { connection with next_message_content := content }, .ok ()⟩
  else serialize pl { connection with ready_to_intercept := false } (.message frame)

/-! ## The loop -/

/-- A frame of the parser. A message frame has the opcode of a message. -/
def on_frame (received : Interceptors) (pl : Pipeline) (connection : Connection z)
    (frame : CompletedFrame) : Handled z :=
  match frame with
  | .ping payload => on_ping_frame pl connection payload
  | .pong _ => on_pong_frame pl connection
  | .close f => on_close_frame pl connection f
  | .message f =>
    if f.type = .binary ∨ f.type = .text then on_message_frame received pl connection f
    else ⟨pl, connection, .ok ()⟩

def on_frames (received : Interceptors) :
    Pipeline → Connection z → List CompletedFrame → Handled z
  | pl, connection, [] => ⟨pl, connection, .ok ()⟩
  | pl, connection, frame :: frames =>
    (on_frame received pl connection frame).bind fun pl connection =>
      on_frames received pl connection frames

/-- Inject frames: the queue for the destination, which a frame leaves once it is serialized. -/
def inject_frames : List CompletedFrame → Pipeline → Connection z → Handled z
  | [], pl, connection => ⟨pl, connection, .ok ()⟩
  | frame :: frames, pl, connection =>
    (serialize pl connection frame).bind fun pl connection =>
      inject_frames frames (pl.pop_frame connection.destination_ep) connection

/-- Inject messages. -/
def inject_messages : List Message → Pipeline → Connection z → Handled z
  | [], pl, connection => ⟨pl, connection, .ok ()⟩
  | msg :: msgs, pl, connection =>
    (send_message pl connection msg).bind fun pl connection =>
      inject_messages msgs (pl.pop_message connection.destination_ep) connection

/-- The close frame of the pipeline goes to the destination, once. A serialization error leaves
nothing to write. -/
def close_connection (pl : Pipeline) (connection : Connection z) : Pipeline × Connection z :=
  if connection.finished then (pl, connection)
  else
    let h := serialize pl connection (.close pl.closed_frame_)
    (h.pipeline, { h.connection with finished := true })

/-- What `websocket_loop_impl` does with the frames that were parsed: it handles them accordingly,
and then sends what was injected. -/
def handle_frames (received : Interceptors) (pl : Pipeline) (connection : Connection z)
    (frames : List CompletedFrame) : Handled z :=
  (on_frames received pl connection frames).bind fun pl connection =>
    -- Connection was just closed by an event handler.
    if pl.closed_ then
      let (pl, connection) := close_connection pl connection
      ⟨pl, connection, .ok ()⟩
    else
      (inject_frames (pl.frame_queue connection.destination_ep) pl connection).bind
        fun pl connection =>
          inject_messages (pl.message_queue connection.destination_ep) pl connection

/-- `websocket_loop_impl`. The writing of the output and the next read are the runs of the loop that
follow. -/
def websocket_loop_impl (received : Interceptors) (pl : Pipeline) (connection : Connection z) :
    Handled z :=
  -- Connection closed, and it closed from the other end.
  if pl.closed_ then
    let (pl, connection) := close_connection pl connection
    ⟨pl, connection, .ok ()⟩
  else
    let call := manager_parse connection.manager connection.input
    let connection := { connection with manager := call.parser, input := call.input }
    match call.frames with
    | .error e => ⟨pl, connection, .error e⟩
    | .ok frames =>
      match call.should_close with
      | some code =>
        let (pl, connection) :=
          close_connection (pl.set_close_state connection.source_ep ⟨code, []⟩) connection
        ⟨pl, connection, .ok ()⟩
      -- Handle frames accordingly.
      | none => handle_frames received pl connection frames

/-- The text of an error, as the reason of a close frame. -/
def Error.reason : Error → List UInt8
  | .state _ message => message.toList.map fun c => c.toNat.toUInt8
  | _ => []

/-- `websocket_loop`. An error is an abnormal closure. -/
def websocket_loop (received : Interceptors) (pl : Pipeline) (connection : Connection z) :
    Pipeline × Connection z :=
  let h := websocket_loop_impl received pl connection
  match h.result with
  | .ok _ => (h.pipeline, h.connection)
  | .error e =>
    close_connection
      (h.pipeline.set_close_state h.connection.source_ep ⟨.protocol_error, Error.reason e⟩)
      h.connection

end proxy.websocket
