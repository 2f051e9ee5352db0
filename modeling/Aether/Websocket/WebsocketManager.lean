-- The frames of a connection to and from its buffers,
-- `protocol/websocket_manager.cpp`.
import Aether.Websocket.FrameParser

open util.buffer util.bytes

namespace proxy.websocket.protocol

open extensions

variable {z : Zlib}

/-- `process_close_frame`. -/
def process_close_frame (content : List UInt8) : Except Error CloseFrame := do
  let reader ← BufferSegment.new.read_up_to_bytes content 2
  if !reader.segment.is_complete_ then
    if BufferSegment.new.bytes_last_read content 2 0 = 1 then
      .error (proxy_error .invalid_frame "Close frame cannot have 1 byte payload")
    -- No bytes!
    else .ok ⟨.no_status_rcvd, []⟩
  else .ok ⟨⟨parse_network_byte_order 2 reader.segment.committed⟩, reader.input⟩

/-- The frame of the interface for a frame of the parser. The other opcodes have none. -/
def complete (frame : Frame) : Except Error (List CompletedFrame) :=
  match frame.type with
  | .ping => .ok [.ping frame.content]
  | .pong => .ok [.pong frame.content]
  | .close => (process_close_frame frame.content).map (fun f => [.close f])
  | .text => .ok [.message ⟨frame.type, frame.fin, frame.content⟩]
  | .binary => .ok [.message ⟨frame.type, frame.fin, frame.content⟩]
  | _ => .ok []

/-- What a call of `websocket_manager::parse` leaves: the parser of the manager, the input buffer,
the close code if one is set, and the frames. -/
structure ManagerCall (z : Zlib) where
  parser : FrameParser z
  input : List UInt8
  should_close : Option CloseCode
  frames : Except Error (List CompletedFrame)

/-- The loop of `websocket_manager::parse`, for at most `fuel` calls of the parser. -/
def parse_loop : Nat → FrameParser z → List UInt8 → List CompletedFrame → ManagerCall z
  | 0, fp, inp, result => ⟨fp, inp, none, .ok result⟩
  | fuel + 1, fp, inp, result =>
    let call := parse fp inp
    match call.parsed with
    | .error e => ⟨call.parser, call.input, none, .error e⟩
    | .close code => ⟨call.parser, call.input, some code, .ok result⟩
    | .more => ⟨call.parser, call.input, none, .ok result⟩
    | .frame frame =>
      match complete frame with
      | .error e => ⟨call.parser, call.input, none, .error e⟩
      | .ok frames => parse_loop fuel call.parser call.input (result ++ frames)

/-- `websocket_manager::parse`. A frame takes a byte of the input or more, but for one whose bytes
earlier calls took, so the loop stops before its fuel is out. -/
def manager_parse (fp : FrameParser z) (inp : List UInt8) : ManagerCall z :=
  parse_loop (inp.length + 2) fp inp []

/-- `websocket_manager::serialize`. A frame that is held as another type than its own throws. -/
def manager_serialize (fp : FrameParser z) (frame : CompletedFrame) : Serialized z :=
  match frame.type, frame with
  | .ping, .ping payload => serialize_ping fp payload
  | .pong, .pong payload => serialize_pong fp payload
  | .close, .close f => serialize_close fp f
  | .binary, .message f => serialize_message fp f
  | .text, .message f => serialize_message fp f
  | .ping, _ => ⟨fp, .error .terminated⟩
  | .pong, _ => ⟨fp, .error .terminated⟩
  | .close, _ => ⟨fp, .error .terminated⟩
  | _, _ => ⟨fp, .error (proxy_error .invalid_opcode "Invalid opcode to serialize")⟩

end proxy.websocket.protocol
