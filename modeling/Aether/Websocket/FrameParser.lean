-- The parser and serializer of frames, `protocol/frame_parser.cpp`.
--
-- A call of `parse` runs through the four states of the parser. Each state is
-- a stage here: it goes on to the next one with the parser and the input that
-- it leaves, or it stops the call.
import Aether.Util.BufferSegment
import Aether.Websocket.PermessageDeflate

open util.buffer util.bytes

namespace proxy.websocket.protocol

open extensions

inductive ParsingState where
  | header
  | payload_length
  | mask_key
  | payload
  deriving DecidableEq, Repr

/-- `frame_parser`. The generator of masking keys is the sequence of the keys that it will give. -/
structure FrameParser (z : Zlib) where
  destination_ : Endpoint
  state_ : ParsingState
  current_frame_ : Frame
  effective_opcode_in_ : Option Opcode
  effective_opcode_out_ : Option Opcode
  extensions_ : List (PermessageDeflate z)
  header_segment_ : BufferSegment
  payload_length_segment_ : BufferSegment
  mask_key_segment_ : BufferSegment
  payload_segment_ : BufferSegment
  generator : Nat → UInt32

variable {z : Zlib}

/-- The constructor, given the extensions that it creates. -/
def FrameParser.new (destination : Endpoint) (exts : List (PermessageDeflate z))
    (generator : Nat → UInt32) : FrameParser z where
  destination_ := destination
  state_ := .header
  current_frame_ := ⟨.zero, []⟩
  effective_opcode_in_ := none
  effective_opcode_out_ := none
  extensions_ := exts
  header_segment_ := .new
  payload_length_segment_ := .new
  mask_key_segment_ := .new
  payload_segment_ := .new
  generator := generator

/-! ## The masks -/

/-- The four bytes of the key, as `xor_mask` extracts them. -/
def xor_mask_key (key : Nat) (i : Nat) : UInt8 :=
  match i &&& 3 with
  | 0 => extract_byte 4 key
  | 1 => extract_byte 3 key
  | 2 => extract_byte 2 key
  | _ => extract_byte 1 key

/-- `xor_mask` from index `i` on. -/
def xor_mask (key : Nat) : Nat → List UInt8 → List UInt8
  | _, [] => []
  | i, b :: input => (b ^^^ xor_mask_key key i) :: xor_mask key (i + 1) input

/-- `double_buffer` over the payload segment and the frame: which of the two is the input. -/
structure DoubleBuffer where
  first : List UInt8
  second : List UInt8
  is_swapped : Bool
  deriving DecidableEq, Repr

namespace DoubleBuffer

def input (b : DoubleBuffer) : List UInt8 := if b.is_swapped then b.second else b.first

def output (b : DoubleBuffer) : List UInt8 := if b.is_swapped then b.first else b.second

def swap (b : DoubleBuffer) : DoubleBuffer := { b with is_swapped := !b.is_swapped }

/-- The two buffers after a call that had them as its input and output. -/
def put (b : DoubleBuffer) (input output : List UInt8) : DoubleBuffer :=
  if b.is_swapped then { b with first := output, second := input }
  else { b with first := input, second := output }

def move_and_swap (b : DoubleBuffer) : DoubleBuffer := (b.put [] (b.output ++ b.input)).swap

end DoubleBuffer

/-! ## `parse` -/

/-- What one call of `parse` returns. -/
inductive Parsed where
  | error (e : Error)
  /-- `should_close` is set. -/
  | close (code : CloseCode)
  /-- No frame yet. -/
  | more
  | frame (f : Frame)
  deriving DecidableEq, Repr

/-- What one call leaves: the parser, the input buffer, and what is returned. -/
structure ParseCall (z : Zlib) where
  parser : FrameParser z
  input : List UInt8
  parsed : Parsed

inductive Stage (z : Zlib) where
  | go (fp : FrameParser z) (inp : List UInt8)
  | stop (call : ParseCall z)

namespace Stage

def bind (s : Stage z) (next : FrameParser z → List UInt8 → Stage z) : Stage z :=
  match s with
  | go fp inp => next fp inp
  | stop call => stop call

/-- The end of `parse`. We should never get here. -/
def call : Stage z → ParseCall z
  | go fp inp => ⟨fp, inp, .error (proxy_error .invalid_frame "Corrupted parser state")⟩
  | stop call => call

end Stage

def stop_invalid (fp : FrameParser z) (inp : List UInt8) (message : String) : Stage z :=
  .stop ⟨fp, inp, .error (proxy_error .invalid_frame message)⟩

/-- The checks of the first two bytes. -/
def check_header (fp : FrameParser z) (inp : List UInt8) (first_byte second_byte : UInt8) :
    Stage z :=
  let first_byte := first_byte.toNat
  let second_byte := second_byte.toNat
  let frame := { fp.current_frame_ with
    fin := first_byte &&& 0x80 ≠ 0
    rsv := ⟨first_byte &&& 0x40 ≠ 0, first_byte &&& 0x20 ≠ 0, first_byte &&& 0x10 ≠ 0⟩ }
  let raw_opcode := first_byte &&& 0xF
  if Opcode.max.value < raw_opcode then
    stop_invalid { fp with current_frame_ := frame } inp "Invalid opcode"
  else
    let frame := { frame with type := Opcode.cast raw_opcode }
    let fp := { fp with current_frame_ := frame }
    if is_control frame.type && !frame.fin then
      stop_invalid fp inp "Cannot fragment control frames"
    else if fp.effective_opcode_in_.isSome && frame.type ≠ .continuation then
      stop_invalid fp inp "Expected a fragmented continuation frame"
    else
      let frame := { frame with
        mask_bit := second_byte &&& 0x80 ≠ 0
        payload_length := second_byte &&& 0x7F }
      let fp := { fp with current_frame_ := frame }
      if is_control frame.type && 125 < frame.payload_length then
        stop_invalid fp inp "Control frame payload cannot exceed 125"
      else .go { fp with state_ := .payload_length } inp

/-- A read of a segment towards `bytes`. A read that does not complete stops the call, and the
parser holds the segment until the next one. A read that fails has taken its bytes. -/
def read_segment (segment : BufferSegment) (bytes : Nat) (inp : List UInt8)
    (hold : BufferSegment → FrameParser z) (next : BufferSegment → List UInt8 → Stage z) :
    Stage z :=
  match segment.read_up_to_bytes inp bytes with
  | .error e =>
    .stop ⟨hold segment.reset, inp.drop (bytes - segment.uncommitted.length), .error e⟩
  | .ok read =>
    if !read.segment.is_complete_ then .stop ⟨hold read.segment, read.input, .more⟩
    else next read.segment read.input

def parse_header (fp : FrameParser z) (inp : List UInt8) : Stage z :=
  if fp.state_ ≠ .header then .go fp inp
  else
    read_segment fp.header_segment_ 2 inp (fun seg => { fp with header_segment_ := seg })
      fun segment inp =>
        match segment.committed with
        | first_byte :: second_byte :: _ =>
          check_header { fp with header_segment_ := segment.reset } inp first_byte second_byte
        | _ => .stop ⟨{ fp with header_segment_ := segment }, inp, .error .undefined⟩

/-- The extended payload length of `bytes` bytes, for lengths above `most`. -/
def parse_extended_length (bytes most : Nat) (fp : FrameParser z) (inp : List UInt8) : Stage z :=
  read_segment fp.payload_length_segment_ bytes inp
    (fun seg => { fp with payload_length_segment_ := seg })
    fun segment inp =>
      let payload_length := parse_network_byte_order bytes segment.committed
      let fp := { fp with
        current_frame_ := { fp.current_frame_ with payload_length := payload_length }
        payload_length_segment_ := segment.reset }
      if payload_length ≤ most then
        stop_invalid fp inp "Payload length did not encode with minimum bytes"
      else .go fp inp

def check_msb (fp : FrameParser z) (inp : List UInt8) : Stage z :=
  if fp.current_frame_.payload_length >>> 63 ≠ 0 then
    stop_invalid fp inp "MSB must be 0 when using eight-byte payload length"
  else .go fp inp

/-- The extensions up to the first that asks for a close, and the code it asks for. -/
def run_header_hooks (fh : FrameHeader) :
    List (PermessageDeflate z) → List (PermessageDeflate z) × Option CloseCode
  | [] => ([], none)
  | ext :: exts =>
    let (ext, result) := on_inbound_frame_header ext fh
    match result.close with
    | some code => (ext :: exts, some code)
    | none =>
      let (exts, close) := run_header_hooks fh exts
      (ext :: exts, close)

def check_mask (fp : FrameParser z) (inp : List UInt8) : Stage z :=
  let (exts, close) := run_header_hooks fp.current_frame_.toFrameHeader fp.extensions_
  let fp := { fp with extensions_ := exts }
  match close with
  | some code => .stop ⟨fp, inp, .close code⟩
  | none =>
    if fp.current_frame_.mask_bit && fp.destination_ = .client then
      stop_invalid fp inp "Client received unexpected masked frame"
    else if !fp.current_frame_.mask_bit && fp.destination_ = .server then
      stop_invalid fp inp "Server received unexpected unmasked frame"
    else .go { fp with state_ := .mask_key } inp

def parse_payload_length (fp : FrameParser z) (inp : List UInt8) : Stage z :=
  if fp.state_ ≠ .payload_length then .go fp inp
  else
    let length :=
      if fp.current_frame_.payload_length = 126 then parse_extended_length 2 125 fp inp
      else if fp.current_frame_.payload_length = 127 then
        (parse_extended_length 8 65535 fp inp).bind check_msb
      else .go fp inp
    length.bind check_mask

def parse_mask_key (fp : FrameParser z) (inp : List UInt8) : Stage z :=
  if fp.state_ ≠ .mask_key then .go fp inp
  else if !fp.current_frame_.mask_bit then .go { fp with state_ := .payload } inp
  else
    read_segment fp.mask_key_segment_ 4 inp (fun seg => { fp with mask_key_segment_ := seg })
      fun segment inp =>
        -- `static_cast<std::uint32_t>`
        let mask_key := parse_network_byte_order 8 segment.committed % 2 ^ 32
        .go { fp with
          current_frame_ := { fp.current_frame_ with mask_key := mask_key }
          mask_key_segment_ := segment.reset
          state_ := .payload } inp

/-- The same for the payload hooks, with the two buffers. -/
def run_payload_hooks : List (PermessageDeflate z) → DoubleBuffer →
    Except Error (List (PermessageDeflate z) × DoubleBuffer × Option CloseCode)
  | [], buffers => .ok ([], buffers, none)
  | ext :: exts, buffers => do
    let hook ← on_inbound_frame_payload ext buffers.input buffers.output
    let buffers := buffers.put hook.input hook.output
    match hook.ret.close with
    | some code => .ok (hook.ext :: exts, buffers, some code)
    | none =>
      let buffers := if hook.ret.transferred_input_to_output then buffers.swap else buffers
      let (exts, buffers, close) ← run_payload_hooks exts buffers
      .ok (hook.ext :: exts, buffers, close)

def run_complete_hooks (fh : FrameHeader) :
    List (PermessageDeflate z) → List (PermessageDeflate z) × Option CloseCode
  | [] => ([], none)
  | ext :: exts =>
    let (ext, result) := on_inbound_frame_complete ext fh
    match result.close with
    | some code => (ext :: exts, some code)
    | none =>
      let (exts, close) := run_complete_hooks fh exts
      (ext :: exts, close)

/-- The type that a frame is returned with, and the opcode that is expected from then on. -/
def effective_opcode (expected : Option Opcode) (type : Opcode) (fin : Bool) :
    Opcode × Option Opcode :=
  if is_control type then (type, expected)
  -- End of a fragmented message.
  else if fin then (type, none)
  else
    match expected with
    -- Middle of a fragmented message, give out continuation frame with effective opcode.
    | some opcode => (opcode, some opcode)
    -- Beginning of a fragmented message.
    | none => (type, some type)

/-- The frame is whole: it is returned, and the parser starts over. -/
def complete_frame (fp : FrameParser z) (inp : List UInt8) (content : List UInt8) : Stage z :=
  let frame := fp.current_frame_
  let (type, expected) := effective_opcode fp.effective_opcode_in_ frame.type frame.fin
  let frame := { frame with type := type }
  .stop ⟨{ fp with
    current_frame_ := { frame with content := [] }
    effective_opcode_in_ := expected
    payload_segment_ := fp.payload_segment_.reset
    state_ := .header }, inp, .frame { frame with content := content }⟩

/-- The payload is read: it is unmasked and handed through the extensions. -/
def process_payload (fp : FrameParser z) (inp : List UInt8) : Stage z :=
  let buffers : DoubleBuffer := ⟨fp.payload_segment_.committed, fp.current_frame_.content, false⟩
  let buffers :=
    if fp.current_frame_.mask_bit then
      (buffers.put [] (buffers.output ++ xor_mask fp.current_frame_.mask_key 0 buffers.input)).swap
    else buffers
  match run_payload_hooks fp.extensions_ buffers with
  | .error e => .stop ⟨fp, inp, .error e⟩
  | .ok (exts, buffers, close) =>
    let fp := { fp with
      extensions_ := exts
      payload_segment_ := { fp.payload_segment_ with committed := buffers.first }
      current_frame_ := { fp.current_frame_ with content := buffers.second } }
    match close with
    | some code => .stop ⟨fp, inp, .close code⟩
    | none =>
      let (exts, close) := run_complete_hooks fp.current_frame_.toFrameHeader fp.extensions_
      let fp := { fp with extensions_ := exts }
      match close with
      | some code => .stop ⟨fp, inp, .close code⟩
      | none =>
        -- Assure the data is in the frame buffer, not the segment buffer.
        let buffers := if !buffers.is_swapped then buffers.move_and_swap else buffers
        complete_frame fp inp buffers.second

def parse_payload (fp : FrameParser z) (inp : List UInt8) : Stage z :=
  if fp.state_ ≠ .payload then .go fp inp
  else
    read_segment fp.payload_segment_ fp.current_frame_.payload_length inp
      (fun seg => { fp with payload_segment_ := seg })
      fun segment inp => process_payload { fp with payload_segment_ := segment } inp

/-- `frame_parser::parse`. -/
def parse (fp : FrameParser z) (inp : List UInt8) : ParseCall z :=
  ((((parse_header fp inp).bind parse_payload_length).bind parse_mask_key).bind parse_payload).call

/-! ## `serialize` -/

/-- What a call of `serialize` leaves: the parser, and the bytes that it wrote or its error. -/
structure Serialized (z : Zlib) where
  parser : FrameParser z
  written : Except Error (List UInt8)

/-- What the outbound hooks leave: the extensions, the header, and the payload in `input()`; or
the extension that asks for a close. -/
structure OutboundHooks (z : Zlib) where
  exts : List (PermessageDeflate z)
  header : FrameHeader
  buffers : DoubleBuffer
  close : Option CloseCode

def run_outbound_hooks : List (PermessageDeflate z) → FrameHeader → DoubleBuffer →
    Except Error (OutboundHooks z)
  | [], header, buffers => .ok ⟨[], header, buffers, none⟩
  | ext :: exts, header, buffers => do
    let hook ← on_outbound_frame ext header buffers.input buffers.output
    let buffers := buffers.put hook.input hook.output
    match hook.ret.close with
    | some code => .ok ⟨hook.ext :: exts, hook.header, buffers, some code⟩
    | none =>
      let buffers := if hook.ret.transferred_input_to_output then buffers.swap else buffers
      let hooks ← run_outbound_hooks exts hook.header buffers
      .ok { hooks with exts := hook.ext :: hooks.exts }

def first_byte (header : FrameHeader) : Nat :=
  (if header.fin then 0x80 else 0) ||| (if header.rsv.rsv1 then 0x40 else 0) |||
    (if header.rsv.rsv2 then 0x20 else 0) ||| (if header.rsv.rsv3 then 0x10 else 0) |||
    (header.type.value &&& 0xF)

/-- The low bits of the second byte and the extended length, unless a control frame is too long. -/
def length_bytes (type : Opcode) (payload_length : Nat) : Option (Nat × List UInt8) :=
  if payload_length ≤ 125 then some (payload_length, [])
  else if is_control type then none
  else if payload_length ≤ 65535 then some (126, util.bytes.insert 2 payload_length)
  else some (127, util.bytes.insert 8 payload_length)

def serialize_frame (fp : FrameParser z) (type : Opcode) (payload : List UInt8) (finished : Bool) :
    Serialized z :=
  let header := { FrameHeader.zero with
    fin := finished
    type := type
    mask_bit := fp.destination_ = .server }
  match run_outbound_hooks fp.extensions_ header ⟨payload, [], false⟩ with
  | .error e => ⟨fp, .error e⟩
  | .ok hooks =>
    let fp := { fp with extensions_ := hooks.exts }
    if hooks.close.isSome then ⟨fp, .error (default_error .serialization_error)⟩
    else
      let header := hooks.header
      let content := hooks.buffers.input
      match length_bytes header.type content.length with
      | none =>
        ⟨fp, .error (proxy_error .invalid_frame "Control frame payload cannot exceed 125 bytes")⟩
      | some (length, extended) =>
        let second_byte := (if header.mask_bit then 0x80 else 0) ||| length
        let header_bytes := UInt8.ofNat (first_byte header) :: UInt8.ofNat second_byte :: extended
        if fp.destination_ = .server then
          -- Generate XOR masking key and mask data.
          let mask_key := (fp.generator 0).toNat
          let fp := { fp with generator := fun n => fp.generator (n + 1) }
          ⟨fp, .ok (header_bytes ++ util.bytes.insert 4 mask_key ++ xor_mask mask_key 0 content)⟩
        else ⟨fp, .ok (header_bytes ++ content)⟩

def serialize_close (fp : FrameParser z) (frame : CloseFrame) : Serialized z :=
  serialize_frame fp .close (util.bytes.insert 2 (frame.code.value % 2 ^ 16) ++ frame.reason) true

def serialize_ping (fp : FrameParser z) (payload : List UInt8) : Serialized z :=
  serialize_frame fp .ping payload true

def serialize_pong (fp : FrameParser z) (payload : List UInt8) : Serialized z :=
  serialize_frame fp .pong payload true

/-- The stream output of an opcode writes the byte of its value. -/
def unexpected_opcode (expected received : Opcode) : Error :=
  proxy_error .unexpected_opcode
    ("Unexpected opcode when serializing frame (expected " ++ opcode_to_string expected ++
      "; rececived " ++ String.singleton (Char.ofNat received.value) ++ ")")

def serialize_message (fp : FrameParser z) (frame : MessageFrame) : Serialized z :=
  match fp.effective_opcode_out_ with
  | some opcode =>
    -- Continuation of a message.
    if opcode ≠ frame.type then ⟨fp, .error (unexpected_opcode opcode frame.type)⟩
    else
      let fp := { fp with effective_opcode_out_ := if frame.finished then none else some opcode }
      serialize_frame fp .continuation frame.payload frame.finished
  | none =>
    -- Start of a new message.
    let fp := { fp with effective_opcode_out_ := if frame.finished then none else some frame.type }
    serialize_frame fp frame.type frame.payload frame.finished

end proxy.websocket.protocol
