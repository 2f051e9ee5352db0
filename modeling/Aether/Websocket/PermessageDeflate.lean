-- The extension that compresses messages,
-- `protocol/extensions/permessage_deflate.cpp`. The compressor is a parameter.
import Aether.Util.Bytes
import Aether.Websocket.Frame

open util.bytes

namespace proxy.websocket.protocol.extensions

/-! ## zlib -/

/-- The return codes of zlib. -/
inductive ZRet where
  | ok
  | stream_end
  | need_dict
  | stream_error
  | data_error
  | mem_error
  | buf_error
  deriving DecidableEq, Repr

/-- The flush modes that the extension passes. -/
inductive Flush where
  | block
  | sync_flush
  | full_flush
  deriving DecidableEq, Repr

/-- What one call leaves: the stream, the input that it did not take, and its output. -/
structure ZCall (S : Type) where
  stream : S
  ret : ZRet
  rest : List UInt8
  output : List UInt8

/-- zlib, as the extension calls it: a stream, the input (`next_in`, `avail_in`) and the room for
output (`avail_out`). A call writes no more than it has room for, and only finitely many calls
in a row can fill their room when no input is added. -/
structure Zlib where
  Inflate : Type
  Deflate : Type
  inflate : Inflate → List UInt8 → Nat → ZCall Inflate
  deflate : Deflate → Flush → List UInt8 → Nat → ZCall Deflate
  inflate_left : Inflate → List UInt8 → Nat
  deflate_left : Deflate → List UInt8 → Nat
  inflate_room : ∀ s i n, (inflate s i n).output.length ≤ n
  deflate_room : ∀ s f i n, (deflate s f i n).output.length ≤ n
  inflate_ends : ∀ s i n, 0 < n → (inflate s i n).output.length = n →
    inflate_left (inflate s i n).stream (inflate s i n).rest < inflate_left s i
  deflate_ends : ∀ s i n, 0 < n → (deflate s .block i n).output.length = n →
    deflate_left (deflate s .block i n).stream (deflate s .block i n).rest < deflate_left s i

/-- A zlib that takes all of its input and makes nothing of it, for connections that have no use for
one. -/
def Zlib.inert : Zlib where
  Inflate := Unit
  Deflate := Unit
  inflate _ _ _ := ⟨(), .ok, [], []⟩
  deflate _ _ _ _ := ⟨(), .ok, [], []⟩
  inflate_left _ _ := 0
  deflate_left _ _ := 0
  inflate_room _ _ _ := Nat.zero_le _
  deflate_room _ _ _ _ := Nat.zero_le _
  inflate_ends _ _ n h he := absurd he (by simp; omega)
  deflate_ends _ _ n h he := absurd he (by simp; omega)

/-! ## The extension -/

/-- `extension::hook_return`. -/
structure HookReturn where
  transferred_input_to_output : Bool
  close : Option CloseCode
  deriving DecidableEq, Repr

/-- `permessage_deflate`, with a trace of all that was handed to `inflate`. -/
structure PermessageDeflate (z : Zlib) where
  flush_ : Flush
  inbound_is_compressible_ : Option Bool
  inbound_compressed_ : Option Bool
  deflate_stream_ : z.Deflate
  inflate_stream_ : z.Inflate
  inflated : List (List UInt8)

variable {z : Zlib}

def flush_marker : List UInt8 := [0x00, 0x00, 0xFF, 0xFF]

def empty_content : List UInt8 := [0x02, 0x00, 0x00, 0x00, 0xFF, 0xFF]

def buffer_size : Nat := 8192

namespace PermessageDeflate

/-- The state that the constructor leaves, over streams that are initialised. -/
def start (flush : Flush) (deflate : z.Deflate) (inflate : z.Inflate) : PermessageDeflate z :=
  ⟨flush, some false, none, deflate, inflate, []⟩

end PermessageDeflate

def opcode_is_compressible (type : Opcode) : Bool := !is_control type

/-- `basic_streambuf::consume` of all that is there, through `gbump(static_cast<int>(n))`. -/
def consume_all (input : List UInt8) : Except Error (List UInt8) :=
  if toInt input.length = input.length then .ok [] else .error .undefined

def on_inbound_frame_header (ext : PermessageDeflate z) (fh : FrameHeader) :
    PermessageDeflate z × HookReturn :=
  -- RSV1 bit is set on first compressed frame.
  if fh.rsv.rsv1 && (is_control fh.type || fh.type = .continuation) then
    (ext, ⟨false, some .protocol_error⟩)
  else
    ({ ext with
        inbound_is_compressible_ := some (opcode_is_compressible fh.type)
        inbound_compressed_ := some (ext.inbound_compressed_.getD fh.rsv.rsv1) },
      ⟨false, none⟩)

/-- What the inflating loop leaves: the stream, the output, and whether zlib failed. -/
structure InflateLoop (z : Zlib) where
  stream : z.Inflate
  output : List UInt8
  failed : Bool

def inflate_loop (stream : z.Inflate) (data output : List UInt8) : InflateLoop z :=
  let call := z.inflate stream data buffer_size
  if call.ret = .need_dict ∨ call.ret = .data_error ∨ call.ret = .mem_error then
    ⟨call.stream, output, true⟩
  else if _h : call.output.length = buffer_size then
    inflate_loop call.stream call.rest (output ++ call.output)
  else ⟨call.stream, output ++ call.output, false⟩
termination_by z.inflate_left stream data
decreasing_by exact z.inflate_ends stream data buffer_size (by decide) _h

/-- What a payload hook leaves: the extension and its two buffers. -/
structure PayloadHook (z : Zlib) where
  ext : PermessageDeflate z
  input : List UInt8
  output : List UInt8
  ret : HookReturn

/-- Whether the payload of the frame goes to `inflate`. -/
def inflates (ext : PermessageDeflate z) : Bool :=
  ext.inbound_compressed_.getD false && ext.inbound_is_compressible_.getD false

def on_inbound_frame_payload (ext : PermessageDeflate z) (input output : List UInt8) :
    Except Error (PayloadHook z) :=
  if !ext.inbound_compressed_.getD false || !ext.inbound_is_compressible_.getD false then
    .ok ⟨ext, input, output, ⟨false, none⟩⟩
  else do
    -- Append tail.
    let input := input ++ flush_marker
    let data := input.take (input.length % 2 ^ 32)
    let loop := inflate_loop ext.inflate_stream_ data output
    let ext := { ext with inflate_stream_ := loop.stream, inflated := ext.inflated ++ [data] }
    if loop.failed then
      .ok ⟨ext, input, loop.output, ⟨false, some .invalid_frame_payload_data⟩⟩
    else
      let input ← consume_all input
      .ok ⟨ext, input, loop.output, ⟨true, none⟩⟩

def on_inbound_frame_complete (ext : PermessageDeflate z) (fh : FrameHeader) :
    PermessageDeflate z × HookReturn :=
  -- Message not finished, keep internal state.
  if !fh.fin then (ext, ⟨false, none⟩)
  -- Inbound message is finished and not compressed, reset state.
  else if !ext.inbound_is_compressible_.getD false then
    ({ ext with inbound_is_compressible_ := none }, ⟨false, none⟩)
  -- Next frame may or may not be compressed.
  else ({ ext with inbound_compressed_ := none }, ⟨false, none⟩)

/-- What the deflating loop leaves; it stops at the first call that is not `Z_OK`. -/
structure DeflateLoop (z : Zlib) where
  stream : z.Deflate
  output : List UInt8
  failed : Bool

def deflate_loop (stream : z.Deflate) (data output : List UInt8) : DeflateLoop z :=
  let call := z.deflate stream .block data buffer_size
  if call.ret ≠ .ok then ⟨call.stream, output, true⟩
  else if _h : call.output.length = buffer_size then
    deflate_loop call.stream call.rest (output ++ call.output)
  else ⟨call.stream, output ++ call.output, false⟩
termination_by z.deflate_left stream data
decreasing_by exact z.deflate_ends stream data buffer_size (by decide) _h

/-- What the outbound hook leaves: the extension, the header and the two buffers. -/
structure OutboundHook (z : Zlib) where
  ext : PermessageDeflate z
  header : FrameHeader
  input : List UInt8
  output : List UInt8
  ret : HookReturn

def on_outbound_frame (ext : PermessageDeflate z) (fh : FrameHeader) (input output : List UInt8) :
    Except Error (OutboundHook z) :=
  if !opcode_is_compressible fh.type then .ok ⟨ext, fh, input, output, ⟨false, none⟩⟩
  else
    let fh :=
      if fh.type ≠ .continuation then { fh with rsv := { fh.rsv with rsv1 := true } } else fh
    if input.length = 0 then .ok ⟨ext, fh, input, output ++ empty_content, ⟨true, none⟩⟩
    else
      let data := input.take (input.length % 2 ^ 32)
      let loop := deflate_loop ext.deflate_stream_ data output
      let ext := { ext with deflate_stream_ := loop.stream }
      if loop.failed then
        .ok ⟨ext, fh, input, loop.output, ⟨false, some .invalid_frame_payload_data⟩⟩
      else
        let call := z.deflate ext.deflate_stream_ ext.flush_ [] (flush_marker.length + 2)
        let ext := { ext with deflate_stream_ := call.stream }
        if call.ret ≠ .ok then
          .ok ⟨ext, fh, input, loop.output, ⟨false, some .invalid_frame_payload_data⟩⟩
        -- `2 - avail_out` is negative, and the commit takes bytes that no call wrote.
        else if call.output.length < flush_marker.length then .error .undefined
        else do
          let output := loop.output ++ call.output.take (call.output.length - flush_marker.length)
          let input ← consume_all input
          .ok ⟨ext, fh, input, output, ⟨true, none⟩⟩

theorem inflates_eq_not (ext : PermessageDeflate z) :
    inflates ext =
      !(!ext.inbound_compressed_.getD false || !ext.inbound_is_compressible_.getD false) := by
  simp [inflates]

end proxy.websocket.protocol.extensions
