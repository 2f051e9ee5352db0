-- The frames and messages of a WebSocket connection, as the proxy holds
-- them: `websocket/message`.
import Aether.Error
import Mathlib.Tactic.IntervalCases

namespace proxy.websocket

/-- `endpoint`. -/
inductive Endpoint where
  | client
  | server
  deriving DecidableEq, Repr

/-- `flip_endpoint`, `operator~`. -/
def flip_endpoint : Endpoint → Endpoint
  | .client => .server
  | .server => .client

theorem flip_ne (ep : Endpoint) : flip_endpoint ep ≠ ep := by cases ep <;> decide

theorem eq_or_flip (ep ep' : Endpoint) : ep' = ep ∨ ep' = flip_endpoint ep := by
  cases ep <;> cases ep' <;> decide

/-- `opcode`: the values of the four bits. The enumeration names seven of them, and a cast can
give any. -/
inductive Opcode where
  | continuation
  | text
  | binary
  | reserved3
  | reserved4
  | reserved5
  | reserved6
  | reserved7
  | close
  | ping
  | pong
  | reserved11
  | reserved12
  | reserved13
  | reserved14
  | max
  deriving DecidableEq, Repr

namespace Opcode

def value : Opcode → Nat
  | continuation => 0
  | text => 1
  | binary => 2
  | reserved3 => 3
  | reserved4 => 4
  | reserved5 => 5
  | reserved6 => 6
  | reserved7 => 7
  | close => 8
  | ping => 9
  | pong => 10
  | reserved11 => 11
  | reserved12 => 12
  | reserved13 => 13
  | reserved14 => 14
  | max => 15

/-- `static_cast<opcode>`. -/
def cast : Nat → Opcode
  | 0 => continuation
  | 1 => text
  | 2 => binary
  | 3 => reserved3
  | 4 => reserved4
  | 5 => reserved5
  | 6 => reserved6
  | 7 => reserved7
  | 8 => close
  | 9 => ping
  | 10 => pong
  | 11 => reserved11
  | 12 => reserved12
  | 13 => reserved13
  | 14 => reserved14
  | _ => max

@[simp] theorem cast_value (o : Opcode) : cast o.value = o := by cases o <;> rfl

theorem value_lt (o : Opcode) : o.value < 16 := by cases o <;> decide

end Opcode

def is_control (type : Opcode) : Bool := type.value &&& 0x8 ≠ 0

/-- `opcode_to_string`. -/
def opcode_to_string (o : Opcode) : String :=
  match o with
  | .continuation => "continue"
  | .text => "text"
  | .binary => "binary"
  | .close => "close"
  | .ping => "ping"
  | .pong => "pong"
  | .max => "max"
  | _ => "reserved"

/-- `close_code`. Any number of two bytes is cast to one. -/
structure CloseCode where
  value : Nat
  deriving DecidableEq, Repr

namespace CloseCode

def protocol_error : CloseCode := ⟨1002⟩
def no_status_rcvd : CloseCode := ⟨1005⟩
def invalid_frame_payload_data : CloseCode := ⟨1007⟩
def internal_error : CloseCode := ⟨1011⟩

end CloseCode

structure RsvBits where
  rsv1 : Bool
  rsv2 : Bool
  rsv3 : Bool
  deriving DecidableEq, Repr

/-- `frame_header`. -/
structure FrameHeader where
  fin : Bool
  rsv : RsvBits
  type : Opcode
  mask_bit : Bool
  payload_length : Nat
  mask_key : Nat
  deriving DecidableEq, Repr

/-- A header with every field zero. -/
def FrameHeader.zero : FrameHeader := ⟨false, ⟨false, false, false⟩, .continuation, false, 0, 0⟩

/-- `frame`. -/
structure Frame extends FrameHeader where
  content : List UInt8
  deriving DecidableEq, Repr

/-- `close_frame`. -/
structure CloseFrame where
  code : CloseCode
  reason : List UInt8
  deriving DecidableEq, Repr

/-- `message_frame`. -/
structure MessageFrame where
  type : Opcode
  finished : Bool
  payload : List UInt8
  deriving DecidableEq, Repr

/-- `completed_frame`, a variant of the four frame types. -/
inductive CompletedFrame where
  | close (f : CloseFrame)
  | ping (payload : List UInt8)
  | pong (payload : List UInt8)
  | message (f : MessageFrame)
  deriving DecidableEq, Repr

/-- `completed_frame::type`. -/
def CompletedFrame.type : CompletedFrame → Opcode
  | .close _ => .close
  | .ping _ => .ping
  | .pong _ => .pong
  | .message f => f.type

/-- `message`. -/
structure Message where
  type : Opcode
  origin : Endpoint
  content : List UInt8
  blocked : Bool
  deriving DecidableEq, Repr

end proxy.websocket
