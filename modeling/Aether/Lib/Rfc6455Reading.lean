-- What a reader of RFC 6455 makes of a sequence of frames: pieces of messages
-- and control frames, each only where it may stand. Nothing here is about the
-- proxy.
import Aether.Lib.Rfc6455

open lib.big_endian

namespace lib.rfc6455

/-- What a frame brings. -/
inductive Item where
  | data (p : Piece)
  | close (status : Option Nat) (reason : List UInt8)
  | ping (payload : List UInt8)
  | pong (payload : List UInt8)
  deriving DecidableEq, Repr

/-- Section 5.5.1: a body starts with a status code of two bytes. -/
def closeBody : List UInt8 → Option (Option Nat × List UInt8)
  | [] => some (none, [])
  | [_] => none
  | s0 :: s1 :: reason => some (some (ofBigEndian [s0, s1]), reason)

/-- Section 5.5: a control frame is final, and has 125 bytes at most. -/
def readControl (f : Frame) : Option Item :=
  if !f.fin || decide (125 < f.payload.length) then none
  else
    match f.opcode.val with
    | 8 => (closeBody f.payload).map fun body => .close body.1 body.2
    | 9 => some (.ping f.payload)
    | 10 => some (.pong f.payload)
    | _ => none

/-- Section 5.4: a continuation has a message in progress, and any other data frame has none. -/
def pieceRead (progress : Option DataType) (f : Frame) : Option DataType :=
  match progress, f.opcode.val with
  | some type, 0 => some type
  | none, 1 => some .text
  | none, 2 => some .binary
  | _, _ => none

/-- One frame without extensions, and the type of the message that is in progress behind it. -/
def readFrame (progress : Option DataType) (f : Frame) : Option (Option DataType × Item) :=
  if f.rsv1 || f.rsv2 || f.rsv3 then none
  else if f.isControl then (readControl f).map fun item => (progress, item)
  else
    (pieceRead progress f).map fun type =>
      (if f.fin then none else some type, .data ⟨type, f.payload, f.fin⟩)

def readFrames (progress : Option DataType) : List Frame → Option (Option DataType × List Item)
  | [] => some (progress, [])
  | f :: fs => do
    let (progress, item) ← readFrame progress f
    let (progress, items) ← readFrames progress fs
    some (progress, item :: items)

/-- A frame behind those that were read. -/
theorem readFrames_snoc {progress progress' progress'' : Option DataType} {fs : List Frame}
    {items : List Item} {f : Frame} {item : Item}
    (h : readFrames progress fs = some (progress', items))
    (hf : readFrame progress' f = some (progress'', item)) :
    readFrames progress (fs ++ [f]) = some (progress'', items ++ [item]) := by
  induction fs generalizing progress items with
  | nil =>
    cases h
    simp [readFrames, hf]
  | cons g gs ih =>
    simp only [readFrames, Option.bind_eq_bind, Option.bind_eq_some_iff] at h
    obtain ⟨⟨p, i⟩, hg, ⟨p', is⟩, hgs, he⟩ := h
    cases he
    simp only [List.cons_append, readFrames, hg, Option.bind_eq_bind, Option.bind_some, ih hgs]

theorem encodeAll_snoc (fs : List Frame) (f : Frame) :
    encodeAll (fs ++ [f]) = encodeAll fs ++ encode f := by
  simp [encodeAll]

end lib.rfc6455
