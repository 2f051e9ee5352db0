-- Reads of `buffer_segment` from a `std::istream`, `util/buffer_segment.cpp`, and
-- the operations of the stream that they use.
--
-- A stream is the queue of the bytes of its buffer, and the bits of its state.
-- `consume` bumps the get pointer by an `int`, so a segment is emptied by a reset
-- only if it holds less than 2^31 bytes.
import Aether.Util.BufferSegment
import Aether.Util.Streambuf
import Aether.Util.Text

open proxy util.bytes util.string

namespace util.buffer

structure Istream where
  rdbuf : Text
  eofbit : Bool
  failbit : Bool
  deriving DecidableEq, Repr

namespace Istream

/-- A stream that was just made over a buffer. -/
def new (rdbuf : Text) : Istream := ⟨rdbuf, false, false⟩

def good (inp : Istream) : Bool := !inp.eofbit && !inp.failbit

/-- The state of the stream as a condition. -/
def ok (inp : Istream) : Bool := !inp.failbit

/-- `std::getline` into an empty string. The delimiter is taken, and is not in the string. -/
def getline (inp : Istream) (delim : UInt8) : Text × Istream :=
  if inp.good then
    let line := inp.rdbuf.takeWhile (fun c => c != delim)
    match inp.rdbuf.drop line.length with
    | _ :: rest => (line, { inp with rdbuf := rest })
    | [] => (line, ⟨[], true, line == []⟩)
  else ([], { inp with failbit := true })

/-- `std::istream::read`: the bytes, of which `gcount` is the number. A count that is negative as a
`std::streamsize` gives none. -/
def read (inp : Istream) (n : Nat) : Text × Istream :=
  if inp.good then
    let count := if n < 2 ^ 63 then n else 0
    let taken := inp.rdbuf.take count
    let short := taken.length != n
    (taken, ⟨inp.rdbuf.drop count, short, short⟩)
  else ([], { inp with failbit := true })

/-- What `std::istream_iterator<char>` goes through: the characters that are no white space. -/
def characters (inp : Istream) : Text × Istream :=
  if inp.good then (inp.rdbuf.filter (fun c => !isspace c), ⟨[], true, true⟩)
  else ([], { inp with failbit := true })

end Istream

/-- `base_segment`, with the count of its last read. -/
structure CountedSegment extends BufferSegment where
  num_bytes_read_last_ : Nat
  deriving DecidableEq, Repr

namespace CountedSegment

def new : CountedSegment := ⟨.new, 0⟩

def bytes_last_read (seg : CountedSegment) : Nat := seg.num_bytes_read_last_

def string_view (seg : CountedSegment) : Text := seg.committed

def mark_as_incomplete (seg : CountedSegment) : CountedSegment :=
  { seg with is_complete_ := false }

/-- `reset`. The count stays. A bump of the get pointer by a number that is no `int` leaves it off
the data. -/
def reset (seg : CountedSegment) : Except Error CountedSegment :=
  if seg.committed.length < 2 ^ 31 then .ok ⟨.new, seg.num_bytes_read_last_⟩ else .error .undefined

def commit_buffer (seg : CountedSegment) : Except Error CountedSegment :=
  seg.toBufferSegment.commit_buffer.map (fun b => ⟨b, seg.num_bytes_read_last_⟩)

/-- `read_up_to_bytes`. A sequence that a vector cannot hold ends the program, as `prepare` is
`noexcept`. -/
def read_up_to_bytes (seg : CountedSegment) (inp : Istream) (bytes : Nat) :
    Except Error (CountedSegment × Istream) :=
  if seg.is_complete_ then .ok (seg, inp)
  else if bytes = 0 then .ok ({ seg with is_complete_ := true }, inp)
  else if 2 ^ 63 ≤ seg.committed.length + bytes then .error .terminated
  else
    let (taken, inp) := inp.read (size_sub bytes seg.uncommitted.length)
    let seg := { seg with
      is_complete_ := inp.ok && !inp.eofbit
      uncommitted := seg.uncommitted ++ taken
      num_bytes_read_last_ := taken.length }
    if seg.is_complete_ then seg.commit_buffer.map (fun seg => (seg, inp)) else .ok (seg, inp)

/-- `read_until` a character. -/
def read_until (seg : CountedSegment) (inp : Istream) (delim : UInt8) :
    CountedSegment × Istream :=
  if seg.is_complete_ then (seg, inp)
  else
    let (temp, inp) := inp.getline delim
    ({ seg with
      is_complete_ := inp.ok && !inp.eofbit
      committed := seg.committed ++ temp
      uncommitted := []
      num_bytes_read_last_ := temp.length }, inp)

/-- `ends_with_delim`. -/
def ends_with (delim : Text) (seg : CountedSegment) : Bool :=
  decide (delim.length ≤ seg.committed.length) &&
    seg.committed.drop (seg.committed.length - delim.length) == delim

/-- The loop of `read_until` a string. Each turn but the last takes the last character of the
delimiter from the stream. -/
def read_until_loop (delim : Text) (final_delim : UInt8) :
    Nat → CountedSegment → Istream → CountedSegment × Istream
  | 0, seg, inp => (seg, inp)
  | turns + 1, seg, inp =>
    let (next, inp) := inp.getline final_delim
    if inp.ok && !inp.eofbit then
      let seg := { seg with
        committed := seg.committed ++ next ++ [final_delim]
        uncommitted := []
        num_bytes_read_last_ := next.length + 1 }
      if seg.ends_with delim then
        -- Remove delimiter.
        ({ seg with
          is_complete_ := true
          committed := seg.committed.take (seg.committed.length - delim.length) }, inp)
      else read_until_loop delim final_delim turns seg inp
    else if inp.ok then
      ({ seg with
        committed := seg.committed ++ next
        uncommitted := []
        num_bytes_read_last_ := next.length }, inp)
    else (seg, inp)

/-- `read_until` a string that is not empty. -/
def read_until_string (seg : CountedSegment) (inp : Istream) (delim : Text) :
    CountedSegment × Istream :=
  if seg.is_complete_ then (seg, inp)
  else read_until_loop delim (delim.getLastD 0) (inp.rdbuf.length + 1) seg inp

/-- `read_all`, which does not count. -/
def read_all (seg : CountedSegment) (inp : Istream) : CountedSegment × Istream :=
  if seg.is_complete_ then (seg, inp)
  else
    let (copied, inp) := inp.characters
    ({ seg with
      is_complete_ := true
      committed := seg.committed ++ copied
      uncommitted := [] }, inp)

end CountedSegment

end util.buffer
