-- `read_up_to_bytes` of `util/buffer_segment.cpp` over the pointers of the stream buffer. The
-- counts are `size_t` in the segment, and `int` where the pointers are bumped.
import Aether.Util.ByteQueues
import Aether.Util.StreamReads

open proxy util.bytes lib.filled

namespace util.buffer

structure BaseSegment where
  is_complete_ : Bool
  buffer_ : BasicStreambuf
  bytes_in_buffer_ : Nat
  num_bytes_read_last_ : Nat
  deriving DecidableEq, Repr

namespace BaseSegment

def new : BaseSegment := ⟨false, .new max_size, 0, 0⟩

def committed_data (seg : BaseSegment) : List UInt8 := seg.buffer_.string_view

def reset (seg : BaseSegment) (address : Nat) : Except Error BaseSegment := do
  let buffer ← seg.buffer_.reset address
  return ⟨false, buffer, 0, seg.num_bytes_read_last_⟩

/-- `commit_buffer` with the default argument. -/
def commit_buffer (seg : BaseSegment) : Except Error BaseSegment := do
  let buffer ← seg.buffer_.commit (min max_size seg.bytes_in_buffer_)
  return { seg with buffer_ := buffer, bytes_in_buffer_ := 0 }

def commit (seg : BaseSegment) : Except Error BaseSegment := do
  let seg ← seg.commit_buffer
  return { seg with is_complete_ := true }

def mark_as_incomplete (seg : BaseSegment) : BaseSegment := { seg with is_complete_ := false }

/-- The segment after some bytes were read behind those that it has in its buffer. -/
def filled (seg : BaseSegment) (sequence : BasicStreambuf) (taken : List UInt8) : BaseSegment :=
  { seg with
    buffer_ := sequence
    bytes_in_buffer_ := size_add seg.bytes_in_buffer_ taken.length
    num_bytes_read_last_ := taken.length }

/-- What `sgetn` reads for a count, which is negative as a `std::streamsize` from 2^63 on. -/
def streamsize (n : Nat) : Nat := if n < 2 ^ 63 then n else 0

/-- `read_up_to_bytes` from a stream buffer. -/
def read_up_to_bytes (seg : BaseSegment) (inp : List UInt8) (bytes : Nat) :
    Except Error (BaseSegment × List UInt8) :=
  if seg.is_complete_ then .ok (seg, inp)
  else if bytes = 0 then .ok ({ seg with is_complete_ := true }, inp)
  else do
    let (sequence, _) ← seg.buffer_.prepare bytes
    let count := streamsize (size_sub bytes seg.bytes_in_buffer_)
    let sequence ← sequence.write seg.bytes_in_buffer_ (inp.take count)
    let seg := seg.filled sequence (inp.take count)
    if seg.bytes_in_buffer_ = bytes then
      let seg ← seg.commit
      return (seg, inp.drop count)
    else return (seg, inp.drop count)

/-- `read_up_to_bytes` from a stream. -/
def read_up_to_bytes_istream (seg : BaseSegment) (inp : Istream) (bytes : Nat) :
    Except Error (BaseSegment × Istream) :=
  if seg.is_complete_ then .ok (seg, inp)
  else if bytes = 0 then .ok ({ seg with is_complete_ := true }, inp)
  else do
    let (sequence, _) ← seg.buffer_.prepare bytes
    let (taken, inp) := inp.read (size_sub bytes seg.bytes_in_buffer_)
    let sequence ← sequence.write seg.bytes_in_buffer_ taken
    let seg := { seg.filled sequence taken with is_complete_ := inp.ok && !inp.eofbit }
    if seg.is_complete_ then
      let seg ← seg.commit_buffer
      return (seg, inp)
    else return (seg, inp)

end BaseSegment

/-- What a segment reads from. -/
inductive Source where
  | streambuf
  | istream
  deriving DecidableEq, Repr

namespace Source

/-- A read of what is there, from a stream that has just been made, and what is left of it. -/
def read (source : Source) (seg : BaseSegment) (inp : List UInt8) (bytes : Nat) :
    Except Error (BaseSegment × List UInt8) :=
  match source with
  | streambuf => seg.read_up_to_bytes inp bytes
  | istream =>
    (seg.read_up_to_bytes_istream (Istream.new inp) bytes).map (fun read => (read.1, read.2.rdbuf))

end Source

/-! ## A segment between two reads -/

/-- A segment with the committed bytes `c`. -/
structure Sound (seg : BaseSegment) (c window : List UInt8) : Prop where
  stands : Refines seg.buffer_ ⟨c, window⟩
  limit : seg.buffer_.max_size_ = max_size
  vector : seg.buffer_.buffer_.length < 2 ^ 63

/-- `data` lies behind the committed bytes, within the output sequence for all that is read
towards. -/
structure Partway (seg : BaseSegment) (bytes : Nat) (c data window : List UInt8) : Prop
    extends Sound seg c window where
  open_ : seg.is_complete_ = false
  count : seg.bytes_in_buffer_ = data.length
  written : window.take data.length = data
  room : data = [] ∨ bytes ≤ window.length

namespace BasicStreambuf

variable {sb sb' : BasicStreambuf} {n : Nat}

theorem prepare_keeps {seen : List UInt8} (h : sb.prepare n = .ok (sb', seen))
    (hlength : sb.buffer_.length < 2 ^ 63) :
    sb'.max_size_ = sb.max_size_ ∧ sb'.buffer_.length < 2 ^ 63 := by
  have hreserve : sb.reserve n = .ok sb' := by
    unfold prepare at h
    cases hr : sb.reserve n with
    | error e =>
      rw [hr] at h
      cases h
    | ok sb₁ =>
      rw [hr] at h
      rw [(Prod.mk.inj (Except.ok.inj h)).1]
  unfold reserve at hreserve
  split at hreserve
  · obtain rfl := Except.ok.inj hreserve
    exact ⟨rfl, hlength⟩
  simp only at hreserve
  have hshift : (if 0 < sb.gptr then writeAt sb.buffer_ 0 (part sb.buffer_ sb.gptr sb.pptr)
      else sb.buffer_).length < 2 ^ 63 := by
    split
    · unfold writeAt part
      simp only [List.take_zero, List.nil_append, List.length_append, List.length_drop,
        List.length_take]
      omega
    · exact hlength
  split at hreserve
  · obtain rfl := Except.ok.inj hreserve
    exact ⟨rfl, hshift⟩
  split at hreserve
  · split at hreserve
    · cases hreserve
    obtain rfl := Except.ok.inj hreserve
    refine ⟨rfl, ?_⟩
    simp only [Streambuf.resize, List.length_append, List.length_take, List.length_replicate]
    omega
  · cases hreserve

theorem write_keeps {off : Nat} {bytes : List UInt8} (h : sb.write off bytes = .ok sb') :
    sb'.max_size_ = sb.max_size_ ∧ sb'.buffer_.length = sb.buffer_.length := by
  unfold write at h
  split at h
  · rename_i hfits
    obtain rfl := Except.ok.inj h
    exact ⟨rfl, length_writeAt hfits⟩
  · cases h

/-- A count that is no `int` is not what the pointer is bumped by. -/
theorem commit_large (hplaced : sb.WellPlaced) (hlarge : 2 ^ 31 ≤ n)
    (hroom : n ≤ sb.epptr - sb.pptr) (h : sb.commit n = .ok sb') :
    sb'.string_view.length ≠ sb.string_view.length + n := by
  have horder := hplaced.order
  have hint := toInt_isInt n
  unfold commit at h
  simp only [Nat.min_eq_left hroom] at h
  by_cases hbump : 0 ≤ sb.pptr + toInt n ∧ sb.pptr + toInt n ≤ sb.buffer_.length
  · rw [pbump_ok hbump.1 hbump.2] at h
    obtain rfl := Except.ok.inj h
    rw [hplaced.length_view]
    unfold string_view setg_put size
    rw [length_part (by simp only; omega)]
    simp only
    omega
  · have hleaves : sb.pbump (toInt n) = .error .undefined := if_neg hbump
    rw [hleaves] at h
    cases h

end BasicStreambuf

theorem Istream.whole_new (w : List UInt8) :
    ((Istream.new w).ok && !(Istream.new w).eofbit) = true := rfl

theorem ok_bind {α β : Type} (a : α) (f : α → Except Error β) : (Except.ok a >>= f) = f a := rfl

namespace BaseSegment

/-- A commit that ends the read completes the segment, whether the flag is set before it or
behind it. -/
theorem commit_eq (seg : BaseSegment) :
    ({ seg with is_complete_ := true } : BaseSegment).commit_buffer = seg.commit := by
  unfold commit commit_buffer
  cases seg.buffer_.commit (min max_size seg.bytes_in_buffer_) <;> rfl

section

variable {seg : BaseSegment} {bytes : Nat} {sequence written : BasicStreambuf} {seen : List UInt8}

theorem read_up_to_bytes_eq {inp : List UInt8} {count : Nat} (hopen : seg.is_complete_ = false)
    (hpos : bytes ≠ 0) (hprepare : seg.buffer_.prepare bytes = .ok (sequence, seen))
    (hcount : streamsize (size_sub bytes seg.bytes_in_buffer_) = count)
    (hwrite : sequence.write seg.bytes_in_buffer_ (inp.take count) = .ok written) :
    seg.read_up_to_bytes inp bytes =
      if (seg.filled written (inp.take count)).bytes_in_buffer_ = bytes then
        (seg.filled written (inp.take count)).commit.map (fun s => (s, inp.drop count))
      else .ok (seg.filled written (inp.take count), inp.drop count) := by
  unfold read_up_to_bytes
  rw [if_neg (by rw [hopen]; exact Bool.false_ne_true), if_neg hpos, hprepare, hcount]
  show (sequence.write seg.bytes_in_buffer_ (inp.take count) >>= fun _ => _) = _
  rw [hwrite, ok_bind]
  generalize seg.filled written (inp.take count) = filled
  by_cases hfull : filled.bytes_in_buffer_ = bytes
  · rw [if_pos hfull, if_pos hfull]
    cases filled.commit <;> rfl
  · rw [if_neg hfull, if_neg hfull]
    rfl

theorem read_up_to_bytes_istream_eq {inp rest : Istream} {taken : List UInt8}
    (hopen : seg.is_complete_ = false) (hpos : bytes ≠ 0)
    (hprepare : seg.buffer_.prepare bytes = .ok (sequence, seen))
    (hread : inp.read (size_sub bytes seg.bytes_in_buffer_) = (taken, rest))
    (hwrite : sequence.write seg.bytes_in_buffer_ taken = .ok written) :
    seg.read_up_to_bytes_istream inp bytes =
      if (rest.ok && !rest.eofbit) = true then
        (seg.filled written taken).commit.map (fun s => (s, rest))
      else .ok ({ seg.filled written taken with is_complete_ := false }, rest) := by
  unfold read_up_to_bytes_istream
  rw [if_neg (by rw [hopen]; exact Bool.false_ne_true), if_neg hpos, hprepare, hread]
  show (sequence.write seg.bytes_in_buffer_ taken >>= fun _ => _) = _
  rw [hwrite, ok_bind]
  generalize (rest.ok && !rest.eofbit) = whole
  generalize seg.filled written taken = filled
  cases whole with
  | true =>
    rw [if_pos rfl, if_pos rfl, ← commit_eq]
    cases ({ filled with is_complete_ := true } : BaseSegment).commit_buffer <;> rfl
  | false =>
    rw [if_neg Bool.false_ne_true, if_neg Bool.false_ne_true]
    rfl

end

theorem reopen_eq {seg : BaseSegment} (h : seg.is_complete_ = false) :
    ({ seg with is_complete_ := false } : BaseSegment) = seg := by
  rw [← h]

end BaseSegment

namespace Partway

variable {seg : BaseSegment} {bytes : Nat} {c data window : List UInt8}

theorem committed (h : Partway seg bytes c data window) : seg.committed_data = c := h.stands.view

/-- A segment that has nothing in its buffer may be read towards any number of bytes. -/
theorem start (h : Partway seg bytes c [] window) (n : Nat) : Partway seg n c [] window :=
  ⟨h.toSound, h.open_, h.count, h.written, Or.inl rfl⟩

theorem length_le (h : Partway seg bytes c data window) : data.length ≤ window.length := by
  have hlength := congrArg List.length h.written
  rw [List.length_take] at hlength
  omega

/-- There is room for all that is read towards, or no vector has it. -/
theorem prepare (h : Partway seg bytes c data window) :
    (∃ sb seen window', seg.buffer_.prepare bytes = .ok (sb, seen) ∧
      Partway { seg with buffer_ := sb } bytes c data window' ∧ bytes ≤ window'.length ∧
      c.length + bytes < 2 ^ 63) ∨
    seg.buffer_.prepare bytes = .error .terminated ∧ 2 ^ 63 ≤ c.length + bytes := by
  have hmax : max_size = 2 ^ 64 - 1 := rfl
  rcases h.stands.prepare bytes with ⟨sb, seen, hok, hshows, hrefines⟩ | ⟨herror, hlong⟩
  · obtain ⟨hlimit, hvector⟩ := BasicStreambuf.prepare_keeps hok h.vector
    -- The window of the queue after the call.
    obtain ⟨window', hnext, hwritten, hroom⟩ : ∃ window',
        ByteQueue.next ⟨c, window⟩ seen (.prepare bytes) = ⟨c, window'⟩ ∧
          window'.take data.length = data ∧ bytes ≤ window'.length := by
      by_cases hfits : bytes ≤ window.length
      · exact ⟨window, if_pos hfits, h.written, hfits⟩
      · refine ⟨seen, if_neg hfits, ?_, Nat.le_of_eq hshows.1.symm⟩
        rcases h.room with rfl | hroom
        · rfl
        · exact absurd hroom hfits
    rw [hnext] at hrefines
    refine Or.inl ⟨sb, seen, window', hok, ⟨⟨hrefines, hlimit.trans h.limit, hvector⟩, h.open_,
      h.count, hwritten, Or.inr hroom⟩, hroom, ?_⟩
    have hin := hrefines.room
    have hwithin := hrefines.placed.within
    have hsize := hrefines.size_eq
    unfold BasicStreambuf.size at hsize
    simp only at hin hsize
    omega
  · refine Or.inr ⟨herror, ?_⟩
    unfold BasicStreambuf.Exceeds at hlong
    simp only [h.limit, hmax] at hlong
    omega

/-- Bytes are written behind the others. -/
theorem fill (h : Partway seg bytes c data window) (hroom : bytes ≤ window.length)
    (hvector : bytes < 2 ^ 63) {taken : List UInt8} (hfits : data.length + taken.length ≤ bytes) :
    ∃ sb window', seg.buffer_.write seg.bytes_in_buffer_ taken = .ok sb ∧
      Partway (seg.filled sb taken) bytes c (data ++ taken) window' ∧ bytes ≤ window'.length := by
  have hin : data.length + taken.length ≤ window.length := by omega
  obtain ⟨sb, hok, hrefines⟩ := h.stands.write hin
  obtain ⟨hlimit, hsame⟩ := BasicStreambuf.write_keeps hok
  have hlength : (writeAt window data.length taken).length = window.length := length_writeAt hin
  have hwritten : (writeAt window data.length taken).take (data ++ taken).length =
      data ++ taken := by
    unfold writeAt
    rw [h.written, List.take_left]
  rw [← h.count] at hok
  refine ⟨sb, _, hok, ⟨⟨hrefines, hlimit.trans h.limit, ?_⟩, h.open_, ?_, hwritten, ?_⟩, ?_⟩
  · rw [BaseSegment.filled, hsame]
    exact h.vector
  · unfold BaseSegment.filled
    simp only
    rw [h.count, List.length_append, size_add_of_lt (by omega)]
  · exact Or.inr (by rw [hlength]; exact hroom)
  · rw [hlength]
    exact hroom

/-- A read takes what is missing, as far as it is there. With all of it the segment is committed. -/
theorem read (h : Partway seg bytes c data window) (hshort : data.length < bytes) (source : Source)
    (inp : List UInt8) :
    (source.read seg inp bytes = .error .terminated ∧ 2 ^ 63 ≤ c.length + bytes) ∨
    ∃ s window', Partway s bytes c (data ++ inp.take (bytes - data.length)) window' ∧
      bytes ≤ window'.length ∧ c.length + bytes < 2 ^ 63 ∧
      source.read seg inp bytes =
        if bytes ≤ data.length + inp.length then
          s.commit.map (fun s => (s, inp.drop (bytes - data.length)))
        else .ok (s, []) := by
  have hpos : bytes ≠ 0 := by omega
  have hopen : ¬ seg.is_complete_ = true := by rw [h.open_]; exact Bool.false_ne_true
  rcases h.prepare with ⟨sb, seen, window₁, hprepare, hm, hroom, hvector⟩ | ⟨herror, hlong⟩
  · have hcount := h.count
    have hwanted : size_sub bytes seg.bytes_in_buffer_ = bytes - data.length := by
      rw [size_sub_of_le (by omega) (by omega), hcount]
    have htaken : (inp.take (bytes - data.length)).length ≤ bytes - data.length :=
      List.length_take_le _ _
    have hfits : data.length + (inp.take (bytes - data.length)).length ≤ bytes := by omega
    obtain ⟨sb', window', hwrite, hs, hroom'⟩ := hm.fill hroom (by omega) hfits
    have hs : Partway (seg.filled sb' (inp.take (bytes - data.length))) bytes c
        (data ++ inp.take (bytes - data.length)) window' := hs
    have hfull : (seg.filled sb' (inp.take (bytes - data.length))).bytes_in_buffer_ = bytes ↔
        bytes ≤ data.length + inp.length := by
      rw [hs.count, List.length_append, List.length_take]
      omega
    simp only at hwrite
    refine Or.inr ⟨_, window', hs, hroom', hvector, ?_⟩
    cases source with
    | streambuf =>
      show seg.read_up_to_bytes inp bytes = _
      rw [BaseSegment.read_up_to_bytes_eq h.open_ hpos hprepare
        (by rw [hwanted]; exact if_pos (by omega)) hwrite]
      by_cases henough : bytes ≤ data.length + inp.length
      · rw [if_pos henough, if_pos (hfull.mpr henough)]
      · rw [if_neg henough, if_neg (fun h => henough (hfull.mp h)),
          List.drop_of_length_le (by omega)]
    | istream =>
      show (seg.read_up_to_bytes_istream (Istream.new inp) bytes).map _ = _
      by_cases henough : bytes ≤ data.length + inp.length
      · have hread : (Istream.new inp).read (size_sub bytes seg.bytes_in_buffer_) =
            (inp.take (bytes - data.length), Istream.new (inp.drop (bytes - data.length))) := by
          rw [hwanted]
          exact Istream.read_enough (by omega) (by omega)
        rw [BaseSegment.read_up_to_bytes_istream_eq h.open_ hpos hprepare hread hwrite,
          if_pos henough, if_pos (Istream.whole_new _)]
        cases (seg.filled sb' (inp.take (bytes - data.length))).commit <;> rfl
      · have hall : inp.take (bytes - data.length) = inp := List.take_of_length_le (by omega)
        have hread : (Istream.new inp).read (size_sub bytes seg.bytes_in_buffer_) =
            (inp, ⟨[], true, true⟩) := by
          rw [hwanted]
          exact Istream.read_short (by omega) (by omega)
        rw [hall] at hwrite hs ⊢
        rw [BaseSegment.read_up_to_bytes_istream_eq h.open_ hpos hprepare hread hwrite,
          if_neg henough, if_neg (by decide), BaseSegment.reopen_eq hs.open_]
        rfl
  · refine Or.inl ⟨?_, hlong⟩
    cases source with
    | streambuf =>
      unfold Source.read BaseSegment.read_up_to_bytes
      rw [if_neg hopen, if_neg hpos, herror]
      rfl
    | istream =>
      unfold Source.read BaseSegment.read_up_to_bytes_istream
      rw [if_neg hopen, if_neg hpos, herror]
      rfl

/-- A commit of less than 2^31 bytes puts them behind those that are committed. -/
theorem commit_small (h : Partway seg bytes c data window) (hfull : data.length = bytes)
    (hsmall : bytes < 2 ^ 31) : ∃ s window', seg.commit = .ok s ∧ s.is_complete_ = true ∧
      s.bytes_in_buffer_ = 0 ∧ Sound s (c ++ data) window' := by
  have hmax : max_size = 2 ^ 64 - 1 := rfl
  have hcount : min max_size seg.bytes_in_buffer_ = bytes := by
    rw [h.count]
    omega
  have hroom := h.stands.room
  have hle := h.length_le
  simp only at hroom
  have hmin : min bytes (seg.buffer_.epptr - seg.buffer_.pptr) < 2 ^ 31 := by omega
  have hall : min bytes (seg.buffer_.epptr - seg.buffer_.pptr) = bytes := by omega
  obtain ⟨sb, hok, hshows, hrefines⟩ := h.stands.commit hmin
  have hkeeps := h.stands.placed.commit hmin
  rw [hok] at hkeeps
  rw [hall] at hshows hrefines
  -- What is committed is what was read.
  have hseen : part seg.buffer_.buffer_ seg.buffer_.pptr (seg.buffer_.pptr + bytes) = data := by
    obtain ⟨hlength, hfront⟩ := hshows
    simp only [← hfull, h.written] at hfront hlength ⊢
    exact (hfront.eq_of_length_le hlength).symm
  rw [hseen] at hrefines
  refine ⟨⟨true, sb, 0, seg.num_bytes_read_last_⟩, _, ?_, rfl, rfl, hrefines, ?_, ?_⟩
  · unfold BaseSegment.commit BaseSegment.commit_buffer
    rw [hcount, hok]
    rfl
  · rw [Except.ok.inj hkeeps]
    exact h.limit
  · rw [Except.ok.inj hkeeps]
    exact h.vector

/-- A commit of more bytes does not. -/
theorem commit_large (h : Partway seg bytes c data window) (hfull : data.length = bytes)
    (hlarge : 2 ^ 31 ≤ bytes) (hvector : bytes < 2 ^ 63) {s : BaseSegment}
    (hok : seg.commit = .ok s) : s.committed_data ≠ c ++ data := by
  have hmax : max_size = 2 ^ 64 - 1 := rfl
  have hcount : min max_size seg.bytes_in_buffer_ = bytes := by
    rw [h.count]
    omega
  have hroom := h.stands.room
  have hle := h.length_le
  simp only at hroom
  unfold BaseSegment.commit BaseSegment.commit_buffer at hok
  rw [hcount] at hok
  cases hcommit : seg.buffer_.commit bytes with
  | error e =>
    rw [hcommit] at hok
    cases hok
  | ok sb =>
    rw [hcommit] at hok
    obtain rfl := Except.ok.inj hok
    have hwrong := BasicStreambuf.commit_large h.stands.placed hlarge (by omega) hcommit
    intro hright
    apply hwrong
    rw [h.stands.view, ← hfull, ← List.length_append]
    exact congrArg List.length hright

end Partway

end util.buffer
