-- The stream buffer of `util/streambuf.hpp`, and the segment over a buffer that
-- is not consumed, `const_buffer_segment` of `util/buffer_segment.cpp`.
--
-- The pointers of the get area and the put area are offsets into the vector,
-- and sizes have 64 bits. The end of the get area is the start of the put area
-- at each of the calls that are here.
import Aether.Error
import Aether.Lib.Filled
import Aether.Util.Bytes

open proxy util.bytes lib.filled

namespace util.buffer

/-- `a + b` and `a - b` of sizes. -/
def size_add (a b : Nat) : Nat := (a + b) % 2 ^ 64

def size_sub (a b : Nat) : Nat := (a + (2 ^ 64 - b)) % 2 ^ 64

theorem size_add_of_lt {a b : Nat} (h : a + b < 2 ^ 64) : size_add a b = a + b :=
  Nat.mod_eq_of_lt h

theorem size_sub_of_le {a b : Nat} (hb : b ≤ a) (ha : a < 2 ^ 64) : size_sub a b = a - b := by
  unfold size_sub
  omega

def buffer_delta : Nat := 1 <<< 7

def max_size : Nat := 2 ^ 64 - 1

structure Streambuf where
  buffer_ : List UInt8
  gptr : Nat
  pptr : Nat
  epptr : Nat
  deriving DecidableEq, Repr

namespace Streambuf

def new : Streambuf := ⟨List.replicate buffer_delta 0, 0, 0, buffer_delta⟩

def size (sb : Streambuf) : Nat := sb.pptr - sb.gptr

def data (sb : Streambuf) : List UInt8 := part sb.buffer_ sb.gptr sb.pptr

/-- `std::vector::resize`. -/
def resize (v : List UInt8) (n : Nat) : List UInt8 := v.take n ++ List.replicate (n - v.length) 0

def reserve (sb : Streambuf) (n : Nat) : Except Error Streambuf :=
  if n ≤ sb.epptr - sb.pptr then .ok sb
  else
    let pnext := sb.pptr - sb.gptr
    let buffer := if 0 < sb.gptr then writeAt sb.buffer_ 0 (part sb.buffer_ sb.gptr sb.pptr)
      else sb.buffer_
    if n ≤ sb.epptr - pnext then .ok ⟨buffer, 0, pnext, sb.epptr⟩
    else if n ≤ max_size ∧ pnext ≤ max_size - n then
      .ok ⟨resize buffer (max (pnext + n) 1), 0, pnext, pnext + n⟩
    -- `std::length_error` out of `prepare`, which is `noexcept`.
    else .error .terminated

/-- `prepare`. The output sequence that it returns starts at `pptr`. -/
def prepare (sb : Streambuf) (n : Nat) : Except Error Streambuf := sb.reserve n

/-- `commit`. A bump by a negative `int` moves the pointer back. -/
def commit (sb : Streambuf) (n : Nat) : Streambuf :=
  { sb with pptr := (sb.pptr + toInt (min n (sb.epptr - sb.pptr))).toNat }

end Streambuf

/-- `std::copy(buf + first, buf + last, &sequence[i])`, where both ranges have to be there. -/
def copy (buf : List UInt8) (first last : Nat) (sb : Streambuf) (i : Nat) :
    Except Error Streambuf :=
  if first ≤ last ∧ last ≤ buf.length ∧ sb.pptr + i + (last - first) ≤ sb.buffer_.length then
    .ok { sb with buffer_ := writeAt sb.buffer_ (sb.pptr + i) (part buf first last) }
  else .error .undefined

structure ConstBufferSegment where
  is_complete_ : Bool
  buffer_ : Streambuf
  bytes_in_buffer_ : Nat
  num_bytes_read_last_ : Nat
  deriving DecidableEq, Repr

namespace ConstBufferSegment

def new : ConstBufferSegment := ⟨false, .new, 0, 0⟩

def mark_as_incomplete (seg : ConstBufferSegment) : ConstBufferSegment :=
  { seg with is_complete_ := false }

def bytes_not_committed (seg : ConstBufferSegment) : Nat := seg.bytes_in_buffer_

def committed_data (seg : ConstBufferSegment) : List UInt8 := seg.buffer_.data

/-- `commit_buffer` with the default argument. -/
def commit_buffer (seg : ConstBufferSegment) : ConstBufferSegment :=
  { seg with
    buffer_ := seg.buffer_.commit (min max_size seg.bytes_in_buffer_)
    bytes_in_buffer_ := 0 }

def read_up_to_bytes (seg : ConstBufferSegment) (buf : List UInt8) (bytes size : Nat) :
    Except Error ConstBufferSegment :=
  if seg.is_complete_ then .ok seg
  else if bytes = 0 then .ok { seg with is_complete_ := true }
  else
    let offset := seg.buffer_.size
    let bytes_available := size_sub size offset
    let to_read := size_sub bytes seg.bytes_in_buffer_
    let first := size_add offset seg.bytes_in_buffer_
    do
      let sequence ← seg.buffer_.prepare to_read
      if to_read ≤ bytes_available then
        let sequence ← copy buf first (size_add offset to_read) sequence seg.bytes_in_buffer_
        return commit_buffer {
          is_complete_ := true
          buffer_ := sequence
          bytes_in_buffer_ := size_add seg.bytes_in_buffer_ to_read
          num_bytes_read_last_ := to_read }
      else
        let sequence ← copy buf first buf.length sequence seg.bytes_in_buffer_
        return {
          is_complete_ := false
          buffer_ := sequence
          bytes_in_buffer_ := size_add seg.bytes_in_buffer_ bytes_available
          num_bytes_read_last_ := bytes_available }

end ConstBufferSegment

/-! ## What a segment holds of a text -/

/-- An open segment that has committed the first `c` bytes of a text and counts `b` more. Its memory
has the first `k` bytes of it, and room for `c + m`. -/
structure Holds (w : List UInt8) (c b k m : Nat) (seg : ConstBufferSegment) : Prop where
  open_ : seg.is_complete_ = false
  start : seg.buffer_.gptr = 0
  put : seg.buffer_.pptr = c
  room : seg.buffer_.epptr = seg.buffer_.buffer_.length
  wide : c + m ≤ seg.buffer_.buffer_.length
  small : seg.buffer_.buffer_.length < 2 ^ 31
  count : seg.bytes_in_buffer_ = b
  filled : Filled w 0 k seg.buffer_.buffer_
  reach : c + b ≤ k

namespace Holds

variable {w : List UInt8} {c b k m : Nat} {seg : ConstBufferSegment}

theorem new (w : List UInt8) : Holds w 0 0 0 buffer_delta ConstBufferSegment.new where
  open_ := rfl
  start := rfl
  put := rfl
  room := List.length_replicate.symm
  wide := by
    apply Nat.le_of_eq
    exact (Nat.zero_add _).trans List.length_replicate.symm
  small := by
    have hlen : (List.replicate buffer_delta (0 : UInt8)).length = 128 := List.length_replicate
    exact hlen ▸ (by decide : 128 < 2 ^ 31)
  count := rfl
  filled := Filled.replicate w 0 buffer_delta
  reach := Nat.zero_le _

theorem size_eq (h : Holds w c b k m seg) : seg.buffer_.size = c := by
  unfold Streambuf.size
  rw [h.start, h.put, Nat.sub_zero]

/-- Room is made by growing the memory at its end. -/
theorem prepare (h : Holds w c b k m seg) {n : Nat} (hn : c + n < 2 ^ 31) :
    ∃ sb, seg.buffer_.prepare n = .ok sb ∧
      Holds w c b k (max m n) { seg with buffer_ := sb } := by
  have hput := h.put
  have hstart := h.start
  have hroom := h.room
  have hwide := h.wide
  have hsmall := h.small
  unfold Streambuf.prepare Streambuf.reserve
  by_cases hfit : n ≤ seg.buffer_.epptr - seg.buffer_.pptr
  · rw [if_pos hfit]
    exact ⟨_, rfl, h.open_, hstart, hput, hroom, by simp only; omega, hsmall, h.count, h.filled,
      h.reach⟩
  · have hlow : seg.buffer_.pptr - seg.buffer_.gptr = c := by rw [hput, hstart]; rfl
    have hmax : max_size = 2 ^ 64 - 1 := rfl
    rw [if_neg hfit]
    simp only [hlow]
    have hnarrow : ¬ n ≤ seg.buffer_.epptr - c := by omega
    have hallowed : n ≤ max_size ∧ c ≤ max_size - n := by omega
    have hfront : ¬ 0 < seg.buffer_.gptr := by omega
    rw [if_neg hnarrow, if_pos hallowed, if_neg hfront]
    have hgrow : Streambuf.resize seg.buffer_.buffer_ (max (c + n) 1) =
        seg.buffer_.buffer_ ++
          List.replicate (max (c + n) 1 - seg.buffer_.buffer_.length) 0 := by
      unfold Streambuf.resize
      rw [List.take_of_length_le (by omega)]
    refine ⟨_, rfl, h.open_, rfl, rfl, ?_, ?_, ?_, h.count, ?_, h.reach⟩
    · simp only [hgrow, List.length_append, List.length_replicate]
      omega
    · simp only [hgrow, List.length_append, List.length_replicate]
      omega
    · simp only [hgrow, List.length_append, List.length_replicate]
      omega
    · simp only [hgrow]
      exact h.filled.grow _

/-- A copy of the next part of the text fills the memory up to the end of that part. -/
theorem copy (h : Holds w c b k m seg) {buf : List UInt8} {last : Nat} (hbuf : buf <+: w)
    (hfirst : c + b ≤ last) (hlast : last ≤ buf.length) (hm : last ≤ c + m) :
    ∃ sb, util.buffer.copy buf (c + b) last seg.buffer_ b = .ok sb ∧
      Holds w c b (max k last) m { seg with buffer_ := sb } := by
  have hwide := h.wide
  have hreach := h.reach
  have hle := hbuf.length_le
  have hpart : part buf (c + b) last = part w (c + b) last := by
    unfold part
    rw [List.prefix_iff_eq_take.mp hbuf, List.take_take, Nat.min_eq_left hlast]
  have hlen : (writeAt seg.buffer_.buffer_ (c + b) (part w (c + b) last)).length =
      seg.buffer_.buffer_.length := by
    apply length_writeAt
    rw [length_part (by omega)]
    omega
  unfold util.buffer.copy
  rw [h.put, if_pos ⟨hfirst, hlast, by omega⟩, hpart]
  refine ⟨_, rfl, h.open_, h.start, rfl, ?_, ?_, ?_, h.count, ?_, ?_⟩
  · simp only [hlen]; exact h.room
  · simp only [hlen]; exact hwide
  · simp only [hlen]; exact h.small
  · exact h.filled.write hreach hfirst (by omega) (by omega)
  · exact Nat.le_trans hreach (Nat.le_max_left _ _)

end Holds

/-- A complete segment that has committed `n` bytes, of which the first `k` are those of a text. -/
structure Complete (w : List UInt8) (n k : Nat) (seg : ConstBufferSegment) : Prop where
  closed : seg.is_complete_ = true
  start : seg.buffer_.gptr = 0
  put : seg.buffer_.pptr = n
  room : seg.buffer_.epptr = seg.buffer_.buffer_.length
  wide : n ≤ seg.buffer_.buffer_.length
  small : seg.buffer_.buffer_.length < 2 ^ 31
  count : seg.bytes_in_buffer_ = 0
  filled : Filled w 0 k seg.buffer_.buffer_

namespace Complete

variable {w : List UInt8} {n k : Nat} {seg : ConstBufferSegment}

theorem committed_data_eq (h : Complete w n k seg) :
    seg.committed_data = seg.buffer_.buffer_.take n := by
  unfold ConstBufferSegment.committed_data Streambuf.data part
  rw [h.start, h.put, List.drop_zero]

/-- The text comes out iff what is missing of it is zero. -/
theorem committed_data_iff (h : Complete w n k seg) (hn : n ≤ w.length) :
    seg.committed_data = w.take n ↔ ∀ x ∈ part w k n, x = 0 := by
  rw [h.committed_data_eq]
  exact h.filled.take_eq_iff hn h.wide

theorem reopen (h : Complete w n k seg) (hnk : n ≤ k) : Holds w n 0 k 0 seg.mark_as_incomplete where
  open_ := rfl
  start := h.start
  put := h.put
  room := h.room
  wide := h.wide
  small := h.small
  count := h.count
  filled := h.filled
  reach := hnk

end Complete

/-! ## The laws of a read -/

namespace Holds

variable {w buf : List UInt8} {c b k m : Nat} {seg : ConstBufferSegment}

/-- A read that is told of too few bytes copies all that came, and counts what it was told of. -/
theorem read_short (h : Holds w c b k m seg) (hbuf : buf <+: w) {bytes size : Nat}
    (hb : b < bytes) (hbound : c + bytes < 2 ^ 31) (hsize : c ≤ size) (hsize' : size < 2 ^ 64)
    (hshort : size - c < bytes - b) (hcame : b + size ≤ buf.length)
    (hm : bytes ≤ max m (bytes - b)) (hfit : buf.length ≤ c + bytes) :
    ∃ seg', seg.read_up_to_bytes buf bytes size = .ok seg' ∧
      Holds w c (b + (size - c)) (max k buf.length) (max m (bytes - b)) seg' := by
  have havail : size_sub size c = size - c := size_sub_of_le hsize hsize'
  have hread : size_sub bytes b = bytes - b := size_sub_of_le (by omega) (by omega)
  have hfirst : size_add c b = c + b := size_add_of_lt (by omega)
  obtain ⟨sb, hprepare, hsb⟩ := h.prepare (show c + (bytes - b) < 2 ^ 31 by omega)
  obtain ⟨sb', hcopy, hsb'⟩ := hsb.copy hbuf (by omega) (Nat.le_refl _) (by omega)
  have hcount : size_add b (size - c) = b + (size - c) := size_add_of_lt (by omega)
  have heq : seg.read_up_to_bytes buf bytes size =
      .ok ⟨false, sb', b + (size - c), size - c⟩ := by
    unfold ConstBufferSegment.read_up_to_bytes
    rw [if_neg (by simp [h.open_]), if_neg (by omega)]
    simp only [h.size_eq, h.count, havail, hread, hfirst, hprepare, bind, Except.bind]
    rw [if_neg (by omega)]
    simp only [hcopy, hcount]
    rfl
  refine ⟨_, heq, rfl, hsb'.start, hsb'.put, hsb'.room, hsb'.wide, hsb'.small, rfl,
    hsb'.filled, ?_⟩
  omega

/-- A read that is told of enough bytes copies as many as it thinks are missing. -/
theorem read_enough (h : Holds w c b k m seg) (hbuf : buf <+: w) {bytes size : Nat}
    (hb : b < bytes) (hbound : c + bytes < 2 ^ 31) (henough : bytes - b ≤ size_sub size c)
    (hm : bytes ≤ max m (bytes - b)) (hforward : b ≤ bytes - b)
    (hfit : c + (bytes - b) ≤ buf.length) :
    ∃ seg', seg.read_up_to_bytes buf bytes size = .ok seg' ∧
      Complete w (c + bytes) (max k (c + (bytes - b))) seg' := by
  have hread : size_sub bytes b = bytes - b := size_sub_of_le (by omega) (by omega)
  have hfirst : size_add c b = c + b := size_add_of_lt (by omega)
  have hlast : size_add c (bytes - b) = c + (bytes - b) := size_add_of_lt (by omega)
  obtain ⟨sb, hprepare, hsb⟩ := h.prepare (show c + (bytes - b) < 2 ^ 31 by omega)
  obtain ⟨sb', hcopy, hsb'⟩ := hsb.copy hbuf (show c + b ≤ c + (bytes - b) by omega) hfit (by omega)
  have hcount : size_add b (bytes - b) = bytes := by
    rw [size_add_of_lt (by omega)]; omega
  have hwide := hsb'.wide
  have hroom := hsb'.room
  have hput := hsb'.put
  simp only at hwide hroom hput
  have hsome : bytes ≠ 0 := by omega
  have hlong : c + bytes ≤ sb'.buffer_.length := by omega
  have hmax : max_size = 2 ^ 64 - 1 := rfl
  have hall : min (min max_size bytes) (sb'.epptr - sb'.pptr) = bytes := by omega
  have hcommit : (sb'.pptr + toInt bytes).toNat = c + bytes := by
    rw [toInt_of_lt (by omega), hput]; omega
  have heq : seg.read_up_to_bytes buf bytes size =
      .ok ⟨true, { sb' with pptr := c + bytes }, 0, bytes - b⟩ := by
    unfold ConstBufferSegment.read_up_to_bytes
    rw [if_neg (by simp [h.open_]), if_neg hsome]
    simp only [h.size_eq, h.count, hread, hfirst, hlast, hprepare, bind, Except.bind]
    rw [if_pos henough]
    simp only [hcopy, ConstBufferSegment.commit_buffer, Streambuf.commit, hcount, hall, hcommit]
    rfl
  exact ⟨_, heq, rfl, hsb'.start, rfl, hroom, hlong, hsb'.small, rfl, hsb'.filled⟩

/-- The same, where what it thinks is missing begins before it ends, or ends after the buffer. -/
theorem read_outside (h : Holds w c b k m seg) {bytes size : Nat} (hb : b < bytes)
    (hbound : c + bytes < 2 ^ 31) (henough : bytes - b ≤ size_sub size c)
    (hout : ¬ (b ≤ bytes - b ∧ c + (bytes - b) ≤ buf.length)) :
    seg.read_up_to_bytes buf bytes size = .error .undefined := by
  have hread : size_sub bytes b = bytes - b := size_sub_of_le (by omega) (by omega)
  have hfirst : size_add c b = c + b := size_add_of_lt (by omega)
  have hlast : size_add c (bytes - b) = c + (bytes - b) := size_add_of_lt (by omega)
  obtain ⟨sb, hprepare, -⟩ := h.prepare (show c + (bytes - b) < 2 ^ 31 by omega)
  unfold ConstBufferSegment.read_up_to_bytes
  rw [if_neg (by simp [h.open_]), if_neg (by omega)]
  simp only [h.size_eq, h.count, hread, hfirst, hlast, hprepare, bind, Except.bind]
  rw [if_pos henough, util.buffer.copy, if_neg (by omega)]

end Holds

/-- A segment that reads towards `bytes` behind `c` committed bytes, whatever they are. -/
structure Reading (c bytes : Nat) (seg : ConstBufferSegment) : Prop where
  open_ : seg.is_complete_ = false
  start : seg.buffer_.gptr = 0
  put : seg.buffer_.pptr = c
  room : seg.buffer_.epptr = seg.buffer_.buffer_.length
  wide : c ≤ seg.buffer_.buffer_.length
  small : seg.buffer_.buffer_.length < 2 ^ 31
  count : seg.bytes_in_buffer_ ≤ bytes - 1

namespace Reading

variable {c bytes : Nat} {seg : ConstBufferSegment}

theorem committed_data_eq (h : Reading c bytes seg) :
    seg.committed_data = seg.buffer_.buffer_.take c := by
  unfold ConstBufferSegment.committed_data Streambuf.data part
  rw [h.start, h.put, List.drop_zero]

theorem prepare_keeps (h : Reading c bytes seg) {n : Nat} {sb : Streambuf} (hn : c + n < 2 ^ 31)
    (hp : seg.buffer_.prepare n = .ok sb) :
    Reading c bytes { seg with buffer_ := sb } ∧
      sb.buffer_.take c = seg.buffer_.buffer_.take c := by
  have hput := h.put
  have hstart := h.start
  have hroom := h.room
  have hwide := h.wide
  unfold Streambuf.prepare Streambuf.reserve at hp
  split at hp
  · cases hp
    exact ⟨h, rfl⟩
  rename_i hnarrow
  have hlow : seg.buffer_.pptr - seg.buffer_.gptr = c := by rw [hput, hstart]; rfl
  have hfront : ¬ 0 < seg.buffer_.gptr := by omega
  have hstill : ¬ n ≤ seg.buffer_.epptr - c := by omega
  simp only [hlow] at hp
  rw [if_neg hstill, if_neg hfront] at hp
  split at hp
  · cases hp
    have hgrow : (Streambuf.resize seg.buffer_.buffer_ (max (c + n) 1)).length = c + n := by
      unfold Streambuf.resize
      rw [List.length_append, List.length_take, List.length_replicate]
      omega
    have hkeep : (Streambuf.resize seg.buffer_.buffer_ (max (c + n) 1)).take c =
        seg.buffer_.buffer_.take c := by
      unfold Streambuf.resize
      rw [List.take_of_length_le (l := seg.buffer_.buffer_) (by omega),
        List.take_append_of_le_length hwide]
    refine ⟨⟨h.open_, rfl, rfl, ?_, ?_, ?_, h.count⟩, hkeep⟩
    · simp only [hgrow]
    · simp only [hgrow]; omega
    · simp only [hgrow]; exact hn
  · cases hp

theorem copy_keeps (h : Reading c bytes seg) {buf : List UInt8} {first last i : Nat}
    {sb : Streambuf} (hc : copy buf first last seg.buffer_ i = .ok sb) :
    Reading c bytes { seg with buffer_ := sb } ∧
      sb.buffer_.take c = seg.buffer_.buffer_.take c := by
  have hput := h.put
  unfold copy at hc
  split at hc
  · rename_i hin
    cases hc
    have hlen : (writeAt seg.buffer_.buffer_ (seg.buffer_.pptr + i) (part buf first last)).length =
        seg.buffer_.buffer_.length := by
      apply length_writeAt
      rw [length_part hin.2.1]
      exact hin.2.2
    refine ⟨⟨h.open_, h.start, hput, ?_, ?_, ?_, h.count⟩, take_writeAt (by omega) (by omega)⟩
    · simp only [hlen]; exact h.room
    · simp only [hlen]; exact h.wide
    · simp only [hlen]; exact h.small
  · cases hc

/-- Whatever a read copies, what was committed before it stays. -/
theorem read_keeps (h : Reading c bytes seg) {buf : List UInt8} {size : Nat}
    {seg' : ConstBufferSegment} (hbound : c + bytes < 2 ^ 31)
    (hr : seg.read_up_to_bytes buf bytes size = .ok seg') :
    (Reading c bytes seg' ∨ seg'.is_complete_ = true) ∧
      seg'.committed_data.take c = seg.buffer_.buffer_.take c := by
  have hcount := h.count
  have hread : size_sub bytes seg.bytes_in_buffer_ = bytes - seg.bytes_in_buffer_ :=
    size_sub_of_le (by omega) (by omega)
  unfold ConstBufferSegment.read_up_to_bytes at hr
  rw [if_neg (by simp [h.open_])] at hr
  by_cases hsome : bytes = 0
  · rw [if_pos hsome] at hr
    cases hr
    have hdata := h.committed_data_eq
    refine ⟨.inr rfl, ?_⟩
    unfold ConstBufferSegment.committed_data at hdata ⊢
    simp only [hdata]
    rw [List.take_take, Nat.min_self]
  rw [if_neg hsome] at hr
  simp only [hread, bind, Except.bind] at hr
  split at hr
  · cases hr
  rename_i sb hprepare
  obtain ⟨hsb, hkeep⟩ := h.prepare_keeps (by omega) hprepare
  split at hr
  · split at hr
    · cases hr
    rename_i sb' hcopy
    obtain ⟨hsb', hkeep'⟩ := hsb.copy_keeps hcopy
    cases hr
    refine ⟨.inr rfl, ?_⟩
    have hput := hsb'.put
    have hstart := hsb'.start
    have hsmall := hsb'.small
    have hroom := hsb'.room
    simp only at hput hstart hsmall hroom
    unfold ConstBufferSegment.committed_data Streambuf.data part
    simp only [ConstBufferSegment.commit_buffer, Streambuf.commit, hstart, List.drop_zero]
    rw [toInt_of_lt (by omega), List.take_take, hput, Nat.min_eq_left (by omega), hkeep', hkeep]
  · split at hr
    · cases hr
    rename_i hfew sb' hcopy
    obtain ⟨hsb', hkeep'⟩ := hsb.copy_keeps hcopy
    cases hr
    have hput := hsb'.put
    have hstart := hsb'.start
    simp only at hput hstart
    constructor
    · refine .inl ⟨rfl, hstart, hput, hsb'.room, hsb'.wide, hsb'.small, ?_⟩
      simp only [size_add]
      omega
    · unfold ConstBufferSegment.committed_data Streambuf.data part
      simp only [hstart, hput, List.drop_zero]
      rw [List.take_take, Nat.min_self, hkeep', hkeep]

end Reading

end util.buffer
