-- `buffer_segment` of `util/buffer_segment.cpp` in the memory of its stream
-- buffer: the bytes of a read that is not complete lie in the put area, behind
-- the pointer, where a `reserve` that shifts the buffer would lose them.
import Aether.Util.BufferSegment
import Aether.Util.Streambuf

open proxy util.bytes lib.filled

namespace util.buffer

namespace Streambuf

/-- `consume`. A bump by a negative `int` moves the pointer back. -/
def consume (sb : Streambuf) (n : Nat) : Streambuf :=
  let n := if sb.pptr < sb.gptr + n then sb.size else n
  { sb with gptr := (sb.gptr + toInt n).toNat }

def reset (sb : Streambuf) : Streambuf := sb.consume sb.size

end Streambuf

/-- `in.sgetn(&sequence[i], n)`: what there is of `n` bytes goes to the sequence, which must have
room for it. -/
def sgetn (inp : List UInt8) (sb : Streambuf) (i n : Nat) : Except Error Streambuf :=
  if sb.pptr + i + (inp.take n).length ≤ sb.buffer_.length then
    .ok { sb with buffer_ := writeAt sb.buffer_ (sb.pptr + i) (inp.take n) }
  else .error .undefined

structure StreamSegment where
  is_complete_ : Bool
  buffer_ : Streambuf
  bytes_in_buffer_ : Nat
  deriving DecidableEq, Repr

namespace StreamSegment

def new : StreamSegment := ⟨false, .new, 0⟩

def committed_data (seg : StreamSegment) : List UInt8 := seg.buffer_.data

def reset (seg : StreamSegment) : StreamSegment := ⟨false, seg.buffer_.reset, 0⟩

/-- `commit_buffer` with the default argument. -/
def commit_buffer (seg : StreamSegment) : StreamSegment :=
  { seg with
    buffer_ := seg.buffer_.commit (min max_size seg.bytes_in_buffer_)
    bytes_in_buffer_ := 0 }

def commit (seg : StreamSegment) : StreamSegment :=
  { seg.commit_buffer with is_complete_ := true }

/-- `read_up_to_bytes` from a stream buffer: the segment, and what is left of the input. -/
def read_up_to_bytes (seg : StreamSegment) (inp : List UInt8) (bytes : Nat) :
    Except Error (StreamSegment × List UInt8) :=
  if seg.is_complete_ then .ok (seg, inp)
  else if bytes = 0 then .ok ({ seg with is_complete_ := true }, inp)
  else do
    let sequence ← seg.buffer_.prepare bytes
    let wanted := size_sub bytes seg.bytes_in_buffer_
    let sequence ← sgetn inp sequence seg.bytes_in_buffer_ wanted
    let seg : StreamSegment :=
      ⟨false, sequence, size_add seg.bytes_in_buffer_ (inp.take wanted).length⟩
    if seg.bytes_in_buffer_ = bytes then return (seg.commit, inp.drop wanted)
    else return (seg, inp.drop wanted)

end StreamSegment

/-! ## What a segment stands for -/

/-- The memory holds what the segment of lists does: the committed bytes in the get area, and the
others behind it, within the put area. -/
structure Mirrors (m : StreamSegment) (s : BufferSegment) : Prop where
  complete : m.is_complete_ = s.is_complete_
  committed : m.committed_data = s.committed
  held : part m.buffer_.buffer_ m.buffer_.pptr (m.buffer_.pptr + m.bytes_in_buffer_) = s.uncommitted
  count : m.bytes_in_buffer_ = s.uncommitted.length
  order : m.buffer_.gptr ≤ m.buffer_.pptr
  room : m.buffer_.pptr + m.bytes_in_buffer_ ≤ m.buffer_.epptr
  whole : m.buffer_.epptr = m.buffer_.buffer_.length
  small : m.buffer_.buffer_.length < 2 ^ 31

/-- A segment that holds bytes has room for all that they are read towards. -/
def Roomy (bytes : Nat) (m : StreamSegment) : Prop :=
  m.bytes_in_buffer_ = 0 ∨ bytes ≤ m.buffer_.epptr - m.buffer_.pptr

theorem mirrors_new : Mirrors .new .new where
  complete := rfl
  committed := rfl
  held := rfl
  count := rfl
  order := Nat.le_refl _
  room := Nat.zero_le _
  whole := List.length_replicate.symm
  small := by
    have hlen : (List.replicate buffer_delta (0 : UInt8)).length = 128 := List.length_replicate
    exact hlen ▸ (by decide : 128 < 2 ^ 31)

theorem part_writeAt {v xs : List UInt8} {p i : Nat} (hp : p ≤ i) (hi : i ≤ v.length) :
    part (writeAt v i xs) p (i + xs.length) = part v p i ++ xs := by
  have htake : (v.take i).length = i := by rw [List.length_take]; omega
  unfold part writeAt
  rw [List.take_left' (by rw [List.length_append, htake]),
    List.drop_append_of_le_length (by omega)]

theorem part_writeAt_before {v xs : List UInt8} {p q i : Nat} (hq : q ≤ i) (hi : i ≤ v.length) :
    part (writeAt v i xs) p q = part v p q := by
  unfold part
  rw [take_writeAt hi hq]

theorem part_self (v : List UInt8) (i : Nat) : part v i i = [] := by
  unfold part
  rw [List.drop_eq_nil_iff, List.length_take]
  omega

namespace Mirrors

variable {m : StreamSegment} {s : BufferSegment}

/-- Nothing is committed: the get area is empty. -/
theorem bare (h : Mirrors m s) (hs : s.committed = []) : m.buffer_.gptr = m.buffer_.pptr := by
  have horder := h.order
  have hroom := h.room
  have hwhole := h.whole
  have hlen := congrArg List.length h.committed
  rw [hs, StreamSegment.committed_data, Streambuf.data, length_part (by omega), List.length_nil]
    at hlen
  omega

/-- Room is made before a segment holds anything, so that nothing is lost where the buffer shifts.
-/
theorem prepare (h : Mirrors m s) {bytes : Nat} (hs : s.committed = []) (hr : Roomy bytes m)
    (hb : bytes < 2 ^ 31) :
    ∃ sb, m.buffer_.prepare bytes = .ok sb ∧ Mirrors { m with buffer_ := sb } s ∧
      bytes ≤ sb.epptr - sb.pptr := by
  have hbare := h.bare hs
  have horder := h.order
  have hroom := h.room
  have hwhole := h.whole
  have hsmall := h.small
  unfold Streambuf.prepare Streambuf.reserve
  by_cases hfit : bytes ≤ m.buffer_.epptr - m.buffer_.pptr
  · rw [if_pos hfit]
    exact ⟨_, rfl, h, hfit⟩
  -- The segment holds nothing yet.
  have hzero : m.bytes_in_buffer_ = 0 := by
    rcases hr with h0 | h0
    · exact h0
    · exact absurd h0 hfit
  have hnone : s.uncommitted = [] := by
    apply List.length_eq_zero_iff.mp
    rw [← h.count, hzero]
  have hlow : m.buffer_.pptr - m.buffer_.gptr = 0 := by omega
  have hshift : (if 0 < m.buffer_.gptr then
      writeAt m.buffer_.buffer_ 0 (part m.buffer_.buffer_ m.buffer_.gptr m.buffer_.pptr)
      else m.buffer_.buffer_) = m.buffer_.buffer_ := by
    rw [hbare, part_self]
    split <;> simp [writeAt]
  rw [if_neg hfit]
  simp only [hlow, hshift, Nat.sub_zero, Nat.zero_add]
  by_cases hfront : bytes ≤ m.buffer_.epptr
  · rw [if_pos hfront]
    refine ⟨_, rfl, ⟨h.complete, ?_, ?_, h.count, Nat.le_refl _, ?_, hwhole, hsmall⟩, ?_⟩
    · rw [hs]
      exact part_self _ _
    · simp only [hzero, hnone]
      exact part_self _ _
    · simp only [hzero]
      omega
    · simp only
      omega
  · have hallowed : bytes ≤ max_size ∧ 0 ≤ max_size - bytes := by
      have hmax : max_size = 2 ^ 64 - 1 := rfl
      omega
    have hlen : (Streambuf.resize m.buffer_.buffer_ (max bytes 1)).length = bytes := by
      unfold Streambuf.resize
      rw [List.length_append, List.length_take, List.length_replicate]
      omega
    rw [if_neg hfront, if_pos hallowed]
    refine ⟨_, rfl, ⟨h.complete, ?_, ?_, h.count, Nat.le_refl _, ?_, hlen.symm, ?_⟩, ?_⟩
    · rw [hs]
      exact part_self _ _
    · simp only [hzero, hnone]
      exact part_self _ _
    · simp only [hzero]
      omega
    · simp only [hlen]
      exact hb
    · simp only
      omega

/-- A read takes the bytes behind those that are held. -/
theorem sgetn (h : Mirrors m s) {inp : List UInt8} {bytes n : Nat}
    (hroom : bytes ≤ m.buffer_.epptr - m.buffer_.pptr)
    (hn : s.uncommitted.length + (inp.take n).length ≤ bytes) :
    ∃ sb, util.buffer.sgetn inp m.buffer_ m.bytes_in_buffer_ n = .ok sb ∧
      sb.epptr - sb.pptr = m.buffer_.epptr - m.buffer_.pptr ∧
      Mirrors ⟨false, sb, m.bytes_in_buffer_ + (inp.take n).length⟩
        ⟨false, s.committed, s.uncommitted ++ inp.take n⟩ := by
  have horder := h.order
  have hin := h.room
  have hwhole := h.whole
  have hcount := h.count
  have hfits : m.buffer_.pptr + m.bytes_in_buffer_ + (inp.take n).length ≤
      m.buffer_.buffer_.length := by omega
  have hfilled : m.buffer_.pptr + (m.bytes_in_buffer_ + (inp.take n).length) ≤
      m.buffer_.epptr := by omega
  have hlen : (writeAt m.buffer_.buffer_ (m.buffer_.pptr + m.bytes_in_buffer_)
      (inp.take n)).length = m.buffer_.buffer_.length := length_writeAt hfits
  unfold util.buffer.sgetn
  rw [if_pos hfits]
  refine ⟨_, rfl, rfl, rfl, ?_, ?_, ?_, horder, ?_, ?_, ?_⟩
  · have hdata := h.committed
    unfold StreamSegment.committed_data Streambuf.data at hdata ⊢
    rw [← hdata]
    exact part_writeAt_before (Nat.le_add_right _ _) (by omega)
  · simp only
    rw [← Nat.add_assoc, part_writeAt (Nat.le_add_right _ _) (by omega), h.held]
  · simp only [List.length_append, hcount]
  · exact hfilled
  · exact hwhole.trans hlen.symm
  · exact hlen.symm ▸ h.small

/-- A commit moves the pointer behind what was held. -/
theorem commit (h : Mirrors m s) (hs : s.committed = []) :
    s.commit = .ok ⟨true, s.uncommitted, []⟩ ∧ Mirrors m.commit ⟨true, s.uncommitted, []⟩ := by
  have hbare := h.bare hs
  have hin := h.room
  have hwhole := h.whole
  have hsmall := h.small
  have hcount := h.count
  have hmax : max_size = 2 ^ 64 - 1 := rfl
  have hall : min (min max_size m.bytes_in_buffer_) (m.buffer_.epptr - m.buffer_.pptr) =
      m.bytes_in_buffer_ := by omega
  have hput : (m.buffer_.pptr + toInt m.bytes_in_buffer_).toNat =
      m.buffer_.pptr + m.bytes_in_buffer_ := by
    rw [toInt_of_lt (by omega)]
    omega
  have hcommit : m.commit =
      ⟨true, { m.buffer_ with pptr := m.buffer_.pptr + m.bytes_in_buffer_ }, 0⟩ := by
    unfold StreamSegment.commit StreamSegment.commit_buffer Streambuf.commit
    simp only [hall, hput]
  constructor
  · rw [BufferSegment.commit_of_lt (by omega), hs, List.nil_append]
  · rw [hcommit]
    refine ⟨rfl, ?_, ?_, rfl, ?_, ?_, hwhole, hsmall⟩
    · unfold StreamSegment.committed_data Streambuf.data
      simp only [hbare]
      exact h.held
    · exact part_self _ _
    · simp only
      omega
    · exact hin

/-- A read in memory does what the read of lists does. -/
theorem read_up_to_bytes (h : Mirrors m s) {bytes : Nat} (hr : Roomy bytes m)
    (hs : s = .new ∨ s.Gathering bytes) (hb : bytes < 2 ^ 31) (inp : List UInt8) :
    ∃ m' s' rest, m.read_up_to_bytes inp bytes = .ok (m', rest) ∧
      s.read_up_to_bytes inp bytes = .ok ⟨s', rest⟩ ∧ Mirrors m' s' ∧
      (s'.is_complete_ = false → Roomy bytes m') := by
  have hopen : s.is_complete_ = false := by
    rcases hs with rfl | hg
    · rfl
    · exact hg.open_
  have hnone : s.committed = [] := by
    rcases hs with rfl | hg
    · rfl
    · exact hg.bare
  have hclosed : m.is_complete_ = false := h.complete.trans hopen
  unfold StreamSegment.read_up_to_bytes BufferSegment.read_up_to_bytes
  simp only [hclosed, hopen, Bool.false_eq_true, if_false]
  by_cases hzero : bytes = 0
  · rw [if_pos hzero, if_pos hzero]
    refine ⟨_, _, _, rfl, rfl, ⟨rfl, h.committed, h.held, h.count, h.order, h.room, h.whole,
      h.small⟩, ?_⟩
    intro hfalse
    cases hfalse
  rw [if_neg hzero, if_neg hzero]
  have hshort : s.uncommitted.length < bytes := by
    rcases hs with rfl | hg
    · exact Nat.pos_of_ne_zero hzero
    · exact hg.short
  have hcount := h.count
  have hwanted : size_sub bytes m.bytes_in_buffer_ = bytes - s.uncommitted.length := by
    rw [size_sub_of_le (by omega) (by omega), hcount]
  have htaken : (inp.take (bytes - s.uncommitted.length)).length ≤ bytes - s.uncommitted.length :=
    List.length_take_le _ _
  obtain ⟨sb, hprepare, hm, hroom⟩ := h.prepare hnone hr hb
  have hneed : s.uncommitted.length + (inp.take (bytes - s.uncommitted.length)).length ≤ bytes := by
    omega
  obtain ⟨sb', hget, hsame, hm'⟩ := hm.sgetn hroom hneed
  have hadd : size_add m.bytes_in_buffer_ (inp.take (bytes - s.uncommitted.length)).length =
      m.bytes_in_buffer_ + (inp.take (bytes - s.uncommitted.length)).length :=
    size_add_of_lt (by omega)
  have hfull : m.bytes_in_buffer_ + (inp.take (bytes - s.uncommitted.length)).length = bytes ↔
      (s.uncommitted ++ inp.take (bytes - s.uncommitted.length)).length = bytes := by
    rw [List.length_append, hcount]
  simp only at hget hm'
  simp only [hprepare, hwanted, hget, hadd, bind, Except.bind]
  by_cases hdone : m.bytes_in_buffer_ + (inp.take (bytes - s.uncommitted.length)).length = bytes
  · rw [if_pos hdone, if_pos (hfull.mp hdone)]
    obtain ⟨hlist, hmirrors⟩ := hm'.commit hnone
    refine ⟨_, _, _, rfl, ?_, hmirrors, ?_⟩
    · rw [hlist]
      rfl
    · intro hfalse
      cases hfalse
  · rw [if_neg hdone, if_neg fun hlen => hdone (hfull.mpr hlen)]
    refine ⟨_, _, _, rfl, rfl, hm', fun _ => .inr ?_⟩
    rw [hsame]
    exact hroom

/-- A reset moves the get area behind what was read. -/
theorem reset (h : Mirrors m s) : Mirrors m.reset .new := by
  have horder := h.order
  have hin := h.room
  have hwhole := h.whole
  have hsmall := h.small
  have hsize : m.buffer_.size = m.buffer_.pptr - m.buffer_.gptr := rfl
  have hconsume : m.buffer_.reset = { m.buffer_ with gptr := m.buffer_.pptr } := by
    unfold Streambuf.reset Streambuf.consume
    have hall : (if m.buffer_.pptr < m.buffer_.gptr + m.buffer_.size then m.buffer_.size
        else m.buffer_.size) = m.buffer_.size := by split <;> rfl
    have hget : (m.buffer_.gptr + toInt m.buffer_.size).toNat = m.buffer_.pptr := by
      rw [toInt_of_lt (by omega), hsize]
      omega
    simp only [hall, hget]
  unfold StreamSegment.reset
  rw [hconsume]
  refine ⟨rfl, ?_, ?_, rfl, Nat.le_refl _, ?_, hwhole, hsmall⟩
  · exact part_self _ _
  · exact part_self _ _
  · simp only
    omega

end Mirrors

theorem Roomy.reset (bytes : Nat) (m : StreamSegment) : Roomy bytes m.reset := .inl rfl

end util.buffer
