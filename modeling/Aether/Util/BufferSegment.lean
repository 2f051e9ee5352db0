-- Data that may take several calls to arrive, `util/buffer_segment.cpp`, over
-- input buffers that give up what is read.
--
-- A stream buffer is here the queue of its bytes. A segment keeps the bytes
-- that are committed and the bytes that lie after them in the put area and
-- are not. The counts go through `pbump(static_cast<int>(n))`, so a commit
-- keeps `n` only below 2^31.
import Aether.Error
import Aether.Util.Bytes

open proxy util.bytes

namespace util.buffer

/-- `base_segment`, less `num_bytes_read_last_`: see `bytes_last_read`. -/
structure BufferSegment where
  is_complete_ : Bool
  committed : List UInt8
  uncommitted : List UInt8
  deriving DecidableEq, Repr

namespace BufferSegment

def new : BufferSegment := ⟨false, [], []⟩

/-- `base_segment::reset`. -/
def reset (_ : BufferSegment) : BufferSegment := ⟨false, [], []⟩

/-- `base_segment::commit_buffer` with all of the buffer. A bump by a negative `int` leaves the
pointers before the data. -/
def commit_buffer (seg : BufferSegment) : Except Error BufferSegment :=
  let n := toInt seg.uncommitted.length
  if n < 0 then .error .undefined
  else
    .ok { seg with committed := seg.committed ++ seg.uncommitted.take n.toNat, uncommitted := [] }

/-- `base_segment::commit`. -/
def commit (seg : BufferSegment) : Except Error BufferSegment :=
  seg.commit_buffer.map (fun seg => { seg with is_complete_ := true })

end BufferSegment

/-- What a read leaves: the segment, and the rest of the input. -/
structure SegmentRead where
  segment : BufferSegment
  input : List UInt8
  deriving DecidableEq, Repr

namespace BufferSegment

/-- `buffer_segment::read_up_to_bytes` from a stream buffer. -/
def read_up_to_bytes (seg : BufferSegment) (inp : List UInt8) (bytes : Nat) :
    Except Error SegmentRead :=
  if seg.is_complete_ then .ok ⟨seg, inp⟩
  else if bytes = 0 then .ok ⟨{ seg with is_complete_ := true }, inp⟩
  else
    let taken := inp.take (bytes - seg.uncommitted.length)
    let rest := inp.drop (bytes - seg.uncommitted.length)
    let seg := { seg with uncommitted := seg.uncommitted ++ taken }
    if seg.uncommitted.length = bytes then
      seg.commit.map (fun seg => ⟨seg, rest⟩)
    else .ok ⟨seg, rest⟩

/-- `bytes_last_read` after such a read, from its value before. -/
def bytes_last_read (seg : BufferSegment) (inp : List UInt8) (bytes last : Nat) : Nat :=
  if seg.is_complete_ || bytes = 0 then last
  else (inp.take (bytes - seg.uncommitted.length)).length

/-! ## The laws of a read -/

/-- A segment between two reads towards `bytes`: nothing is committed, and something is missing. -/
structure Gathering (seg : BufferSegment) (bytes : Nat) : Prop where
  open_ : seg.is_complete_ = false
  bare : seg.committed = []
  short : seg.uncommitted.length < bytes

theorem gathering_new {bytes : Nat} (h : 0 < bytes) : new.Gathering bytes := ⟨rfl, rfl, h⟩

@[simp] theorem reset_eq_new (seg : BufferSegment) : seg.reset = new := rfl

theorem commit_of_lt {seg : BufferSegment} (h : seg.uncommitted.length < 2 ^ 31) :
    seg.commit = .ok ⟨true, seg.committed ++ seg.uncommitted, []⟩ := by
  unfold commit commit_buffer
  simp only [toInt_of_lt h]
  rw [if_neg (by omega)]
  simp [Except.map]

/-- Too few bytes are all kept, and the read goes on at the next call. -/
theorem read_short {seg : BufferSegment} {inp : List UInt8} {bytes : Nat}
    (hs : seg.Gathering bytes) (h : seg.uncommitted.length + inp.length < bytes) :
    seg.read_up_to_bytes inp bytes =
      .ok ⟨⟨false, [], seg.uncommitted ++ inp⟩, []⟩ := by
  have hpos : bytes ≠ 0 := by omega
  have htake : inp.take (bytes - seg.uncommitted.length) = inp := List.take_of_length_le (by omega)
  have hdrop : inp.drop (bytes - seg.uncommitted.length) = [] := List.drop_of_length_le (by omega)
  unfold read_up_to_bytes
  simp only [hs.open_, hs.bare, Bool.false_eq_true, if_false, hpos, htake, hdrop,
    List.length_append]
  rw [if_neg (by omega)]

/-- Enough bytes complete the segment, with as many as were asked for and no more. -/
theorem read_enough {seg : BufferSegment} {inp : List UInt8} {bytes : Nat}
    (hs : seg.Gathering bytes) (hb : bytes < 2 ^ 31)
    (h : bytes ≤ seg.uncommitted.length + inp.length) :
    seg.read_up_to_bytes inp bytes =
      .ok ⟨⟨true, seg.uncommitted ++ inp.take (bytes - seg.uncommitted.length), []⟩,
        inp.drop (bytes - seg.uncommitted.length)⟩ := by
  have hshort := hs.short
  have hpos : bytes ≠ 0 := by omega
  have htake : (inp.take (bytes - seg.uncommitted.length)).length =
      bytes - seg.uncommitted.length := by
    rw [List.length_take]; omega
  have hlen : (seg.uncommitted ++ inp.take (bytes - seg.uncommitted.length)).length = bytes := by
    rw [List.length_append, htake]; omega
  unfold read_up_to_bytes
  simp only [hs.open_, hs.bare, Bool.false_eq_true, if_false, hpos, hlen, if_true]
  rw [commit_of_lt (by simp only [hlen]; exact hb)]
  simp [Except.map]

theorem read_zero {seg : BufferSegment} (h : seg.is_complete_ = false) (inp : List UInt8) :
    seg.read_up_to_bytes inp 0 = .ok ⟨{ seg with is_complete_ := true }, inp⟩ := by
  simp [read_up_to_bytes, h]

/-- A segment that a read towards `bytes` may be called on. -/
def Within (seg : BufferSegment) (bytes : Nat) : Prop := seg.uncommitted.length ≤ bytes

theorem Gathering.within {seg : BufferSegment} {bytes : Nat} (h : seg.Gathering bytes) :
    seg.Within bytes := Nat.le_of_lt h.short

theorem within_new (bytes : Nat) : new.Within bytes := Nat.zero_le bytes

/-- A read that did not complete has taken all of its input, and the next one goes on from it as
if the input had come at once. -/
theorem read_incomplete {seg : BufferSegment} {inp : List UInt8} {bytes : Nat} {r : SegmentRead}
    (hw : seg.Within bytes) (h : seg.read_up_to_bytes inp bytes = .ok r)
    (hr : r.segment.is_complete_ = false) :
    seg.is_complete_ = false ∧ r.input = [] ∧
      r.segment = { seg with uncommitted := seg.uncommitted ++ inp } ∧
      (seg.uncommitted ++ inp).length < bytes ∧
      ∀ b, seg.read_up_to_bytes (inp ++ b) bytes = r.segment.read_up_to_bytes b bytes := by
  unfold read_up_to_bytes at h
  split_ifs at h with hc hb
  · cases h; simp [hc] at hr
  · cases h; cases hr
  simp only at h
  split at h
  · rename_i hl
    unfold commit at h
    rcases he : commit_buffer _ with e | s
    · rw [he] at h; cases h
    · rw [he] at h; cases h; cases hr
  rename_i hne
  cases h
  have hlt : seg.uncommitted.length + inp.length < bytes := by
    unfold Within at hw
    simp only [List.length_append, List.length_take] at hne
    omega
  have htake : inp.take (bytes - seg.uncommitted.length) = inp := List.take_of_length_le (by omega)
  simp only [htake, List.length_append] at hne ⊢
  refine ⟨by simpa using hc, List.drop_of_length_le (by omega), trivial, hlt, fun b => ?_⟩
  have htb : (inp ++ b).take (bytes - seg.uncommitted.length) =
      inp ++ b.take (bytes - (seg.uncommitted.length + inp.length)) := by
    rw [List.take_append, htake]
    congr 2
    omega
  have hdb : (inp ++ b).drop (bytes - seg.uncommitted.length) =
      b.drop (bytes - (seg.uncommitted.length + inp.length)) := by
    rw [List.drop_append, List.drop_of_length_le (by omega), List.nil_append]
    congr 1
    omega
  unfold read_up_to_bytes
  simp only [hc, hb, Bool.false_eq_true, if_false, htb, hdb, List.append_assoc,
    List.length_append]

/-- A read that completed, or failed, does not look at the input that comes after. -/
theorem read_append {seg : BufferSegment} {inp : List UInt8} {bytes : Nat}
    (h : ∀ r, seg.read_up_to_bytes inp bytes = .ok r → r.segment.is_complete_ = true)
    (b : List UInt8) :
    seg.read_up_to_bytes (inp ++ b) bytes =
      (seg.read_up_to_bytes inp bytes).map (fun r => { r with input := r.input ++ b }) := by
  unfold read_up_to_bytes at h ⊢
  split_ifs at h ⊢ with hc hb
  · rfl
  · rfl
  simp only at h ⊢
  by_cases hlt : inp.length < bytes - seg.uncommitted.length
  · have htake : inp.take (bytes - seg.uncommitted.length) = inp :=
      List.take_of_length_le (by omega)
    have hne : ¬ (seg.uncommitted ++ inp).length = bytes := by
      rw [List.length_append]; omega
    rw [htake, if_neg hne] at h
    exact absurd (h _ rfl) (by simp [hc])
  · rw [List.take_append_of_le_length (by omega), List.drop_append_of_le_length (by omega)]
    split
    · rcases commit _ with e | s <;> rfl
    · rfl

/-- A read fails only at the commit, with all of its bytes taken. -/
theorem read_error {seg : BufferSegment} {inp : List UInt8} {bytes : Nat} {e : Error}
    (h : seg.read_up_to_bytes inp bytes = .error e) :
    bytes - seg.uncommitted.length ≤ inp.length := by
  unfold read_up_to_bytes at h
  split_ifs at h
  simp only at h
  split at h
  · rename_i hl
    simp only [List.length_append, List.length_take] at hl
    omega
  · cases h

/-- The bytes come off the front of the input, and the rest stays as it was. -/
theorem read_length_le {seg : BufferSegment} {inp : List UInt8} {bytes : Nat} {r : SegmentRead}
    (h : seg.read_up_to_bytes inp bytes = .ok r) : r.input.length ≤ inp.length := by
  unfold read_up_to_bytes at h
  split_ifs at h
  · cases h; exact Nat.le_refl _
  · cases h; exact Nat.le_refl _
  · simp only at h
    split at h
    · rcases hc : commit _ with e | s
      · rw [hc] at h; cases h
      · rw [hc] at h; cases h; simp
    · cases h; simp

/-- A segment that a read completes holds as many bytes as were asked for. -/
theorem read_complete_length {seg : BufferSegment} {inp : List UInt8} {bytes : Nat}
    {r : SegmentRead} (hs : seg = .new ∨ seg.Gathering bytes) (hb : bytes < 2 ^ 31)
    (h : seg.read_up_to_bytes inp bytes = .ok r) (hr : r.segment.is_complete_ = true) :
    r.segment.committed.length = bytes := by
  by_cases h0 : bytes = 0
  · subst h0
    rcases hs with rfl | hg
    · rw [read_zero rfl] at h
      cases h
      rfl
    · exact absurd hg.short (Nat.not_lt_zero _)
  have hg : seg.Gathering bytes := by
    rcases hs with rfl | hg
    · exact gathering_new (Nat.pos_of_ne_zero h0)
    · exact hg
  have hshort := hg.short
  by_cases henough : bytes ≤ seg.uncommitted.length + inp.length
  · rw [read_enough hg hb henough] at h
    cases h
    simp only [List.length_append, List.length_take]
    omega
  · rw [read_short hg (by omega)] at h
    cases h
    cases hr

/-- A segment that something is missing from takes a byte or more to complete. -/
theorem read_complete_lt {seg : BufferSegment} {inp : List UInt8} {bytes : Nat} {r : SegmentRead}
    (hs : seg.Gathering bytes) (h : seg.read_up_to_bytes inp bytes = .ok r)
    (hr : r.segment.is_complete_ = true) : r.input.length < inp.length := by
  have hshort := hs.short
  unfold read_up_to_bytes at h
  rw [if_neg (by simp [hs.open_]), if_neg (by omega)] at h
  simp only at h
  split at h
  · rename_i hl
    rcases hc : commit _ with e | s
    · rw [hc] at h; cases h
    · rw [hc] at h
      cases h
      simp only [List.length_append, List.length_take] at hl
      simp only [List.length_drop]
      omega
  · cases h
    simp [hs.open_] at hr

end BufferSegment

end util.buffer
