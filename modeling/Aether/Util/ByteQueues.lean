-- What a `basic_streambuf` is for: a queue of bytes, with an output sequence behind it that can
-- be written before it is committed. The pointers do what the queue does in all orders of the
-- calls, unless the sum of a pointer and a count wraps in `consume`.
import Aether.Util.BasicStreambuf
import Mathlib.Logic.Function.Basic

open proxy util.bytes lib.filled

namespace util.buffer

/-! ## The queue -/

/-- The bytes of the queue, and the output sequence that was prepared, as it is. -/
structure ByteQueue where
  queue : List UInt8
  window : List UInt8
  deriving DecidableEq, Repr

inductive StreambufCall where
  | prepare (n : Nat)
  /-- Bytes are written into the output sequence, from one of its bytes on. -/
  | write (off : Nat) (bytes : List UInt8)
  | commit (n : Nat)
  | uncommit (n : Nat)
  | consume (address n : Nat)
  | reset (address : Nat)
  | sputc (c : UInt8)
  | sputn (cs : List UInt8)
  | sbumpc
  | sgetn (n : Nat)
  | make_new
  /-- Another object is constructed from this one, which is gone. -/
  | move_construct
  deriving DecidableEq, Repr

namespace ByteQueue

def new : ByteQueue := ⟨[], []⟩

/-- What a call shows: an output sequence as it is, the bytes that are committed, or the bytes that
are read. What was written stays in the output sequence, and other bytes of it may be any. -/
def Shows (q : ByteQueue) (seen : List UInt8) : StreambufCall → Prop
  | .prepare n => seen.length = n ∧ (n ≤ q.window.length → seen = q.window.take n)
  | .commit n => seen.length ≤ n ∧ q.window.take n <+: seen
  | .sbumpc => seen = q.queue.take 1
  | .sgetn n => seen = q.queue.take n
  | _ => seen = []

/-- The queue after a call that showed some bytes. -/
def next (q : ByteQueue) (seen : List UInt8) : StreambufCall → ByteQueue
  | .prepare n => if n ≤ q.window.length then q else ⟨q.queue, seen⟩
  | .write off bytes => ⟨q.queue, writeAt q.window off bytes⟩
  | .commit n => ⟨q.queue ++ seen, q.window.drop n⟩
  | .uncommit n => ⟨q.queue.take (q.queue.length - n), []⟩
  | .consume _ n => ⟨q.queue.drop n, q.window⟩
  | .reset _ => ⟨[], q.window⟩
  | .sputc c => ⟨q.queue ++ [c], []⟩
  | .sputn cs => ⟨q.queue ++ cs, []⟩
  | .sbumpc => ⟨q.queue.drop 1, q.window⟩
  | .sgetn n => ⟨q.queue.drop n, q.window⟩
  | .make_new => new
  | .move_construct => q

end ByteQueue

/-! ## The calls on a buffer -/

namespace BasicStreambuf

/-- The constructor takes the vector and swaps the pointers. -/
def move_construct (other : BasicStreambuf) : BasicStreambuf :=
  { max_size_ := other.max_size_, buffer_ := other.buffer_
    gptr := other.gptr, egptr := other.egptr, pptr := other.pptr, epptr := other.epptr }

/-- A call, and what it shows. -/
def call (sb : BasicStreambuf) : StreambufCall → Except Error (BasicStreambuf × List UInt8)
  | .prepare n => sb.prepare n
  | .write off bytes => (sb.write off bytes).map (fun sb => (sb, []))
  | .commit n =>
    (sb.commit n).map (fun sb' =>
      (sb', part sb.buffer_ sb.pptr (sb.pptr + min n (sb.epptr - sb.pptr))))
  | .uncommit n => (sb.uncommit n).map (fun sb => (sb, []))
  | .consume address n => (sb.consume address n).map (fun sb => (sb, []))
  | .reset address => (sb.reset address).map (fun sb => (sb, []))
  | .sputc c => (sb.sputc c).map (fun sb => (sb, []))
  | .sputn cs => (sb.sputn cs).map (fun sb => (sb, []))
  | .sbumpc => sb.sbumpc.map (fun read => (read.2, read.1.toList))
  | .sgetn n => (sb.sgetn n).map (fun read => (read.2, read.1))
  | .make_new => .ok (sb.make_new, [])
  | .move_construct => .ok (sb.move_construct, [])

/-- What a caller keeps to: it writes within its output sequence, and has less than 2^31 bytes in
the queue. A vector ends within the addresses. -/
def Allowed (sb : BasicStreambuf) (q : ByteQueue) : StreambufCall → Prop
  | .write off bytes => off + bytes.length ≤ q.window.length
  | .commit n => q.queue.length + min n (sb.epptr - sb.pptr) < 2 ^ 31
  | .consume address _ => address + sb.buffer_.length < 2 ^ 64
  | .reset address => address + sb.buffer_.length < 2 ^ 64
  | .sputc _ => q.queue.length + 1 < 2 ^ 31
  | .sputn cs => q.queue.length + cs.length < 2 ^ 31
  | _ => True

/-- The sum of the address of `gptr` and the count does not wrap. -/
def NoWrap (sb : BasicStreambuf) : StreambufCall → Prop
  | .consume address n => address + sb.gptr + n < 2 ^ 64
  | _ => True

/-- A call asks for more than the maximum, or than a vector has. -/
def Exceeds (sb : BasicStreambuf) (q : ByteQueue) : StreambufCall → Prop
  | .prepare n => sb.max_size_ < q.queue.length + n ∨ 2 ^ 63 ≤ q.queue.length + n
  | .sputc _ => sb.max_size_ < q.queue.length + 1
  | .sputn cs => sb.max_size_ < q.queue.length + cs.length
  | _ => False

/-- A call returns with what the queue shows, or it ends with an exception as it exceeds. -/
def Answers (sb : BasicStreambuf) (q : ByteQueue) (c : StreambufCall) : Prop :=
  match sb.call c with
  | .ok (_, seen) => q.Shows seen c
  | .error e => e = .terminated ∧ sb.Exceeds q c

end BasicStreambuf

/-! ## The buffer as a queue -/

/-- A buffer stands for a queue. -/
structure Refines (sb : BasicStreambuf) (q : ByteQueue) : Prop where
  placed : sb.WellPlaced
  view : sb.string_view = q.queue
  room : sb.pptr + q.window.length ≤ sb.epptr
  written : part sb.buffer_ sb.pptr (sb.pptr + q.window.length) = q.window

theorem part_writeAt_in {v xs : List UInt8} {p off m : Nat} (hoff : off + xs.length ≤ m)
    (hm : p + m ≤ v.length) :
    part (writeAt v (p + off) xs) p (p + m) = writeAt (part v p (p + m)) off xs := by
  have hpart : (part v p (p + m)).length = m := by rw [length_part hm]; omega
  apply List.ext_getElem?
  intro n
  by_cases hn : n < m
  · rw [getElem?_part (by omega)]
    by_cases hbefore : n < off
    · rw [getElem?_writeAt_lt (by omega) (by omega), getElem?_writeAt_lt (by omega) hbefore,
        getElem?_part (by omega)]
    by_cases hin : n < off + xs.length
    · obtain ⟨k, rfl⟩ : ∃ k, n = off + k := ⟨n - off, by omega⟩
      rw [← Nat.add_assoc, getElem?_writeAt_in (by omega) (by omega),
        getElem?_writeAt_in (by omega) (by omega)]
    · rw [getElem?_writeAt_ge (by omega) (by omega), getElem?_writeAt_ge (by omega) (by omega),
        getElem?_part (by omega)]
  · have hlength : (part (writeAt v (p + off) xs) p (p + m)).length = m := by
      rw [length_part (by rw [length_writeAt (by omega)]; exact hm)]
      omega
    rw [List.getElem?_eq_none (by omega), List.getElem?_eq_none (by rw [length_writeAt] <;> omega)]

namespace Refines

variable {sb sb' : BasicStreambuf} {q : ByteQueue}

theorem new (max_size : Nat) : Refines (.new max_size) .new where
  placed := BasicStreambuf.wellPlaced_new max_size
  view := rfl
  room := Nat.zero_le _
  written := part_self _ _

theorem size_eq (h : Refines sb q) : sb.size = q.queue.length := by
  rw [← h.placed.length_view, h.view]

/-- A buffer that only has its queue. -/
theorem bare {queue : List UInt8} (hplaced : sb.WellPlaced) (hview : sb.string_view = queue) :
    Refines sb ⟨queue, []⟩ :=
  ⟨hplaced, hview, hplaced.put_order, part_self _ _⟩

/-- Bytes are gone from the front. -/
theorem front {queue : List UInt8} (h : Refines sb q) (hplaced : sb'.WellPlaced)
    (hview : sb'.string_view = queue) (hbuffer : sb'.buffer_ = sb.buffer_)
    (hpptr : sb'.pptr = sb.pptr) (hepptr : sb'.epptr = sb.epptr) :
    Refines sb' ⟨queue, q.window⟩ := by
  refine ⟨hplaced, hview, ?_, ?_⟩
  · rw [hpptr, hepptr]
    exact h.room
  · rw [hpptr, hbuffer]
    exact h.written

theorem prepare (h : Refines sb q) (n : Nat) :
    (∃ sb' seen, sb.prepare n = .ok (sb', seen) ∧ q.Shows seen (.prepare n) ∧
      Refines sb' (q.next seen (.prepare n))) ∨
    sb.prepare n = .error .terminated ∧ sb.Exceeds q (.prepare n) := by
  unfold BasicStreambuf.prepare
  cases hreserve : sb.reserve n with
  | error e =>
    obtain ⟨rfl, hlong⟩ := BasicStreambuf.reserve_error hreserve
    rw [h.size_eq] at hlong
    exact Or.inr ⟨rfl, hlong⟩
  | ok sb' =>
    obtain ⟨hplaced, hview, hroom, -⟩ := h.placed.reserve hreserve
    have hwithin := hplaced.within
    have hlength : (part sb'.buffer_ sb'.pptr (sb'.pptr + n)).length = n := by
      rw [length_part (by omega)]
      omega
    refine Or.inl ⟨sb', _, rfl, ?_⟩
    by_cases hn : n ≤ q.window.length
    · have hsame : sb' = sb := by
        have hold := h.room
        have hok : sb.reserve n = .ok sb := BasicStreambuf.reserve_of_room (by omega)
        rw [hreserve] at hok
        exact Except.ok.inj hok
      subst hsame
      refine ⟨⟨hlength, fun _ => ?_⟩, ?_⟩
      · rw [← h.written, BasicStreambuf.part_take (by omega)]
      · rw [ByteQueue.next, if_pos hn]
        exact h
    · refine ⟨⟨hlength, fun hle => absurd hle hn⟩, ?_⟩
      rw [ByteQueue.next, if_neg hn]
      refine ⟨hplaced, hview.trans h.view, ?_, ?_⟩
      · rw [hlength]
        exact hroom
      · rw [hlength]

theorem write (h : Refines sb q) {off : Nat} {bytes : List UInt8}
    (hin : off + bytes.length ≤ q.window.length) :
    ∃ sb', sb.write off bytes = .ok sb' ∧ Refines sb' ⟨q.queue, writeAt q.window off bytes⟩ := by
  have hroom := h.room
  have hplaced := h.placed
  have hwithin := hplaced.within
  have hlength : (writeAt sb.buffer_ (sb.pptr + off) bytes).length = sb.buffer_.length :=
    length_writeAt (by omega)
  have hwindow : (writeAt q.window off bytes).length = q.window.length := length_writeAt hin
  unfold BasicStreambuf.write
  rw [if_pos (by omega)]
  refine ⟨_, rfl, ⟨hplaced.get_order, hplaced.get_put, hplaced.put_order, ?_⟩, ?_, ?_, ?_⟩
  · simp only [hlength]
    exact hwithin
  · rw [← h.view]
    exact part_writeAt_before (Nat.le_add_right _ _) (by omega)
  · simp only [hwindow]
    exact hroom
  · simp only [hwindow]
    rw [part_writeAt_in hin (by omega), h.written]

theorem commit (h : Refines sb q) {n : Nat} (hsmall : min n (sb.epptr - sb.pptr) < 2 ^ 31) :
    ∃ sb', sb.commit n = .ok sb' ∧
      q.Shows (part sb.buffer_ sb.pptr (sb.pptr + min n (sb.epptr - sb.pptr))) (.commit n) ∧
      Refines sb' (q.next (part sb.buffer_ sb.pptr (sb.pptr + min n (sb.epptr - sb.pptr)))
        (.commit n)) := by
  have hroom := h.room
  have hplaced := h.placed
  have horder := hplaced.put_order
  have hwithin := hplaced.within
  have hlength : (part sb.buffer_ sb.pptr (sb.pptr + min n (sb.epptr - sb.pptr))).length =
      min n (sb.epptr - sb.pptr) := by
    rw [length_part (by omega)]
    omega
  refine ⟨_, hplaced.commit hsmall, ⟨by omega, ?_⟩, ?_⟩
  · by_cases hn : n ≤ q.window.length
    · have hmin : min n (sb.epptr - sb.pptr) = n := by omega
      refine ⟨[], ?_⟩
      rw [List.append_nil, hmin, ← h.written, BasicStreambuf.part_take (by omega)]
    · rw [List.take_of_length_le (by omega)]
      have hsplit := BasicStreambuf.part_append (v := sb.buffer_)
        (i := sb.pptr) (j := sb.pptr + q.window.length)
        (k := sb.pptr + min n (sb.epptr - sb.pptr)) (by omega) (by omega)
      rw [h.written] at hsplit
      exact ⟨_, hsplit⟩
  · refine ⟨⟨?_, Nat.le_refl _, ?_, hwithin⟩, ?_, ?_, ?_⟩
    · exact hplaced.order.trans (Nat.le_add_right _ _)
    · simp only
      omega
    · simp only [ByteQueue.next]
      rw [← h.view]
      exact (BasicStreambuf.part_append hplaced.order (Nat.le_add_right _ _)).symm
    · simp only [ByteQueue.next, List.length_drop]
      omega
    · simp only [ByteQueue.next, List.length_drop]
      by_cases hn : n ≤ q.window.length
      · have hmin : min n (sb.epptr - sb.pptr) = n := by omega
        have hend : sb.pptr + n + (q.window.length - n) = sb.pptr + q.window.length := by omega
        rw [hmin, hend, ← BasicStreambuf.part_drop_start, h.written]
      · have hzero : q.window.length - n = 0 := by omega
        rw [List.drop_of_length_le (by omega), hzero]
        exact part_self _ _

theorem uncommit (h : Refines sb q) (hsmall : q.queue.length < 2 ^ 31) (n : Nat) :
    ∃ sb', sb.uncommit n = .ok sb' ∧
      Refines sb' ⟨q.queue.take (q.queue.length - n), []⟩ := by
  have hplaced := h.placed
  have horder := hplaced.put_order
  have hget := hplaced.order
  have hsize : sb.size = sb.pptr - sb.gptr := rfl
  have hqueue := h.size_eq
  refine ⟨_, hplaced.uncommit (by rw [hqueue]; exact hsmall), bare ⟨?_, Nat.le_refl _, ?_,
    hplaced.within⟩ ?_⟩
  · simp only
    omega
  · simp only
    omega
  · rw [← h.view]
    have hend : sb.pptr - min n sb.size = sb.gptr + (sb.string_view.length - n) := by
      rw [hplaced.length_view]
      omega
    show part sb.buffer_ sb.gptr (sb.pptr - min n sb.size) = _
    rw [hend]
    have hle : sb.gptr + (sb.string_view.length - n) ≤ sb.pptr := by
      rw [hplaced.length_view]
      omega
    exact (BasicStreambuf.part_take hle).symm

theorem consume (h : Refines sb q) (hsmall : q.queue.length < 2 ^ 31) {address n : Nat}
    (hwrap : address + sb.gptr + n < 2 ^ 64) :
    ∃ sb', sb.consume address n = .ok sb' ∧ Refines sb' ⟨q.queue.drop n, q.window⟩ := by
  have hplaced := h.placed
  have hget := hplaced.order
  have hsize : sb.size = sb.pptr - sb.gptr := rfl
  have hqueue := h.size_eq
  refine ⟨_, hplaced.consume (by rw [hqueue]; exact hsmall) hwrap, h.front ⟨?_, Nat.le_refl _,
    hplaced.put_order, hplaced.within⟩ ?_ rfl rfl rfl⟩
  · simp only
    omega
  · show part sb.buffer_ (sb.gptr + min n sb.size) sb.pptr = _
    rw [← BasicStreambuf.part_drop_start, ← h.view]
    show sb.string_view.drop (min n sb.size) = sb.string_view.drop n
    rw [← hplaced.length_view, ← List.drop_eq_drop_min]

theorem reset (h : Refines sb q) (hsmall : q.queue.length < 2 ^ 31) {address : Nat}
    (haddress : address + sb.buffer_.length < 2 ^ 64) :
    ∃ sb', sb.reset address = .ok sb' ∧ Refines sb' ⟨[], q.window⟩ := by
  have hplaced := h.placed
  have hget := hplaced.order
  have horder := hplaced.put_order
  have hwithin := hplaced.within
  have hsize : sb.size = sb.pptr - sb.gptr := rfl
  have hwrap : address + sb.gptr + sb.size < 2 ^ 64 := by omega
  obtain ⟨sb', hok, hrefines⟩ := h.consume hsmall hwrap
  rw [List.drop_of_length_le (Nat.le_of_eq h.size_eq.symm)] at hrefines
  exact ⟨sb', hok, hrefines⟩

theorem sputc (h : Refines sb q) (c : UInt8) (hsmall : q.queue.length + 1 < 2 ^ 31) :
    (∃ sb', sb.sputc c = .ok sb' ∧ Refines sb' ⟨q.queue ++ [c], []⟩ ∧
      sb'.max_size_ = sb.max_size_) ∨
    sb.sputc c = .error .terminated ∧ sb.max_size_ < q.queue.length + 1 := by
  have hdelta : buffer_delta = 128 := rfl
  rcases h.placed.sputc c with ⟨sb', hok, hplaced, hview, hmax⟩ | ⟨herror, hlong⟩
  · rw [h.view] at hview
    exact Or.inl ⟨sb', hok, bare hplaced hview, hmax⟩
  · rw [h.size_eq] at hlong
    exact Or.inr ⟨herror, by omega⟩

theorem sputn (h : Refines sb q) (cs : List UInt8) (hsmall : q.queue.length + cs.length < 2 ^ 31) :
    (∃ sb', sb.sputn cs = .ok sb' ∧ Refines sb' ⟨q.queue ++ cs, []⟩) ∨
    sb.sputn cs = .error .terminated ∧ sb.max_size_ < q.queue.length + cs.length := by
  induction cs generalizing sb q with
  | nil =>
    refine Or.inl ⟨sb, rfl, ?_⟩
    rw [List.append_nil]
    exact bare h.placed h.view
  | cons c cs ih =>
    rw [List.length_cons] at hsmall
    unfold BasicStreambuf.sputn
    rcases h.sputc c (by omega) with ⟨sb₁, hok, hrefines, hmax⟩ | ⟨herror, hlong⟩
    · rw [hok]
      have hlength : (q.queue ++ [c]).length = q.queue.length + 1 := List.length_append
      rcases ih hrefines (by simp only [hlength]; omega) with ⟨sb₂, hrest, hrefines'⟩ |
        ⟨herror, hlong⟩
      · refine Or.inl ⟨sb₂, hrest, ?_⟩
        rw [List.append_assoc] at hrefines'
        exact hrefines'
      · refine Or.inr ⟨herror, ?_⟩
        simp only [hlength, hmax] at hlong
        rw [List.length_cons]
        omega
    · rw [herror]
      refine Or.inr ⟨rfl, ?_⟩
      rw [List.length_cons]
      omega

/-- A call does what the queue does. -/
theorem call (h : Refines sb q) (hsmall : q.queue.length < 2 ^ 31) {c : StreambufCall}
    (hallowed : sb.Allowed q c) (hwrap : sb.NoWrap c) :
    (∃ sb' seen, sb.call c = .ok (sb', seen) ∧ q.Shows seen c ∧ Refines sb' (q.next seen c) ∧
      (q.next seen c).queue.length < 2 ^ 31) ∨
    sb.call c = .error .terminated ∧ sb.Exceeds q c := by
  have hnone : ([] : List UInt8).length < 2 ^ 31 := by decide
  cases c with
  | prepare n =>
    rcases h.prepare n with ⟨sb', seen, hok, hshows, hrefines⟩ | hexceeds
    · refine Or.inl ⟨sb', seen, hok, hshows, hrefines, ?_⟩
      rw [ByteQueue.next]
      split <;> exact hsmall
    · exact Or.inr hexceeds
  | write off bytes =>
    obtain ⟨sb', hok, hrefines⟩ := h.write hallowed
    exact Or.inl ⟨sb', [], by rw [BasicStreambuf.call, hok]; rfl, rfl, hrefines, hsmall⟩
  | commit n =>
    have hlimit : q.queue.length + min n (sb.epptr - sb.pptr) < 2 ^ 31 := hallowed
    obtain ⟨sb', hok, hshows, hrefines⟩ := h.commit (by omega : min n (sb.epptr - sb.pptr) < _)
    refine Or.inl ⟨sb', _, ?_, hshows, hrefines, ?_⟩
    · rw [BasicStreambuf.call, hok]
      rfl
    · have horder := h.placed.put_order
      have hwithin := h.placed.within
      rw [ByteQueue.next, List.length_append, length_part (by omega)]
      omega
  | uncommit n =>
    obtain ⟨sb', hok, hrefines⟩ := h.uncommit hsmall n
    refine Or.inl ⟨sb', [], by rw [BasicStreambuf.call, hok]; rfl, rfl, hrefines, ?_⟩
    rw [ByteQueue.next, List.length_take]
    omega
  | consume address n =>
    obtain ⟨sb', hok, hrefines⟩ := h.consume hsmall hwrap
    refine Or.inl ⟨sb', [], by rw [BasicStreambuf.call, hok]; rfl, rfl, hrefines, ?_⟩
    rw [ByteQueue.next, List.length_drop]
    omega
  | reset address =>
    obtain ⟨sb', hok, hrefines⟩ := h.reset hsmall hallowed
    exact Or.inl ⟨sb', [], by rw [BasicStreambuf.call, hok]; rfl, rfl, hrefines, hnone⟩
  | sputc c =>
    rcases h.sputc c hallowed with ⟨sb', hok, hrefines, -⟩ | ⟨herror, hlong⟩
    · refine Or.inl ⟨sb', [], by rw [BasicStreambuf.call, hok]; rfl, rfl, hrefines, ?_⟩
      rw [ByteQueue.next, List.length_append]
      exact hallowed
    · exact Or.inr ⟨by rw [BasicStreambuf.call, herror]; rfl, hlong⟩
  | sputn cs =>
    rcases h.sputn cs hallowed with ⟨sb', hok, hrefines⟩ | ⟨herror, hlong⟩
    · refine Or.inl ⟨sb', [], by rw [BasicStreambuf.call, hok]; rfl, rfl, hrefines, ?_⟩
      rw [ByteQueue.next, List.length_append]
      exact hallowed
    · exact Or.inr ⟨by rw [BasicStreambuf.call, herror]; rfl, hlong⟩
  | sbumpc =>
    obtain ⟨sb', hok, hplaced, hview, hbuffer, hpptr, hepptr, -⟩ := h.placed.sbumpc
    rw [h.view] at hok hview
    have hone : q.queue.head?.toList = q.queue.take 1 := by cases q.queue <;> rfl
    refine Or.inl ⟨sb', q.queue.head?.toList, ?_, hone,
      h.front hplaced ?_ hbuffer hpptr hepptr, ?_⟩
    · rw [BasicStreambuf.call, hok]
      rfl
    · rw [hview, List.drop_one]
    · rw [ByteQueue.next, List.length_drop]
      omega
  | sgetn n =>
    obtain ⟨sb', hok, hplaced, hview, hbuffer, hpptr, hepptr, -⟩ := h.placed.sgetn n
    rw [h.view] at hok hview
    refine Or.inl ⟨sb', q.queue.take n, ?_, rfl, h.front hplaced hview hbuffer hpptr hepptr, ?_⟩
    · rw [BasicStreambuf.call, hok]
      rfl
    · rw [ByteQueue.next, List.length_drop]
      omega
  | make_new => exact Or.inl ⟨_, [], rfl, rfl, new _, hnone⟩
  | move_construct => exact Or.inl ⟨_, [], rfl, rfl, h, hsmall⟩

end Refines

/-! ## Runs over several objects -/

/-- `move_and_reset` of an object to another one. -/
def move_and_reset (objects : Nat → BasicStreambuf) (i dest : Nat) : Nat → BasicStreambuf :=
  if i = dest then objects
  else
    let objects := Function.update objects dest (objects i).move_construct
    Function.update objects i (objects i).make_new

/-- What it is for: the destination has the bytes, and the object is as new. -/
def move_queue (queues : Nat → ByteQueue) (i dest : Nat) : Nat → ByteQueue :=
  if i = dest then queues
  else Function.update (Function.update queues dest (queues i)) i .new

/-- The objects and their queues after any calls that returned, each of which `May` allows. -/
inductive StreambufRun (May : BasicStreambuf → StreambufCall → Prop) (max_size : Nat → Nat) :
    (Nat → BasicStreambuf) → (Nat → ByteQueue) → Prop where
  | start : StreambufRun May max_size (fun i => .new (max_size i)) (fun _ => .new)
  | call {objects : Nat → BasicStreambuf} {queues : Nat → ByteQueue}
      (before : StreambufRun May max_size objects queues) (i : Nat) (c : StreambufCall)
      (allowed : (objects i).Allowed (queues i) c) (may : May (objects i) c)
      {sb : BasicStreambuf} {seen : List UInt8} (returns : (objects i).call c = .ok (sb, seen)) :
      StreambufRun May max_size (Function.update objects i sb)
        (Function.update queues i ((queues i).next seen c))
  | move_and_reset {objects : Nat → BasicStreambuf} {queues : Nat → ByteQueue}
      (before : StreambufRun May max_size objects queues) (i dest : Nat) :
      StreambufRun May max_size (move_and_reset objects i dest) (move_queue queues i dest)

variable {objects : Nat → BasicStreambuf} {queues : Nat → ByteQueue}

/-- A buffer of a run and its queue. -/
def Stands (sb : BasicStreambuf) (q : ByteQueue) : Prop :=
  Refines sb q ∧ q.queue.length < 2 ^ 31

theorem stands_new (max_size : Nat) : Stands (.new max_size) .new :=
  ⟨Refines.new max_size, by decide⟩

theorem stands_update (h : ∀ i, Stands (objects i) (queues i)) {sb : BasicStreambuf}
    {q : ByteQueue} (hsb : Stands sb q) (i j : Nat) :
    Stands (Function.update objects i sb j) (Function.update queues i q j) := by
  by_cases hj : j = i
  · subst hj
    rw [Function.update_self, Function.update_self]
    exact hsb
  · rw [Function.update_of_ne hj, Function.update_of_ne hj]
    exact h j

theorem stands_move (h : ∀ i, Stands (objects i) (queues i)) (i dest : Nat) :
    ∀ j, Stands (move_and_reset objects i dest j) (move_queue queues i dest j) := by
  unfold move_and_reset move_queue
  split
  · exact h
  · exact fun j => stands_update (stands_update h (h i) dest) (stands_new _) i j

theorem stands_of_run {max_size : Nat → Nat}
    (h : StreambufRun BasicStreambuf.NoWrap max_size objects queues) :
    ∀ i, Stands (objects i) (queues i) := by
  induction h with
  | start => exact fun i => stands_new (max_size i)
  | call before i c allowed may returns ih =>
    obtain ⟨hrefines, hsmall⟩ := ih i
    rcases hrefines.call hsmall allowed may with ⟨sb', seen, hok, -, hstands⟩ | ⟨herror, -⟩
    · rw [returns] at hok
      obtain ⟨rfl, rfl⟩ := Prod.mk.inj (Except.ok.inj hok)
      exact stands_update ih hstands i
    · rw [returns] at herror
      cases herror
  | move_and_reset before i dest ih => exact stands_move ih i dest

/-- In each run in which no sum of a pointer and a count wraps, the pointers stay in their order,
the view is the queue, and a call shows what the queue shows, or it exceeds the maximum. -/
theorem run_is_a_queue {max_size : Nat → Nat}
    (h : StreambufRun BasicStreambuf.NoWrap max_size objects queues) (i : Nat) :
    (objects i).WellPlaced ∧ (objects i).string_view = (queues i).queue ∧
      ∀ c, (objects i).Allowed (queues i) c → (objects i).NoWrap c →
        (objects i).Answers (queues i) c := by
  obtain ⟨hrefines, hsmall⟩ := stands_of_run h i
  refine ⟨hrefines.placed, hrefines.view, ?_⟩
  intro c hallowed hwrap
  unfold BasicStreambuf.Answers
  rcases hrefines.call hsmall hallowed hwrap with ⟨sb', seen, hok, hshows, -⟩ | ⟨herror, hlong⟩
  · rw [hok]
    exact hshows
  · rw [herror]
    exact ⟨rfl, hlong⟩

/-- A byte is put, and all that is there is consumed. -/
theorem run_is_a_queue_consumed : ∃ objects queues,
    StreambufRun BasicStreambuf.NoWrap (fun _ => 1) objects queues ∧ (queues 0).queue = [] ∧
      (objects 0).WellPlaced ∧ (objects 0).string_view = (queues 0).queue ∧
      ∀ c, (objects 0).Allowed (queues 0) c → (objects 0).NoWrap c →
        (objects 0).Answers (queues 0) c := by
  have hstart : StreambufRun BasicStreambuf.NoWrap (fun _ => 1) _ _ := .start
  have hput := hstart.call 0 (.sputc 97) (show 0 + 1 < 2 ^ 31 by decide) trivial
    (show _ = Except.ok (⟨1, [97], 0, 0, 1, 1⟩, []) from rfl)
  have hconsumed := hput.call 0 (.consume 4096 5) (show 4096 + 1 < 2 ^ 64 by decide)
    (show 4096 + 0 + 5 < 2 ^ 64 by decide)
    (show _ = Except.ok (⟨1, [97], 1, 1, 1, 1⟩, []) by decide +kernel)
  exact ⟨_, _, hconsumed, rfl, run_is_a_queue hconsumed 0⟩

/-- After a byte is read, a count for which the sum wraps moves the pointer back to it. -/
theorem consume_moves_back : ¬ ∀ max_size objects queues,
    StreambufRun (fun _ _ => True) max_size objects queues →
      ∀ i, (objects i).WellPlaced ∧ (objects i).string_view = (queues i).queue := by
  intro hall
  have hstart : StreambufRun (fun _ _ => True) (fun _ => 1) _ _ := .start
  have hput := hstart.call 0 (.sputc 97) (show 0 + 1 < 2 ^ 31 by decide) trivial
    (show _ = Except.ok (⟨1, [97], 0, 0, 1, 1⟩, []) from rfl)
  have hread := hput.call 0 .sbumpc trivial trivial
    (show _ = Except.ok (⟨1, [97], 1, 1, 1, 1⟩, [97]) from rfl)
  have hback := hread.call 0 (.consume 4096 (2 ^ 64 - 1)) (show 4096 + 1 < 2 ^ 64 by decide)
    trivial (show _ = Except.ok (⟨1, [97], 0, 1, 1, 1⟩, []) by decide +kernel)
  exact absurd (hall _ _ _ hback 0).2 (by decide)

end util.buffer
