-- `basic_streambuf` of `util/streambuf.hpp` with all of its pointers, which are offsets into the
-- vector. A pointer that leaves the vector is undefined, and an exception of `reserve` ends the
-- call.
--
-- The moves of the standard buffer are those of its documentation: `sputn` and `sgetn` are
-- repeated calls of `sputc` and `sbumpc`.
import Aether.Util.StreamSegment

open proxy util.bytes lib.filled

namespace util.buffer

structure BasicStreambuf where
  max_size_ : Nat
  buffer_ : List UInt8
  gptr : Nat
  egptr : Nat
  pptr : Nat
  epptr : Nat
  deriving DecidableEq, Repr

namespace BasicStreambuf

def new (max_size : Nat) : BasicStreambuf :=
  let pend := min max_size buffer_delta
  ⟨max_size, List.replicate (max pend 1) 0, 0, 0, 0, pend⟩

/-- `make_new`, which does not keep the maximum. -/
def make_new (_ : BasicStreambuf) : BasicStreambuf := new max_size

def size (sb : BasicStreambuf) : Nat := sb.pptr - sb.gptr

def string_view (sb : BasicStreambuf) : List UInt8 := part sb.buffer_ sb.gptr sb.pptr

/-- `pbump`, of an `int`. -/
def pbump (sb : BasicStreambuf) (n : Int) : Except Error BasicStreambuf :=
  if 0 ≤ sb.pptr + n ∧ sb.pptr + n ≤ sb.buffer_.length then
    .ok { sb with pptr := (sb.pptr + n).toNat }
  else .error .undefined

/-- `gbump`, of an `int`. -/
def gbump (sb : BasicStreambuf) (n : Int) : Except Error BasicStreambuf :=
  if 0 ≤ sb.gptr + n ∧ sb.gptr + n ≤ sb.buffer_.length then
    .ok { sb with gptr := (sb.gptr + n).toNat }
  else .error .undefined

/-- `setg(eback(), gptr(), pptr())`. -/
def setg_put (sb : BasicStreambuf) : BasicStreambuf := { sb with egptr := sb.pptr }

def reserve (sb : BasicStreambuf) (n : Nat) : Except Error BasicStreambuf :=
  -- Check if there is already enough space in the put area.
  if n ≤ sb.epptr - sb.pptr then .ok sb
  else
    let pnext := sb.pptr - sb.gptr
    -- Shift get area to the start of buffer.
    let buffer := if 0 < sb.gptr then writeAt sb.buffer_ 0 (part sb.buffer_ sb.gptr sb.pptr)
      else sb.buffer_
    if n ≤ sb.epptr - pnext then .ok ⟨sb.max_size_, buffer, 0, pnext, pnext, sb.epptr⟩
    else if n ≤ sb.max_size_ ∧ pnext ≤ sb.max_size_ - n then
      let pend := pnext + n
      -- No vector is longer.
      if 2 ^ 63 ≤ pend then .error .terminated
      else .ok ⟨sb.max_size_, Streambuf.resize buffer (max pend 1), 0, pnext, pnext, pend⟩
    -- `std::length_error`.
    else .error .terminated

/-- `prepare`, and the output sequence as it is. -/
def prepare (sb : BasicStreambuf) (n : Nat) : Except Error (BasicStreambuf × List UInt8) := do
  let sb ← sb.reserve n
  return (sb, part sb.buffer_ sb.pptr (sb.pptr + n))

/-- A write into the output sequence, behind its first bytes. -/
def write (sb : BasicStreambuf) (off : Nat) (bytes : List UInt8) : Except Error BasicStreambuf :=
  if sb.pptr + off + bytes.length ≤ sb.buffer_.length then
    .ok { sb with buffer_ := writeAt sb.buffer_ (sb.pptr + off) bytes }
  else .error .undefined

def commit (sb : BasicStreambuf) (n : Nat) : Except Error BasicStreambuf := do
  let n := min n (sb.epptr - sb.pptr)
  let sb ← sb.pbump (toInt n)
  return sb.setg_put

/-- `uncommit`. The least `int` cannot be negated. -/
def uncommit (sb : BasicStreambuf) (n : Nat) : Except Error BasicStreambuf := do
  let n := min n sb.size
  let sb ← if toInt n = -2 ^ 31 then .error .undefined else sb.pbump (-toInt n)
  return sb.setg_put

/-- `consume`, with the address of the vector's first byte. Addresses have 64 bits. -/
def consume (sb : BasicStreambuf) (address n : Nat) : Except Error BasicStreambuf :=
  let sb := if sb.egptr < sb.pptr then sb.setg_put else sb
  let n := if address + sb.pptr < (address + sb.gptr + n) % 2 ^ 64 then sb.size else n
  sb.gbump (toInt n)

def reset (sb : BasicStreambuf) (address : Nat) : Except Error BasicStreambuf :=
  sb.consume address sb.size

/-! ## Characters -/

/-- `*pptr() = c`, and the pointer goes on. -/
def put (sb : BasicStreambuf) (c : UInt8) : Except Error BasicStreambuf :=
  if sb.pptr < sb.buffer_.length then
    .ok { sb with buffer_ := writeAt sb.buffer_ sb.pptr [c], pptr := sb.pptr + 1 }
  else .error .undefined

/-- What `overflow` reserves when the put area is full. -/
def overflow_size (sb : BasicStreambuf) : Nat :=
  let buffer_size := sb.size
  let delta := sb.max_size_ - buffer_size
  if buffer_size < sb.max_size_ ∧ delta < buffer_delta then delta else buffer_delta

def overflow (sb : BasicStreambuf) (c : UInt8) : Except Error BasicStreambuf := do
  let sb ← if sb.pptr = sb.epptr then sb.reserve sb.overflow_size else .ok sb
  sb.put c

def sputc (sb : BasicStreambuf) (c : UInt8) : Except Error BasicStreambuf :=
  if sb.pptr < sb.epptr then sb.put c else sb.overflow c

def sputn : BasicStreambuf → List UInt8 → Except Error BasicStreambuf
  | sb, [] => .ok sb
  | sb, c :: cs => do sputn (← sb.sputc c) cs

/-- `*gptr()`, and the pointer goes on. -/
def take_front (sb : BasicStreambuf) : Except Error (Option UInt8 × BasicStreambuf) :=
  match sb.buffer_[sb.gptr]? with
  | some c => .ok (some c, { sb with gptr := sb.gptr + 1 })
  | none => .error .undefined

/-- `underflow`: whether there is a character, and the repaired end of the get area. -/
def underflow (sb : BasicStreambuf) : Option BasicStreambuf :=
  if sb.gptr < sb.pptr then some sb.setg_put else none

def sbumpc (sb : BasicStreambuf) : Except Error (Option UInt8 × BasicStreambuf) :=
  if sb.gptr < sb.egptr then sb.take_front
  else
    match sb.underflow with
    | some sb => sb.take_front
    | none => .ok (none, sb)

def sgetn : Nat → BasicStreambuf → Except Error (List UInt8 × BasicStreambuf)
  | 0, sb => .ok ([], sb)
  | n + 1, sb => do
    let (c, sb) ← sb.sbumpc
    match c with
    | none => return ([], sb)
    | some c =>
      let (cs, sb) ← sgetn n sb
      return (c :: cs, sb)

/-! ## The order of the pointers -/

structure WellPlaced (sb : BasicStreambuf) : Prop where
  get_order : sb.gptr ≤ sb.egptr
  get_put : sb.egptr ≤ sb.pptr
  put_order : sb.pptr ≤ sb.epptr
  within : sb.epptr ≤ sb.buffer_.length

instance (sb : BasicStreambuf) : Decidable sb.WellPlaced :=
  decidable_of_iff (sb.gptr ≤ sb.egptr ∧ sb.egptr ≤ sb.pptr ∧ sb.pptr ≤ sb.epptr ∧
    sb.epptr ≤ sb.buffer_.length)
    ⟨fun ⟨h1, h2, h3, h4⟩ => ⟨h1, h2, h3, h4⟩, fun ⟨h1, h2, h3, h4⟩ => ⟨h1, h2, h3, h4⟩⟩

variable {sb sb' : BasicStreambuf}

theorem wellPlaced_new (max_size : Nat) : (new max_size).WellPlaced :=
  ⟨Nat.le_refl _, Nat.le_refl _, Nat.zero_le _, by
    simp only [new, List.length_replicate]
    omega⟩

theorem WellPlaced.length_view (h : sb.WellPlaced) : sb.string_view.length = sb.size := by
  have hget := h.get_order
  have hput := h.get_put
  have horder := h.put_order
  have hwithin := h.within
  exact length_part (by omega)

theorem WellPlaced.order (h : sb.WellPlaced) : sb.gptr ≤ sb.pptr := h.get_order.trans h.get_put

/-! ## What the functions do -/

theorem part_drop_start (v : List UInt8) (i j k : Nat) :
    (part v i j).drop k = part v (i + k) j := by
  unfold part
  rw [List.drop_drop]

theorem part_take {v : List UInt8} {i j k : Nat} (h : i + k ≤ j) :
    (part v i j).take k = part v i (i + k) := by
  unfold part
  rw [List.take_drop, List.take_take, Nat.min_eq_left h]

theorem part_append {v : List UInt8} {i j k : Nat} (hij : i ≤ j) (hjk : j ≤ k) :
    part v i j ++ part v j k = part v i k := by
  have hfront : (part v i k).take (j - i) = part v i j := by
    rw [part_take (by omega)]
    congr 1
    omega
  have hback : (part v i k).drop (j - i) = part v j k := by
    rw [part_drop_start]
    congr 1
    omega
  rw [← hfront, ← hback, List.take_append_drop]

theorem part_resize {v : List UInt8} {i j n : Nat} (hj : j ≤ v.length) (hn : j ≤ n) :
    part (Streambuf.resize v n) i j = part v i j := by
  unfold part Streambuf.resize
  rw [List.take_append_of_le_length (by rw [List.length_take]; omega), List.take_take,
    Nat.min_eq_left hn]

/-- A shifted buffer starts with what is in the get area. -/
theorem part_shift {v : List UInt8} {i j : Nat} (hij : i ≤ j) (hj : j ≤ v.length) :
    part (if 0 < i then writeAt v 0 (part v i j) else v) 0 (j - i) = part v i j := by
  split
  · have hlength : (part v i j).length = j - i := length_part hj
    have hwritten : part (writeAt v 0 (part v i j)) 0 (0 + (part v i j).length) =
        part v 0 0 ++ part v i j := part_writeAt (Nat.le_refl 0) (Nat.zero_le _)
    rw [Nat.zero_add, hlength] at hwritten
    exact hwritten
  · have hzero : i = 0 := by omega
    subst hzero
    rfl

theorem length_shift {v : List UInt8} {i j : Nat} (hj : j ≤ v.length) :
    (if 0 < i then writeAt v 0 (part v i j) else v).length = v.length := by
  split
  · exact length_writeAt (by rw [length_part hj]; omega)
  · rfl

/-- What there is room for is reserved without a change. -/
theorem reserve_of_room {n : Nat} (h : n ≤ sb.epptr - sb.pptr) : sb.reserve n = .ok sb := by
  unfold reserve
  rw [if_pos h]

/-- Room is made behind what the buffer holds. -/
theorem WellPlaced.reserve (h : sb.WellPlaced) {n : Nat} (hok : sb.reserve n = .ok sb') :
    sb'.WellPlaced ∧ sb'.string_view = sb.string_view ∧ sb'.pptr + n ≤ sb'.epptr ∧
      sb'.max_size_ = sb.max_size_ := by
  have hget := h.get_order
  have hput := h.get_put
  have horder := h.put_order
  have hwithin := h.within
  unfold BasicStreambuf.reserve at hok
  split at hok
  · obtain rfl := Except.ok.inj hok
    exact ⟨h, rfl, by omega, rfl⟩
  simp only at hok
  have hshift := part_shift (v := sb.buffer_) (h.order) (by omega : sb.pptr ≤ sb.buffer_.length)
  have hlength := length_shift (v := sb.buffer_) (i := sb.gptr) (by omega : sb.pptr ≤ _)
  generalize (if 0 < sb.gptr then writeAt sb.buffer_ 0 (part sb.buffer_ sb.gptr sb.pptr)
    else sb.buffer_) = buffer at hok hshift hlength
  split at hok
  · obtain rfl := Except.ok.inj hok
    exact ⟨⟨Nat.zero_le _, Nat.le_refl _, by simp only; omega, by simp only; omega⟩, hshift,
      by simp only; omega, rfl⟩
  split at hok
  · split at hok
    · cases hok
    obtain rfl := Except.ok.inj hok
    have hresized : (Streambuf.resize buffer (max (sb.pptr - sb.gptr + n) 1)).length =
        max (sb.pptr - sb.gptr + n) 1 := by
      unfold Streambuf.resize
      rw [List.length_append, List.length_take, List.length_replicate]
      omega
    refine ⟨⟨Nat.zero_le _, Nat.le_refl _, by simp only; omega, by simp only; omega⟩, ?_,
      by simp only; omega, rfl⟩
    show part (Streambuf.resize buffer _) 0 _ = _
    rw [part_resize (j := sb.pptr - sb.gptr) (by omega) (by omega)]
    exact hshift
  · cases hok

/-- Only more than the maximum, or more than a vector has, is not reserved. -/
theorem reserve_error {n : Nat} {e : Error} (h : sb.reserve n = .error e) :
    e = .terminated ∧ (sb.max_size_ < sb.size + n ∨ 2 ^ 63 ≤ sb.size + n) := by
  unfold BasicStreambuf.reserve at h
  split at h
  · cases h
  simp only at h
  split at h
  · cases h
  split at h
  · split at h
    · rename_i hlong
      exact ⟨(Except.error.inj h).symm, Or.inr hlong⟩
    · cases h
  · rename_i hmax
    refine ⟨(Except.error.inj h).symm, Or.inl ?_⟩
    unfold size
    omega

theorem pbump_ok {n : Int} (hlow : 0 ≤ sb.pptr + n) (hhigh : sb.pptr + n ≤ sb.buffer_.length) :
    sb.pbump n = .ok { sb with pptr := (sb.pptr + n).toNat } := if_pos ⟨hlow, hhigh⟩

theorem gbump_ok {n : Int} (hlow : 0 ≤ sb.gptr + n) (hhigh : sb.gptr + n ≤ sb.buffer_.length) :
    sb.gbump n = .ok { sb with gptr := (sb.gptr + n).toNat } := if_pos ⟨hlow, hhigh⟩

theorem WellPlaced.commit (h : sb.WellPlaced) {n : Nat}
    (hsmall : min n (sb.epptr - sb.pptr) < 2 ^ 31) :
    sb.commit n = .ok { sb with
      pptr := sb.pptr + min n (sb.epptr - sb.pptr)
      egptr := sb.pptr + min n (sb.epptr - sb.pptr) } := by
  have horder := h.put_order
  have hwithin := h.within
  unfold BasicStreambuf.commit
  simp only [toInt_of_lt hsmall]
  rw [pbump_ok (by omega) (by omega)]
  have hsum : ((sb.pptr : Int) + (min n (sb.epptr - sb.pptr) : Nat)).toNat =
      sb.pptr + min n (sb.epptr - sb.pptr) := by omega
  simp only [hsum]
  rfl

theorem WellPlaced.uncommit (h : sb.WellPlaced) {n : Nat} (hsmall : sb.size < 2 ^ 31) :
    sb.uncommit n = .ok { sb with
      pptr := sb.pptr - min n sb.size
      egptr := sb.pptr - min n sb.size } := by
  have hget := h.order
  have horder := h.put_order
  have hwithin := h.within
  have hmin : min n sb.size ≤ sb.pptr := by unfold size; omega
  unfold BasicStreambuf.uncommit
  simp only [toInt_of_lt (by omega : min n sb.size < 2 ^ 31)]
  rw [if_neg (by omega), pbump_ok (by omega) (by omega)]
  have hsum : ((sb.pptr : Int) + -((min n sb.size : Nat) : Int)).toNat =
      sb.pptr - min n sb.size := by omega
  simp only [hsum]
  rfl

/-- Where the sum of the pointer and the count does not wrap, all that is consumed is there. -/
theorem WellPlaced.consume (h : sb.WellPlaced) {address n : Nat} (hsmall : sb.size < 2 ^ 31)
    (hwrap : address + sb.gptr + n < 2 ^ 64) :
    sb.consume address n = .ok { sb with
      gptr := sb.gptr + min n sb.size
      egptr := sb.pptr } := by
  have hget := h.order
  have hput := h.get_put
  have horder := h.put_order
  have hwithin := h.within
  have hrepaired : (if sb.egptr < sb.pptr then sb.setg_put else sb) =
      { sb with egptr := sb.pptr } := by
    split
    · rfl
    · have heq : sb.egptr = sb.pptr := by omega
      exact congrArg (fun e => { sb with egptr := e }) heq
  have hcount : (if address + sb.pptr < (address + sb.gptr + n) % 2 ^ 64 then sb.size else n) =
      min n sb.size := by
    rw [Nat.mod_eq_of_lt hwrap]
    unfold size
    split <;> omega
  have hsum : ((sb.gptr : Int) + (min n sb.size : Nat)).toNat = sb.gptr + min n sb.size := by omega
  have hmin : sb.gptr + min n sb.size ≤ sb.pptr := by unfold size; omega
  unfold BasicStreambuf.consume
  simp only [hrepaired]
  show gbump _ (toInt (if address + sb.pptr < (address + sb.gptr + n) % 2 ^ 64 then sb.size
    else n)) = _
  rw [hcount, toInt_of_lt (by omega), gbump_ok (by simp only; omega) (by simp only; omega)]
  simp only [hsum]

/-- A character behind the others. -/
theorem WellPlaced.put (h : sb.WellPlaced) (c : UInt8) (hroom : sb.pptr < sb.epptr) :
    ∃ sb', sb.put c = .ok sb' ∧ sb'.WellPlaced ∧ sb'.string_view = sb.string_view ++ [c] ∧
      sb'.max_size_ = sb.max_size_ := by
  have hget := h.get_order
  have hput := h.get_put
  have hwithin := h.within
  have hlength : (writeAt sb.buffer_ sb.pptr [c]).length = sb.buffer_.length :=
    length_writeAt (by simp only [List.length_singleton]; omega)
  unfold BasicStreambuf.put
  rw [if_pos (by omega)]
  exact ⟨_, rfl, ⟨hget, by simp only; omega, by simp only; omega, by simp only [hlength]; omega⟩,
    part_writeAt h.order (by omega), rfl⟩

/-- What is reserved for a character is within the maximum, if the character is. -/
theorem overflow_size_le (sb : BasicStreambuf) : 0 < sb.overflow_size ∧
    (sb.size < sb.max_size_ → sb.size + sb.overflow_size ≤ sb.max_size_) := by
  have hdelta : buffer_delta = 128 := rfl
  unfold overflow_size
  simp only
  split
  · omega
  · omega

/-- A character is put, or it is too much for the maximum or for a vector. -/
theorem WellPlaced.sputc (h : sb.WellPlaced) (c : UInt8) :
    (∃ sb', sb.sputc c = .ok sb' ∧ sb'.WellPlaced ∧ sb'.string_view = sb.string_view ++ [c] ∧
      sb'.max_size_ = sb.max_size_) ∨
    sb.sputc c = .error .terminated ∧
      (sb.max_size_ < sb.size + 1 ∨ 2 ^ 63 ≤ sb.size + buffer_delta) := by
  unfold BasicStreambuf.sputc
  split
  · rename_i hroom
    exact Or.inl (h.put c hroom)
  · rename_i hfull
    have horder := h.put_order
    have hend : sb.pptr = sb.epptr := by omega
    obtain ⟨hpos, hmax⟩ := overflow_size_le sb
    unfold overflow
    rw [if_pos hend]
    cases hreserve : sb.reserve sb.overflow_size with
    | ok sb' =>
      obtain ⟨hplaced, hview, hroom, hsame⟩ := h.reserve hreserve
      obtain ⟨sb'', hput, hplaced', hview', hsame'⟩ := hplaced.put c (by omega)
      refine Or.inl ⟨sb'', hput, hplaced', ?_, hsame'.trans hsame⟩
      rw [hview', hview]
    | error e =>
      obtain ⟨rfl, hlong⟩ := reserve_error hreserve
      refine Or.inr ⟨rfl, ?_⟩
      have hdelta : sb.overflow_size ≤ buffer_delta := by
        unfold overflow_size
        simp only
        split <;> omega
      omega

/-- The first byte is taken, if there is one. -/
theorem WellPlaced.sbumpc (h : sb.WellPlaced) : ∃ sb', sb.sbumpc = .ok (sb.string_view.head?, sb') ∧
    sb'.WellPlaced ∧ sb'.string_view = sb.string_view.tail ∧ sb'.buffer_ = sb.buffer_ ∧
      sb'.pptr = sb.pptr ∧ sb'.epptr = sb.epptr ∧ sb'.max_size_ = sb.max_size_ := by
  have hget := h.get_order
  have hput := h.get_put
  have horder := h.put_order
  have hwithin := h.within
  have hlength := h.length_view
  by_cases hsome : sb.gptr < sb.pptr
  · have hhead : sb.buffer_[sb.gptr]? = sb.string_view.head? := by
      rw [List.head?_eq_getElem?, string_view, getElem?_part (by omega), Nat.add_zero]
    obtain ⟨c, cs, hcons⟩ : ∃ c cs, sb.string_view = c :: cs :=
      List.exists_cons_of_ne_nil (List.ne_nil_of_length_pos (by unfold size at hlength; omega))
    have htail : part sb.buffer_ (sb.gptr + 1) sb.pptr = sb.string_view.tail := by
      rw [← part_drop_start, List.drop_one]
      rfl
    rw [hcons] at hhead htail
    rw [hcons]
    unfold BasicStreambuf.sbumpc
    split
    · unfold take_front
      rw [hhead]
      exact ⟨_, rfl, ⟨by simp only; omega, hput, horder, hwithin⟩, htail, rfl, rfl, rfl, rfl⟩
    · unfold underflow
      rw [if_pos hsome]
      unfold take_front
      simp only [setg_put, hhead]
      refine ⟨_, rfl, ⟨?_, Nat.le_refl _, horder, hwithin⟩, htail, rfl, rfl, rfl, rfl⟩
      simp only
      omega
  · have hnil : sb.string_view = [] := List.length_eq_zero_iff.mp (by
      rw [hlength]
      unfold size
      omega)
    unfold BasicStreambuf.sbumpc underflow
    rw [if_neg (by omega), if_neg hsome, hnil]
    exact ⟨sb, rfl, h, hnil, rfl, rfl, rfl, rfl⟩

/-- The first bytes are taken, as many as there are. -/
theorem WellPlaced.sgetn (h : sb.WellPlaced) (n : Nat) :
    ∃ sb', sb.sgetn n = .ok (sb.string_view.take n, sb') ∧ sb'.WellPlaced ∧
      sb'.string_view = sb.string_view.drop n ∧ sb'.buffer_ = sb.buffer_ ∧ sb'.pptr = sb.pptr ∧
      sb'.epptr = sb.epptr ∧ sb'.max_size_ = sb.max_size_ := by
  induction n generalizing sb with
  | zero => exact ⟨sb, rfl, h, rfl, rfl, rfl, rfl, rfl⟩
  | succ n ih =>
    obtain ⟨sb₁, hbump, hplaced, hview, hbuffer, hpptr, hepptr, hmax⟩ := h.sbumpc
    unfold BasicStreambuf.sgetn
    rw [hbump]
    cases hcons : sb.string_view with
    | nil =>
      rw [hcons] at hview
      exact ⟨sb₁, rfl, hplaced, hview, hbuffer, hpptr, hepptr, hmax⟩
    | cons c cs =>
      obtain ⟨sb₂, hrest, hplaced', hview', hbuffer', hpptr', hepptr', hmax'⟩ := ih hplaced
      rw [hview, hcons, List.tail_cons] at hrest hview'
      refine ⟨sb₂, ?_, hplaced', hview', hbuffer'.trans hbuffer, hpptr'.trans hpptr,
        hepptr'.trans hepptr, hmax'.trans hmax⟩
      show (do let (cs, sb) ← sb₁.sgetn n; return (c :: cs, sb)) = _
      rw [hrest]
      rfl

end BasicStreambuf

end util.buffer
