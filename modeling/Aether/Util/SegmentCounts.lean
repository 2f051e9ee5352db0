-- What the reads of a segment come to for each length that is asked for: they keep the count as
-- long as it is an `int`, over all divisions of what arrives.
import Aether.Lib.Pieces
import Aether.Util.BaseSegment

open proxy util.bytes lib.pieces

namespace util.buffer

/-! ## Whole reads -/

namespace Source

/-- One read after each piece that arrives behind what is left. -/
def reads (source : Source) (bytes : Nat) (seg : BaseSegment) (left : List UInt8) :
    List (List UInt8) → Except Error (BaseSegment × List UInt8)
  | [] => .ok (seg, left)
  | piece :: pieces => do
    let (seg, left) ← source.read seg (left ++ piece) bytes
    reads source bytes seg left pieces

/-- The reads of so many bytes keep the count: the segment is complete as soon as there are so many,
and just these are then committed and taken. Where no vector holds them the program ends. -/
def KeepsCount (source : Source) (seg : BaseSegment) (bytes : Nat) (pieces : List (List UInt8)) :
    Prop :=
  match source.reads bytes seg [] pieces with
  | .ok (s, left) =>
    if pieces ≠ [] ∧ bytes ≤ pieces.flatten.length then
      s.is_complete_ = true ∧ left = pieces.flatten.drop bytes ∧
        s.committed_data = seg.committed_data ++ pieces.flatten.take bytes
    else s.is_complete_ = false
  | .error e => e = .terminated

variable {source : Source} {seg : BaseSegment} {bytes : Nat}

theorem read_complete (h : seg.is_complete_ = true) (inp : List UInt8) :
    source.read seg inp bytes = .ok (seg, inp) := by
  cases source with
  | streambuf => exact if_pos h
  | istream =>
    show (seg.read_up_to_bytes_istream (Istream.new inp) bytes).map _ = _
    rw [BaseSegment.read_up_to_bytes_istream, if_pos h]
    rfl

theorem read_zero (h : seg.is_complete_ = false) (inp : List UInt8) :
    source.read seg inp 0 = .ok ({ seg with is_complete_ := true }, inp) := by
  have hopen : ¬ seg.is_complete_ = true := by rw [h]; exact Bool.false_ne_true
  cases source with
  | streambuf =>
    show seg.read_up_to_bytes inp 0 = _
    rw [BaseSegment.read_up_to_bytes, if_neg hopen, if_pos rfl]
  | istream =>
    show (seg.read_up_to_bytes_istream (Istream.new inp) 0).map _ = _
    rw [BaseSegment.read_up_to_bytes_istream, if_neg hopen, if_pos rfl]
    rfl

theorem reads_cons (left piece : List UInt8) (pieces : List (List UInt8)) :
    source.reads bytes seg left (piece :: pieces) =
      source.read seg (left ++ piece) bytes >>= fun r => source.reads bytes r.1 r.2 pieces := rfl

theorem reads_eq_feed (seg : BaseSegment) (left : List UInt8) (pieces : List (List UInt8)) :
    source.reads bytes seg left pieces =
      feed (fun seg inp => source.read seg inp bytes) seg left pieces := by
  induction pieces generalizing seg left with
  | nil => rfl
  | cons piece pieces ih =>
    rw [reads_cons, feed_cons]
    cases source.read seg (left ++ piece) bytes with
    | error e => rfl
    | ok r => exact ih r.1 r.2

/-- A segment that is complete reads no more. -/
theorem reads_complete (h : seg.is_complete_ = true) (left : List UInt8)
    (pieces : List (List UInt8)) :
    source.reads bytes seg left pieces = .ok (seg, left ++ pieces.flatten) := by
  rw [reads_eq_feed]
  exact feed_done (read_complete h) left pieces

/-- Behind a commit the pieces that are left stay unread. -/
theorem reads_commit (left : List UInt8) (pieces : List (List UInt8)) :
    feed_rest (fun seg inp => source.read seg inp bytes) pieces
        (seg.commit.map (fun s => (s, left))) =
      seg.commit.map (fun s => (s, left ++ pieces.flatten)) := by
  cases hcommit : seg.commit with
  | error e => rfl
  | ok s =>
    have hcomplete : s.is_complete_ = true := by
      unfold BaseSegment.commit at hcommit
      cases hbuffer : seg.commit_buffer with
      | error e =>
        rw [hbuffer] at hcommit
        cases hcommit
      | ok s' =>
        rw [hbuffer] at hcommit
        obtain rfl := Except.ok.inj hcommit
        rfl
    exact feed_done (read_complete hcomplete) left pieces

/-- What the read comes to in which there are enough bytes: a commit of so many. -/
def Enough (bytes : Nat) (c data : List UInt8) (result : Except Error (BaseSegment × List UInt8)) :
    Prop :=
  bytes ≤ data.length ∧ ∃ s window, Partway s bytes c (data.take bytes) window ∧
    result = s.commit.map (fun s => (s, data.drop bytes))

/-- Where a vector holds them, the reads collect the bytes until there are enough. -/
theorem collects (source : Source) {c : List UInt8} (hvector : c.length + bytes < 2 ^ 63) :
    Collects (fun seg inp => source.read seg inp bytes)
      (fun data seg => data.length < bytes ∧ ∃ window, Partway seg bytes c data window)
      (fun data => bytes ≤ data.length) (Enough bytes c) where
  more := by
    rintro data seg w ⟨hshort, window, h⟩ hnot
    rw [List.length_append] at hnot
    rcases h.read hshort source w with ⟨-, hlong⟩ | ⟨s, window', hs, -, -, hread⟩
    · omega
    · rw [if_neg hnot] at hread
      rw [List.take_of_length_le (by omega : w.length ≤ _)] at hs
      exact ⟨s, hread, by rw [List.length_append]; omega, window', hs⟩
  ends := by
    rintro data seg w ⟨hshort, window, h⟩ - henough
    have htake : (data ++ w).take bytes = data ++ w.take (bytes - data.length) := by
      rw [List.take_append, List.take_of_length_le (by omega)]
    have hdrop : (data ++ w).drop bytes = w.drop (bytes - data.length) := by
      rw [List.drop_append, List.drop_of_length_le (by omega), List.nil_append]
    rcases h.read hshort source w with ⟨-, hlong⟩ | ⟨s, window', hs, -, -, hread⟩
    · omega
    · have hlength : bytes ≤ data.length + w.length := by
        rw [← List.length_append]
        exact henough
      refine ⟨henough, s, window', by rw [htake]; exact hs, ?_⟩
      rw [hread, if_pos hlength, hdrop]
  grows := by
    intro data w henough
    rw [List.length_append]
    exact Nat.le_trans henough (Nat.le_add_right _ _)
  stays := by
    intro data result pieces henough
    obtain ⟨hle, s, window, hs, hresult⟩ := henough
    rw [hresult]
    refine ⟨Nat.le_trans hle ?_, s, window, ?_, ?_⟩
    · rw [List.length_append]
      exact Nat.le_add_right _ _
    · rw [List.take_append_of_le_length hle]
      exact hs
    · rw [List.drop_append_of_le_length hle]
      exact reads_commit _ _

/-- The pieces make up the bytes, whatever their cuts: the segment is committed once there are
enough of them. -/
theorem reads_partway (source : Source) {c window : List UInt8}
    (h : Partway seg bytes c [] window) (hpos : 0 < bytes) (pieces : List (List UInt8)) :
    (source.reads bytes seg [] pieces = .error .terminated ∧ 2 ^ 63 ≤ c.length + bytes) ∨
    ∃ s window', Partway s bytes c (pieces.flatten.take bytes) window' ∧
      (bytes ≤ pieces.flatten.length → c.length + bytes < 2 ^ 63) ∧
      source.reads bytes seg [] pieces =
        if bytes ≤ pieces.flatten.length then
          s.commit.map (fun s => (s, pieces.flatten.drop bytes))
        else .ok (s, []) := by
  rw [reads_eq_feed]
  by_cases hvector : c.length + bytes < 2 ^ 63
  · have hopen : ([] : List UInt8).length < bytes ∧ ∃ window, Partway seg bytes c [] window :=
      ⟨hpos, window, h⟩
    by_cases henough : bytes ≤ pieces.flatten.length
    · obtain ⟨-, s, window', hs, hreads⟩ :=
        (collects source hvector).feed_ends hopen (Nat.not_le_of_lt hpos) henough
      refine Or.inr ⟨s, window', hs, fun _ => hvector, ?_⟩
      rw [if_pos henough]
      exact hreads
    · obtain ⟨s, hreads, -, window', hs⟩ := (collects source hvector).feed_open hopen henough
      refine Or.inr ⟨s, window', ?_, fun hle => absurd hle henough, ?_⟩
      · rw [List.take_of_length_le (by omega)]
        exact hs
      · rw [if_neg henough]
        exact hreads
  · cases pieces with
    | nil =>
      have hnone : ¬ bytes ≤ ([] : List (List UInt8)).flatten.length := Nat.not_le_of_lt hpos
      refine Or.inr ⟨seg, window, ?_, fun hle => absurd hle hnone, ?_⟩
      · rw [List.flatten_nil, List.take_nil]
        exact h
      · rw [if_neg hnone]
        rfl
    | cons piece pieces =>
      rcases h.read hpos source ([] ++ piece) with ⟨hread, hlong⟩ | ⟨s, window', hs, -, hfits, -⟩
      · rw [feed_cons, hread, feed_rest_error]
        exact Or.inl ⟨rfl, hlong⟩
      · exact absurd hfits hvector

end Source

/-- A commit fails only where a pointer leaves the vector. -/
theorem BaseSegment.commit_error {seg : BaseSegment} {e : Error} (h : seg.commit = .error e) :
    e = .undefined := by
  have hbump {sb : BasicStreambuf} {n : Int} (hn : sb.pbump n = .error e) : e = .undefined := by
    unfold BasicStreambuf.pbump at hn
    split at hn
    · cases hn
    · exact (Except.error.inj hn).symm
  unfold BaseSegment.commit BaseSegment.commit_buffer BasicStreambuf.commit at h
  simp only at h
  cases hput : seg.buffer_.pbump (toInt (min (min max_size seg.bytes_in_buffer_)
      (seg.buffer_.epptr - seg.buffer_.pptr))) with
  | error e' =>
    rw [hput] at h
    obtain rfl := Except.error.inj h
    exact hbump hput
  | ok sb =>
    rw [hput] at h
    cases h

namespace Partway

variable {source : Source} {seg : BaseSegment} {bytes : Nat} {c window : List UInt8}
  {pieces : List (List UInt8)}

/-- No byte is missing from the first read on. -/
theorem keepsCount_zero (h : Partway seg 0 c [] window) : source.KeepsCount seg 0 pieces := by
  unfold Source.KeepsCount
  cases pieces with
  | nil =>
    show if _ then _ else seg.is_complete_ = false
    rw [if_neg fun hnil => hnil.1 rfl]
    exact h.open_
  | cons piece pieces =>
    have hreads : source.reads 0 seg [] (piece :: pieces) =
        .ok ({ seg with is_complete_ := true }, (piece :: pieces).flatten) := by
      rw [Source.reads_cons, Source.read_zero h.open_]
      exact Source.reads_complete rfl _ _
    rw [hreads]
    simp only [ne_eq, reduceCtorEq, not_false_eq_true, Nat.zero_le, and_self, if_true,
      List.take_zero, List.append_nil, List.drop_zero, List.flatten_cons, true_and]
    rfl

theorem keepsCount_iff (h : Partway seg 0 c [] window) : source.KeepsCount seg bytes pieces ↔
    bytes < 2 ^ 31 ∨ pieces.flatten.length < bytes ∨ 2 ^ 63 ≤ c.length + bytes := by
  by_cases hzero : bytes = 0
  · subst hzero
    exact iff_of_true h.keepsCount_zero (Or.inl (by decide))
  have hpos : 0 < bytes := Nat.pos_of_ne_zero hzero
  unfold Source.KeepsCount
  rcases Source.reads_partway source (h.start bytes) hpos pieces with
    ⟨hreads, hlong⟩ | ⟨s, window', hs, hvector, hreads⟩
  · rw [hreads]
    exact iff_of_true rfl (Or.inr (Or.inr hlong))
  rw [hreads, h.committed]
  by_cases henough : bytes ≤ pieces.flatten.length
  · have hsome : pieces ≠ [] := by
      rintro rfl
      exact hzero (Nat.le_zero.mp henough)
    have hfull : (pieces.flatten.take bytes).length = bytes := by
      rw [List.length_take]
      omega
    rw [if_pos henough]
    by_cases hsmall : bytes < 2 ^ 31
    · obtain ⟨s', window'', hcommit, hcomplete, -, hsound⟩ := hs.commit_small hfull hsmall
      rw [hcommit]
      refine iff_of_true ?_ (Or.inl hsmall)
      show if _ then _ else _
      rw [if_pos ⟨hsome, henough⟩]
      exact ⟨hcomplete, rfl, hsound.stands.view⟩
    · refine iff_of_false ?_ (by have hroom := hvector henough; omega)
      cases hcommit : s.commit with
      | error e =>
        rw [BaseSegment.commit_error hcommit]
        exact fun hterminated => by cases hterminated
      | ok s' =>
        show ¬ if _ then _ else _
        rw [if_pos ⟨hsome, henough⟩]
        rintro ⟨-, -, hright⟩
        have hroom := hvector henough
        exact hs.commit_large hfull (by omega) (by omega) hcommit hright
  · rw [if_neg henough]
    refine iff_of_true ?_ (Or.inr (Or.inl (by omega)))
    show if _ then _ else _
    rw [if_neg fun hboth => henough hboth.2]
    exact hs.open_

end Partway

/-! ## The segments of the parsers -/

/-- The segments a parser may read with: a new one, and one that it has read with before, which it
goes on with behind what is committed or which it has reset. -/
inductive Used : BaseSegment → Prop where
  | new : Used .new
  | again {seg s : BaseSegment} {left : List UInt8} (before : Used seg) (source : Source)
      (bytes : Nat) (pieces : List (List UInt8)) (small : bytes < 2 ^ 31)
      (reads : source.reads bytes seg [] pieces = .ok (s, left))
      (complete : s.is_complete_ = true) : Used s.mark_as_incomplete
  | reset {seg s s' : BaseSegment} {left : List UInt8} (before : Used seg) (source : Source)
      (bytes : Nat) (pieces : List (List UInt8)) (small : bytes < 2 ^ 31)
      (reads : source.reads bytes seg [] pieces = .ok (s, left)) (address : Nat)
      (addressed : address + s.buffer_.buffer_.length < 2 ^ 64)
      (held : s.committed_data.length < 2 ^ 31) (resets : s.reset address = .ok s') : Used s'

theorem partway_new : Partway .new 0 [] [] [] where
  stands := Refines.new max_size
  limit := rfl
  vector := by
    have hlength : (BaseSegment.new.buffer_.buffer_).length = 128 := List.length_replicate
    rw [hlength]
    decide
  open_ := rfl
  count := rfl
  written := rfl
  room := Or.inl rfl

namespace Sound

variable {seg s : BaseSegment} {c window : List UInt8}

theorem again (h : Sound seg c window) (hcount : seg.bytes_in_buffer_ = 0) :
    Partway seg.mark_as_incomplete 0 c [] window :=
  ⟨⟨h.stands, h.limit, h.vector⟩, rfl, hcount, List.take_zero, Or.inl rfl⟩

/-- A reset consumes all that is committed. -/
theorem reset (h : Sound seg c window) (hsmall : c.length < 2 ^ 31) {address : Nat}
    (haddress : address + seg.buffer_.buffer_.length < 2 ^ 64) (hok : seg.reset address = .ok s) :
    Partway s 0 [] [] window := by
  obtain ⟨sb, hreset, hrefines⟩ := h.stands.reset hsmall haddress
  have hsize : seg.buffer_.size = seg.buffer_.pptr - seg.buffer_.gptr := rfl
  have horder := h.stands.placed.order
  have hput := h.stands.placed.put_order
  have hwithin := h.stands.placed.within
  have hkeeps := h.stands.placed.consume (by rw [h.stands.size_eq]; exact hsmall)
    (by omega : address + seg.buffer_.gptr + seg.buffer_.size < 2 ^ 64)
  unfold BaseSegment.reset at hok
  rw [hreset] at hok
  obtain rfl := Except.ok.inj hok
  unfold BasicStreambuf.reset at hreset
  rw [hreset] at hkeeps
  refine ⟨⟨hrefines, ?_, ?_⟩, rfl, rfl, List.take_zero, Or.inl rfl⟩
  · rw [Except.ok.inj hkeeps]
    exact h.limit
  · rw [Except.ok.inj hkeeps]
    exact h.vector

end Sound

/-- After reads of less than 2^31 bytes a segment is sound, and a complete one has nothing in its
buffer. -/
theorem Partway.sound_of_reads {source : Source} {seg s : BaseSegment} {bytes : Nat}
    {c window left : List UInt8} {pieces : List (List UInt8)} (h : Partway seg 0 c [] window)
    (hsmall : bytes < 2 ^ 31) (hreads : source.reads bytes seg [] pieces = .ok (s, left)) :
    ∃ c' window', Sound s c' window' ∧ (s.is_complete_ = true → s.bytes_in_buffer_ = 0) := by
  by_cases hzero : bytes = 0
  · subst hzero
    cases pieces with
    | nil =>
      obtain ⟨rfl, rfl⟩ := Prod.mk.inj (Except.ok.inj hreads)
      exact ⟨c, window, h.toSound, fun _ => h.count⟩
    | cons piece pieces =>
      rw [Source.reads_cons, Source.read_zero h.open_] at hreads
      have hreads := (Source.reads_complete rfl _ _).symm.trans hreads
      obtain ⟨rfl, rfl⟩ := Prod.mk.inj (Except.ok.inj hreads)
      exact ⟨c, window, ⟨h.stands, h.limit, h.vector⟩, fun _ => h.count⟩
  have hpos : 0 < bytes := Nat.pos_of_ne_zero hzero
  rcases Source.reads_partway source (h.start bytes) hpos pieces with
    ⟨hfails, -⟩ | ⟨s₁, window₁, hs, -, hgives⟩
  · rw [hreads] at hfails
    cases hfails
  rw [hreads] at hgives
  split at hgives
  · rename_i henough
    obtain ⟨s₂, window₂, hcommit, -, hcount, hsound⟩ :=
      hs.commit_small (by rw [List.length_take]; omega) hsmall
    rw [hcommit] at hgives
    obtain ⟨rfl, -⟩ := Prod.mk.inj (Except.ok.inj hgives)
    exact ⟨_, window₂, hsound, fun _ => hcount⟩
  · obtain ⟨rfl, -⟩ := Prod.mk.inj (Except.ok.inj hgives)
    refine ⟨c, window₁, hs.toSound, fun hcomplete => ?_⟩
    rw [hs.open_] at hcomplete
    cases hcomplete

theorem partway_of_used {seg : BaseSegment} (h : Used seg) :
    ∃ c window, Partway seg 0 c [] window := by
  induction h with
  | new => exact ⟨[], [], partway_new⟩
  | again before source bytes pieces small reads complete ih =>
    obtain ⟨c, window, hseg⟩ := ih
    obtain ⟨c', window', hsound, hcount⟩ := hseg.sound_of_reads small reads
    exact ⟨c', window', hsound.again (hcount complete)⟩
  | reset before source bytes pieces small reads address addressed held resets ih =>
    obtain ⟨c, window, hseg⟩ := ih
    obtain ⟨c', window', hsound, -⟩ := hseg.sound_of_reads small reads
    have hview : _ = c' := hsound.stands.view
    have hheld : c'.length < 2 ^ 31 := by rw [← hview]; exact held
    exact ⟨[], window', hsound.reset hheld addressed resets⟩

/-! ## The segments of lists -/

namespace Partway

variable {seg : BaseSegment} {bytes : Nat} {c data window : List UInt8}

/-- A read of less than 2^31 bytes from a stream does what the read of the segment of lists does. -/
theorem read_as_counted (h : Partway seg bytes c data window) (hshort : data.length < bytes)
    (hsmall : bytes < 2 ^ 31) (hfit : c.length + bytes < 2 ^ 63) {counted : CountedSegment}
    (hcounted : counted.Gathers c data) (w : List UInt8) :
    ∃ s counted' inp, Source.istream.read seg w bytes = .ok (s, inp.rdbuf) ∧
      counted.read_up_to_bytes (Istream.new w) bytes = .ok (counted', inp) ∧
      s.is_complete_ = counted'.is_complete_ ∧ s.committed_data = counted'.committed := by
  rcases h.read hshort .istream w with ⟨-, hlong⟩ | ⟨s, window', hs, -, -, hread⟩
  · omega
  rw [hread]
  by_cases henough : bytes ≤ data.length + w.length
  · have htake : (data ++ w).take bytes = data ++ w.take (bytes - data.length) := by
      rw [List.take_append, List.take_of_length_le (by omega)]
    have hdrop : (data ++ w).drop bytes = w.drop (bytes - data.length) := by
      rw [List.drop_append, List.drop_of_length_le (by omega), List.nil_append]
    have hfull : (data ++ w.take (bytes - data.length)).length = bytes := by
      rw [List.length_append, List.length_take]
      omega
    obtain ⟨s', window'', hcommit, hcomplete, -, hsound⟩ := hs.commit_small hfull hsmall
    obtain ⟨last, hlist⟩ := CountedSegment.read_bytes hcounted hshort hfit (w := w)
      (by rw [List.length_append]; exact henough)
    rw [htake, hdrop, CountedSegment.committed_with_of_lt c (by rw [hfull]; exact hsmall)] at hlist
    rw [if_pos henough, hcommit]
    exact ⟨s', _, _, rfl, hlist, hcomplete, hsound.stands.view⟩
  · obtain ⟨counted', inp, hopen, hspent, hlist⟩ :=
      CountedSegment.read_few_bytes hcounted hshort hfit (w := w)
        (by rw [List.length_append]; omega)
    rw [if_neg henough]
    refine ⟨s, counted', inp, by rw [hspent.empty], hlist, hs.open_.trans hopen.open_.symm, ?_⟩
    rw [hs.committed, hopen.held]

/-- From a stream buffer it does what the read of the queue of bytes does. -/
theorem read_as_list (h : Partway seg bytes [] data window) (hsmall : bytes < 2 ^ 31)
    {list : BufferSegment} (hlist : list.Gathering bytes) (hdata : list.uncommitted = data)
    (w : List UInt8) :
    ∃ s list' rest, Source.streambuf.read seg w bytes = .ok (s, rest) ∧
      list.read_up_to_bytes w bytes = .ok ⟨list', rest⟩ ∧
      s.is_complete_ = list'.is_complete_ ∧ s.committed_data = list'.committed := by
  subst hdata
  have hshort := hlist.short
  have hnone : ([] : List UInt8).length = 0 := rfl
  rcases h.read hshort .streambuf w with ⟨-, hlong⟩ | ⟨s, window', hs, -, -, hread⟩
  · omega
  rw [hread]
  by_cases henough : bytes ≤ list.uncommitted.length + w.length
  · have hfull : (list.uncommitted ++ w.take (bytes - list.uncommitted.length)).length = bytes := by
      rw [List.length_append, List.length_take]
      omega
    obtain ⟨s', window'', hcommit, hcomplete, -, hsound⟩ := hs.commit_small hfull hsmall
    rw [if_pos henough, hcommit]
    exact ⟨s', _, _, rfl, BufferSegment.read_enough hlist hsmall henough, hcomplete,
      hsound.stands.view⟩
  · rw [if_neg henough]
    exact ⟨s, _, _, rfl, BufferSegment.read_short hlist (by omega), hs.open_, hs.committed⟩

end Partway

/-! ## The lengths for which the counts are kept -/

/-- The counts are kept just where they are an `int`, unless the bytes never arrive or no vector
holds them. -/
theorem keeps_count_iff {seg : BaseSegment} (h : Used seg) (source : Source) (bytes : Nat)
    (pieces : List (List UInt8)) : source.KeepsCount seg bytes pieces ↔
      bytes < 2 ^ 31 ∨ pieces.flatten.length < bytes ∨
        2 ^ 63 ≤ seg.committed_data.length + bytes := by
  obtain ⟨c, window, hseg⟩ := partway_of_used h
  rw [hseg.committed]
  exact hseg.keepsCount_iff

/-- Two pieces for a read of three bytes. -/
theorem keeps_count_three : Used .new ∧
    (Source.streambuf.KeepsCount .new 3 [[104, 101], [108, 108, 111]] ↔
      3 < 2 ^ 31 ∨ [[104, 101], [108, 108, (111 : UInt8)]].flatten.length < 3 ∨
        2 ^ 63 ≤ BaseSegment.new.committed_data.length + 3) :=
  ⟨.new, keeps_count_iff .new .streambuf 3 _⟩

/-- Of a body of 2^31 bytes, all of which are there, the count is not kept. -/
theorem two_pow_31_bytes_are_not_committed : ¬ ∀ (source : Source) (bytes : Nat)
    (pieces : List (List UInt8)), bytes < 2 ^ 63 → source.KeepsCount .new bytes pieces := by
  intro hall
  have hkeeps := partway_new.keepsCount_iff.mp
    (hall .istream (2 ^ 31) [List.replicate (2 ^ 31) 0] (by decide))
  have hlength : [List.replicate (2 ^ 31) (0 : UInt8)].flatten.length = 2 ^ 31 := by
    rw [List.flatten_cons, List.flatten_nil, List.append_nil, List.length_replicate]
  rw [hlength] at hkeeps
  revert hkeeps
  decide

end util.buffer
