-- `read_until` of `util/buffer_segment.cpp` for delimiters of any length, over all calls that a
-- stream takes to arrive. The delimiter is removed by `uncommit`, whose count is an `int`.
import Aether.Lib.Pieces
import Aether.Lib.Separators
import Aether.Util.StreamReads

open proxy util.bytes util.string lib.pieces lib.separators

namespace util.buffer

namespace CountedSegment

/-- `uncommit` of the buffer, with the bytes of its vector behind those that were put, which a bump
forward shows. -/
def uncommit (behind : Text) (seg : CountedSegment) (n : Nat) : Except Error CountedSegment :=
  let k := toInt (min n seg.committed.length)
  -- The least `int` cannot be negated.
  if k = -2 ^ 31 then .error .undefined
  else if 0 ≤ k then
    .ok { seg with committed := seg.committed.take (seg.committed.length - k.toNat) }
  else if (-k).toNat ≤ behind.length then
    .ok { seg with committed := seg.committed ++ behind.take (-k).toNat }
  else .error .undefined

/-- The loop of `read_until` a string. -/
def read_until_delim_loop (behind delim : Text) (final_delim : UInt8) :
    Nat → CountedSegment → Istream → Except Error (CountedSegment × Istream)
  | 0, seg, inp => .ok (seg, inp)
  | turns + 1, seg, inp =>
    let (next, inp) := inp.getline final_delim
    if inp.ok && !inp.eofbit then
      let seg := { seg with
        committed := seg.committed ++ next ++ [final_delim]
        uncommitted := []
        num_bytes_read_last_ := next.length + 1 }
      if seg.ends_with delim then
        -- Remove delimiter.
        (({ seg with is_complete_ := true } : CountedSegment).uncommit behind delim.length).map
          (fun seg => (seg, inp))
      else read_until_delim_loop behind delim final_delim turns seg inp
    else if inp.ok then
      .ok ({ seg with
        committed := seg.committed ++ next
        uncommitted := []
        num_bytes_read_last_ := next.length }, inp)
    else .ok (seg, inp)

/-- `read_until` a string that is not empty. -/
def read_until_delim (behind : Text) (seg : CountedSegment) (inp : Istream) (delim : Text) :
    Except Error (CountedSegment × Istream) :=
  if seg.is_complete_ then .ok (seg, inp)
  else read_until_delim_loop behind delim (delim.getLastD 0) (inp.rdbuf.length + 1) seg inp

end CountedSegment

/-- What a read goes up to. -/
inductive Delimiter where
  | character (delim : UInt8)
  | string (delim : Text) (nonempty : delim ≠ [])

namespace Delimiter

def text : Delimiter → Text
  | character delim => [delim]
  | string delim _ => delim

/-- The length of a string is an `int`. A character is never put. -/
def Short : Delimiter → Prop
  | character _ => True
  | string delim _ => delim.length < 2 ^ 31

def read_until (delim : Delimiter) (behind : Text) (seg : CountedSegment) (inp : Istream) :
    Except Error (CountedSegment × Istream) :=
  match delim with
  | character delim => .ok (seg.read_until inp delim)
  | string delim _ => seg.read_until_delim behind inp delim

/-- One call for each piece, from a stream that has just been made over what is left and the
piece. -/
def calls (delim : Delimiter) (behind : Text) (seg : CountedSegment) (left : Text) :
    List Text → Except Error (CountedSegment × Text)
  | [] => .ok (seg, left)
  | piece :: pieces => do
    let (seg, inp) ← delim.read_until behind seg (Istream.new (left ++ piece))
    calls delim behind seg inp.rdbuf pieces

/-- What a read is for: once the delimiter is in the stream, the segment has what is in front of
it, and what is behind it stays unread. -/
def Outcome (delim : Delimiter) (w : Text) (result : Except Error (CountedSegment × Text)) : Prop :=
  match firstAt delim.text w with
  | none => ∃ s, result = .ok (s, []) ∧ s.is_complete_ = false ∧ s.committed = w
  | some i => ∃ s, result = .ok (s, w.drop (i + delim.text.length)) ∧ s.is_complete_ = true ∧
      s.committed = w.take i

theorem text_ne_nil (delim : Delimiter) : delim.text ≠ [] := by
  cases delim with
  | character delim => exact List.cons_ne_nil _ _
  | string delim nonempty => exact nonempty

end Delimiter

namespace CountedSegment

variable {seg : CountedSegment} {behind : Text}

/-! ## The removal of the delimiter -/

theorem uncommit_short {n : Nat} (hn : n ≤ seg.committed.length) (hshort : n < 2 ^ 31) :
    seg.uncommit behind n =
      .ok { seg with committed := seg.committed.take (seg.committed.length - n) } := by
  unfold uncommit
  simp only [Nat.min_eq_left hn, toInt_of_lt hshort]
  rw [if_neg (by omega), if_pos (by omega), Int.toNat_natCast]

/-- Of a count that is no `int` too few bytes are removed, or bytes are added. -/
theorem uncommit_long {n : Nat} (hn : n ≤ seg.committed.length) (hlong : 2 ^ 31 ≤ n)
    {s : CountedSegment} (h : seg.uncommit behind n = .ok s) :
    ∃ c, s = { seg with committed := c } ∧ seg.committed.length - n < c.length := by
  have hint := (toInt_isInt (min n seg.committed.length)).2
  unfold uncommit at h
  generalize toInt (min n seg.committed.length) = k at hint h
  simp only at h
  split at h
  · cases h
  split at h
  · refine ⟨_, (Except.ok.inj h).symm, ?_⟩
    rw [List.length_take]
    omega
  split at h
  · refine ⟨_, (Except.ok.inj h).symm, ?_⟩
    rw [List.length_append, List.length_take]
    omega
  · cases h

theorem ends_with_iff {delim : Text} : seg.ends_with delim = true ↔ delim <:+ seg.committed := by
  unfold ends_with
  rw [List.suffix_iff_eq_drop, Bool.and_eq_true, decide_eq_true_eq, beq_iff_eq]
  constructor
  · rintro ⟨-, hdrop⟩
    exact hdrop.symm
  · intro hdrop
    refine ⟨?_, hdrop.symm⟩
    have hlength := congrArg List.length hdrop
    rw [List.length_drop] at hlength
    omega

end CountedSegment

namespace CountedSegment

variable {seg : CountedSegment} {behind front c w : Text} {b : UInt8} {turns : Nat}

/-! ## One call -/

theorem taken_open {next : Text} (ho : seg.Open c) :
    (seg.taken b next).Open (c ++ next ++ [b]) := by
  refine ⟨ho.open_, ?_, rfl⟩
  rw [taken, ho.held]

/-- A turn of the loop that finds the last character. -/
theorem read_until_delim_loop_found {delim next : Text} (hnext : b ∉ next) (rest : Text) :
    read_until_delim_loop behind delim b (turns + 1) seg (Istream.new (next ++ b :: rest)) =
      if (seg.taken b next).ends_with delim then
        (({ seg.taken b next with is_complete_ := true } : CountedSegment).uncommit behind
          delim.length).map (fun seg => (seg, Istream.new rest))
      else read_until_delim_loop behind delim b turns (seg.taken b next) (Istream.new rest) := by
  rw [read_until_delim_loop, getline_found hnext]
  rfl

/-- A turn that does not takes all of the stream. -/
theorem read_until_delim_loop_missed {delim : Text} (ho : seg.Open c) (hw : b ∉ w) :
    ∃ (s : CountedSegment) (inp : Istream), s.Open (c ++ w) ∧ inp.rdbuf = [] ∧
      read_until_delim_loop behind delim b (turns + 1) seg (Istream.new w) = .ok (s, inp) := by
  rw [read_until_delim_loop, getline_missed hw]
  by_cases hnil : w = []
  · subst hnil
    refine ⟨seg, ⟨[], true, true⟩, ?_, rfl, rfl⟩
    rw [List.append_nil]
    exact ho
  · have hsome : (w == []) = false := by rw [beq_eq_false_iff_ne]; exact hnil
    rw [hsome]
    exact ⟨⟨⟨seg.is_complete_, seg.committed ++ w, []⟩, w.length⟩, ⟨[], true, false⟩,
      ⟨ho.open_, congrArg (· ++ w) ho.held, rfl⟩, rfl, rfl⟩

/-- Without the delimiter the loop puts all of the stream behind what the segment has. -/
theorem read_until_delim_loop_open (behind : Text) (ho : seg.Open c)
    (hnot : ¬ front ++ [b] <:+: c ++ w) (hturns : w.length < turns) :
    ∃ (s : CountedSegment) (inp : Istream), s.Open (c ++ w) ∧ inp.rdbuf = [] ∧
      read_until_delim_loop behind (front ++ [b]) b turns seg (Istream.new w) = .ok (s, inp) := by
  induction turns generalizing seg c w with
  | zero => exact absurd hturns (Nat.not_lt_zero _)
  | succ turns ih =>
    by_cases hw : b ∈ w
    · obtain ⟨next, rest, rfl, hnext⟩ := List.eq_append_cons_of_mem hw
      have hwhole : c ++ (next ++ b :: rest) = c ++ next ++ [b] ++ rest := by
        simp only [List.append_assoc, List.cons_append, List.nil_append]
      have hends : ¬ (seg.taken b next).ends_with (front ++ [b]) = true := by
        rw [ends_with_iff, (taken_open ho).held]
        intro hsuffix
        rw [hwhole] at hnot
        exact hnot (hsuffix.isInfix.trans (List.prefix_append _ _).isInfix)
      rw [List.length_append, List.length_cons] at hturns
      rw [read_until_delim_loop_found hnext, if_neg hends, hwhole]
      rw [hwhole] at hnot
      exact ih (taken_open ho) hnot (by omega)
    · exact read_until_delim_loop_missed ho hw

/-- With it the loop ends behind the first one, and removes it. -/
theorem read_until_delim_loop_closed (behind : Text) {i : Nat} (ho : seg.Open c)
    (hnot : ¬ front ++ [b] <:+: c) (hfirst : firstAt (front ++ [b]) (c ++ w) = some i)
    (hturns : w.length < turns) :
    ∃ s : CountedSegment, s.is_complete_ = true ∧
      s.committed = (c ++ w).take (i + (front ++ [b]).length) ∧
      read_until_delim_loop behind (front ++ [b]) b turns seg (Istream.new w) =
        (s.uncommit behind (front ++ [b]).length).map
          (fun s => (s, Istream.new ((c ++ w).drop (i + (front ++ [b]).length)))) := by
  induction turns generalizing seg c w with
  | zero => exact absurd hturns (Nat.not_lt_zero _)
  | succ turns ih =>
    by_cases hw : b ∈ w
    · obtain ⟨next, rest, rfl, hnext⟩ := List.eq_append_cons_of_mem hw
      have hwhole : c ++ (next ++ b :: rest) = c ++ next ++ [b] ++ rest := by
        simp only [List.append_assoc, List.cons_append, List.nil_append]
      have hnot' : ¬ front ++ [b] <:+: c ++ next := not_infix_append hnot hnext
      rw [read_until_delim_loop_found hnext]
      by_cases hends : front ++ [b] <:+ c ++ next ++ [b]
      · -- The first occurrence ends here.
        have hat := firstAt_concat hnot' hends rest
        have hcount : (c ++ next ++ [b]).length = (c ++ next).length + 1 := List.length_append
        have hle := hends.length_le
        rw [List.append_assoc, hfirst] at hat
        have hend : i + (front ++ [b]).length = (c ++ next ++ [b]).length := by
          rw [Option.some.inj hat]
          omega
        rw [hend, hwhole, List.take_left, List.drop_left]
        refine ⟨{ seg.taken b next with is_complete_ := true }, rfl, (taken_open ho).held, ?_⟩
        rw [if_pos]
        rw [ends_with_iff, (taken_open ho).held]
        exact hends
      · rw [if_neg]
        · rw [List.length_append, List.length_cons] at hturns
          rw [hwhole] at hfirst ⊢
          refine ih (taken_open ho) ?_ hfirst (by omega)
          rw [List.infix_concat_iff, not_or]
          exact ⟨hends, hnot'⟩
        · rw [ends_with_iff, (taken_open ho).held]
          exact hends
    · have hnone := firstAt_eq_none_iff.mpr (not_infix_append hnot hw)
      rw [hfirst] at hnone
      cases hnone

end CountedSegment

namespace CountedSegment

variable {seg : CountedSegment} {behind c w : Text} {b : UInt8}

/-- A call up to a character puts what is in front of it, and takes it. -/
theorem read_until_character_closed {next : Text} (ho : seg.Open c) (hnext : b ∉ next)
    (rest : Text) : ∃ s : CountedSegment, s.is_complete_ = true ∧ s.committed = c ++ next ∧
      seg.read_until (Istream.new (next ++ b :: rest)) b = (s, Istream.new rest) := by
  refine ⟨⟨⟨true, seg.committed ++ next, []⟩, next.length⟩, rfl, congrArg (· ++ next) ho.held, ?_⟩
  unfold read_until
  rw [if_neg (by rw [ho.open_]; exact Bool.false_ne_true), getline_found hnext]
  rfl

theorem read_until_character_open (ho : seg.Open c) (hw : b ∉ w) :
    ∃ (s : CountedSegment) (inp : Istream), s.Open (c ++ w) ∧ inp.rdbuf = [] ∧
      seg.read_until (Istream.new w) b = (s, inp) := by
  refine ⟨⟨⟨false, seg.committed ++ w, []⟩, w.length⟩, ⟨[], true, w == []⟩,
    ⟨rfl, congrArg (· ++ w) ho.held, rfl⟩, rfl, ?_⟩
  unfold read_until
  rw [if_neg (by rw [ho.open_]; exact Bool.false_ne_true), getline_missed hw]
  simp only [Bool.not_true, Bool.and_false]

theorem read_until_delim_concat (ho : seg.Open c) (front : Text) (b : UInt8) :
    seg.read_until_delim behind (Istream.new w) (front ++ [b]) =
      read_until_delim_loop behind (front ++ [b]) b (w.length + 1) seg (Istream.new w) := by
  have hlast : (front ++ [b]).getLastD 0 = b := by simp
  unfold read_until_delim
  rw [if_neg (by rw [ho.open_]; exact Bool.false_ne_true), hlast]
  rfl

end CountedSegment

namespace Delimiter

open CountedSegment

variable {delim : Delimiter} {seg : CountedSegment} {behind c w : Text}

theorem string_concat {delim : Text} (h : delim ≠ []) : ∃ front b, delim = front ++ [b] :=
  ⟨delim.dropLast, delim.getLast h, (List.dropLast_append_getLast h).symm⟩

/-- A call without the delimiter takes all of the stream, and leaves the segment open. -/
theorem read_until_open (behind : Text) (ho : seg.Open c) (hnot : ¬ delim.text <:+: c ++ w) :
    ∃ (s : CountedSegment) (inp : Istream), s.Open (c ++ w) ∧ inp.rdbuf = [] ∧
      delim.read_until behind seg (Istream.new w) = .ok (s, inp) := by
  cases delim with
  | character b =>
    have hw : b ∉ w := by
      intro hb
      obtain ⟨x, y, rfl⟩ := List.append_of_mem hb
      exact hnot ⟨c ++ x, y, by simp [text]⟩
    obtain ⟨s, inp, hs, hnone, hread⟩ := read_until_character_open ho hw
    exact ⟨s, inp, hs, hnone, congrArg Except.ok hread⟩
  | string delim nonempty =>
    obtain ⟨front, b, rfl⟩ := string_concat nonempty
    obtain ⟨s, inp, hs, hnone, hloop⟩ :=
      read_until_delim_loop_open behind ho hnot (Nat.lt_succ_self w.length)
    exact ⟨s, inp, hs, hnone, (read_until_delim_concat ho front b).trans hloop⟩

/-- The call in which the delimiter arrives removes a short one, and leaves what is behind it. -/
theorem read_until_short (behind : Text) {i : Nat} (ho : seg.Open c) (hnot : ¬ delim.text <:+: c)
    (hfirst : firstAt delim.text (c ++ w) = some i) (hshort : delim.Short) :
    ∃ s : CountedSegment, s.is_complete_ = true ∧ s.committed = (c ++ w).take i ∧
      delim.read_until behind seg (Istream.new w) =
        .ok (s, Istream.new ((c ++ w).drop (i + delim.text.length))) := by
  cases delim with
  | character b =>
    have hnot : ¬ [] ++ [b] <:+: c := hnot
    have hfirst : firstAt ([] ++ [b]) (c ++ w) = some i := hfirst
    have hw : b ∈ w := by
      by_contra hb
      rw [firstAt_eq_none_iff.mpr (not_infix_append hnot hb)] at hfirst
      cases hfirst
    obtain ⟨next, rest, rfl, hnext⟩ := List.eq_append_cons_of_mem hw
    rw [← List.append_assoc] at hfirst ⊢
    rw [firstAt_concat (not_infix_append hnot hnext) (List.suffix_append _ _) rest] at hfirst
    obtain rfl : (c ++ next).length = i := Option.some.inj hfirst
    obtain ⟨s, hcomplete, hcommitted, hread⟩ := read_until_character_closed ho hnext rest
    refine ⟨s, hcomplete, by rw [hcommitted, List.take_left], ?_⟩
    show Except.ok (seg.read_until _ b) = Except.ok (s, Istream.new (List.drop (_ + 1) _))
    rw [hread, ← List.drop_drop, List.drop_left]
    rfl
  | string delim nonempty =>
    obtain ⟨front, b, rfl⟩ := string_concat nonempty
    obtain ⟨s, hcomplete, hcommitted, hloop⟩ :=
      read_until_delim_loop_closed behind ho hnot hfirst (Nat.lt_succ_self _)
    have hfits := (firstAt_parts hfirst).2
    have hlength : s.committed.length = i + (front ++ [b]).length := by
      rw [hcommitted, List.length_take]
      exact Nat.min_eq_left hfits
    refine ⟨{ s with committed := (c ++ w).take i }, hcomplete, rfl, ?_⟩
    refine (read_until_delim_concat ho front b).trans (hloop.trans ?_)
    rw [uncommit_short (by omega) hshort, hlength, Nat.add_sub_cancel, hcommitted, List.take_take,
      Nat.min_eq_left (Nat.le_add_right _ _)]
    rfl

/-- A long one is not removed, if there is no error. -/
theorem read_until_long {i : Nat} (ho : seg.Open c) (hnot : ¬ delim.text <:+: c)
    (hfirst : firstAt delim.text (c ++ w) = some i) (hlong : ¬ delim.Short) {s : CountedSegment}
    {inp : Istream} (hok : delim.read_until behind seg (Istream.new w) = .ok (s, inp)) :
    s.is_complete_ = true ∧ s.committed ≠ (c ++ w).take i := by
  cases delim with
  | character b => exact absurd trivial hlong
  | string delim nonempty =>
    obtain ⟨front, b, rfl⟩ := string_concat nonempty
    obtain ⟨s', hcomplete, hcommitted, hloop⟩ :=
      read_until_delim_loop_closed behind ho hnot hfirst (Nat.lt_succ_self _)
    have hlong : ¬ (front ++ [b]).length < 2 ^ 31 := hlong
    have hfits := (firstAt_parts hfirst).2
    have hlength : s'.committed.length = i + (front ++ [b]).length := by
      rw [hcommitted, List.length_take]
      exact Nat.min_eq_left hfits
    have hread := (read_until_delim_concat ho front b).symm.trans hok
    rw [hloop] at hread
    cases huncommit : s'.uncommit behind (front ++ [b]).length with
    | error e =>
      rw [huncommit] at hread
      cases hread
    | ok s'' =>
      rw [huncommit] at hread
      obtain ⟨rfl, -⟩ := Prod.mk.inj (Except.ok.inj hread)
      obtain ⟨k, rfl, hmore⟩ := uncommit_long (by omega) (Nat.le_of_not_lt hlong) huncommit
      refine ⟨hcomplete, fun hright => ?_⟩
      have hsame : k.length = ((c ++ w).take i).length := congrArg List.length hright
      rw [List.length_take] at hsame
      omega

/-! ## All calls -/

/-- A call on a stream that has just been made, and what it leaves. -/
def call (delim : Delimiter) (behind : Text) (seg : CountedSegment) (inp : Text) :
    Except Error (CountedSegment × Text) :=
  (delim.read_until behind seg (Istream.new inp)).map (fun read => (read.1, read.2.rdbuf))

theorem calls_cons (left piece : Text) (pieces : List Text) :
    delim.calls behind seg left (piece :: pieces) =
      delim.read_until behind seg (Istream.new (left ++ piece)) >>=
        fun read => delim.calls behind read.1 read.2.rdbuf pieces := rfl

theorem calls_eq_feed (seg : CountedSegment) (left : Text) (pieces : List Text) :
    delim.calls behind seg left pieces = feed (delim.call behind) seg left pieces := by
  induction pieces generalizing seg left with
  | nil => rfl
  | cons piece pieces ih =>
    rw [calls_cons, feed_cons]
    unfold call
    cases delim.read_until behind seg (Istream.new (left ++ piece)) with
    | error e => rfl
    | ok read => exact ih read.1 read.2.rdbuf

/-- A segment that is complete reads no more. -/
theorem call_complete (h : seg.is_complete_ = true) (inp : Text) :
    delim.call behind seg inp = .ok (seg, inp) := by
  have hread : delim.read_until behind seg (Istream.new inp) = .ok (seg, Istream.new inp) := by
    cases delim with
    | character b => exact congrArg Except.ok (if_pos h)
    | string delim nonempty => exact if_pos h
  unfold call
  rw [hread]
  rfl

/-- What the call comes to in which the delimiter arrives. -/
def Arrives (delim : Delimiter) (w : Text) (result : Except Error (CountedSegment × Text)) : Prop :=
  ∃ i, firstAt delim.text w = some i ∧
    (delim.Short → ∃ s, result = .ok (s, w.drop (i + delim.text.length)) ∧
      s.is_complete_ = true ∧ s.committed = w.take i) ∧
    (¬ delim.Short → ∀ s left, result = .ok (s, left) →
      s.is_complete_ = true ∧ s.committed ≠ w.take i)

/-- The calls collect the stream until the delimiter is in it. -/
theorem collects (delim : Delimiter) (behind : Text) :
    Collects (delim.call behind) (fun c seg => seg.Open c) (fun w => delim.text <:+: w)
      delim.Arrives where
  more := by
    intro c seg w ho hnot
    obtain ⟨s, inp, hs, hnone, hread⟩ := read_until_open behind ho hnot
    refine ⟨s, ?_, hs⟩
    unfold call
    rw [hread, ← hnone]
    rfl
  ends := by
    intro c seg w ho hnot hfound
    obtain ⟨i, hfirst⟩ := exists_firstAt hfound
    refine ⟨i, hfirst, fun hshort => ?_, fun hlong s left hok => ?_⟩
    · obtain ⟨s, hcomplete, hcommitted, hread⟩ := read_until_short behind ho hnot hfirst hshort
      refine ⟨s, ?_, hcomplete, hcommitted⟩
      unfold call
      rw [hread]
      rfl
    · unfold call at hok
      cases hread : delim.read_until behind seg (Istream.new w) with
      | error e =>
        rw [hread] at hok
        cases hok
      | ok read =>
        rw [hread] at hok
        obtain ⟨rfl, -⟩ := Prod.mk.inj (Except.ok.inj hok)
        exact read_until_long ho hnot hfirst hlong hread
  grows := fun hfound => hfound.trans (List.prefix_append _ _).isInfix
  stays := by
    rintro w result pieces ⟨i, hfirst, hshort, hlong⟩
    obtain ⟨-, hfits⟩ := firstAt_parts hfirst
    have htake : (w ++ pieces.flatten).take i = w.take i :=
      List.take_append_of_le_length (by omega)
    refine ⟨i, firstAt_append hfirst _, fun h => ?_, fun h s left hok => ?_⟩
    · obtain ⟨s, rfl, hcomplete, hcommitted⟩ := hshort h
      refine ⟨s, ?_, hcomplete, hcommitted.trans htake.symm⟩
      rw [feed_rest_ok, feed_done (call_complete hcomplete), List.drop_append_of_le_length hfits]
    · cases result with
      | error e => cases hok
      | ok read =>
        obtain ⟨s', left'⟩ := read
        obtain ⟨hcomplete, hwrong⟩ := hlong h s' left' rfl
        rw [feed_rest_ok, feed_done (call_complete hcomplete)] at hok
        obtain ⟨rfl, -⟩ := Prod.mk.inj (Except.ok.inj hok)
        rw [htake]
        exact ⟨hcomplete, hwrong⟩

/-- Over all cuts of a stream: `c` has arrived in the calls before, and the delimiter is not in
it. -/
theorem outcome_calls_iff (ho : seg.Open c) (hnot : ¬ delim.text <:+: c) (pieces : List Text) :
    delim.Outcome (c ++ pieces.flatten) (delim.calls behind seg [] pieces) ↔
      delim.Short ∨ ¬ delim.text <:+: c ++ pieces.flatten := by
  rw [calls_eq_feed]
  unfold Outcome
  by_cases hfound : delim.text <:+: c ++ pieces.flatten
  · obtain ⟨i, hfirst, hshort, hlong⟩ := (delim.collects behind).feed_ends ho hnot hfound
    rw [hfirst]
    by_cases h : delim.Short
    · exact iff_of_true (hshort h) (Or.inl h)
    · refine iff_of_false ?_ (fun hor => hor.elim h (fun hnone => hnone hfound))
      rintro ⟨s, hok, -, hcommitted⟩
      exact (hlong h s _ hok).2 hcommitted
  · obtain ⟨s, hok, hs⟩ := (delim.collects behind).feed_open ho hfound
    rw [firstAt_eq_none_iff.mpr hfound]
    exact iff_of_true ⟨s, hok, hs.open_, hs.held⟩ (Or.inr hfound)

end Delimiter

/-- For all cuts of a stream, after each call: the segment is complete as soon as the delimiter has
arrived, and then has what is in front of the first one, if the delimiter is removed with a count
that is an `int` or never arrives. -/
theorem reads_until_iff (delim : Delimiter) (behind : Text) (last : Nat) (pieces : List Text) :
    (∀ k, delim.Outcome (pieces.take k).flatten
      (delim.calls behind ⟨.new, last⟩ [] (pieces.take k))) ↔
      delim.Short ∨ ¬ delim.text <:+: pieces.flatten := by
  have hopen : (⟨.new, last⟩ : CountedSegment).Open [] := ⟨rfl, rfl, rfl⟩
  have hnil : ¬ delim.text <:+: [] := fun h => delim.text_ne_nil (List.infix_nil.mp h)
  have hcalls (ps : List Text) : delim.Outcome ps.flatten
      (delim.calls behind ⟨.new, last⟩ [] ps) ↔ delim.Short ∨ ¬ delim.text <:+: ps.flatten :=
    Delimiter.outcome_calls_iff hopen hnil ps
  constructor
  · intro hall
    have hend := (hcalls _).mp (hall pieces.length)
    rw [List.take_length] at hend
    exact hend
  · rintro hcondition k
    refine (hcalls _).mpr (hcondition.imp_right fun hnone hfound => hnone (hfound.trans ?_))
    refine ⟨[], (pieces.drop k).flatten, ?_⟩
    rw [List.nil_append, ← List.flatten_append, List.take_append_drop]

/-- A long delimiter that is all of the stream stays in the segment. -/
theorem not_outcome_of_long {d : Text} (hlong : 2 ^ 31 ≤ d.length) : ∃ (delim : Delimiter)
    (pieces : List Text) (k : Nat), delim.text = d ∧
      ¬ delim.Outcome (pieces.take k).flatten
        (delim.calls [] ⟨.new, 0⟩ [] (pieces.take k)) := by
  have hd : d ≠ [] := List.ne_nil_of_length_pos (Nat.lt_of_lt_of_le (Nat.two_pow_pos 31) hlong)
  have hopen : (⟨.new, 0⟩ : CountedSegment).Open [] := ⟨rfl, rfl, rfl⟩
  have hnil : ¬ (Delimiter.string d hd).text <:+: [] := fun h => hd (List.infix_nil.mp h)
  refine ⟨.string d hd, [d], 1, rfl, fun houtcome => ?_⟩
  rcases (Delimiter.outcome_calls_iff hopen hnil [d]).mp houtcome with hshort | hnone
  · have hshort : d.length < 2 ^ 31 := hshort
    omega
  · exact hnone ⟨[], [], by simp [Delimiter.text]⟩

/-- A delimiter of 2^32 zeros is not removed. -/
theorem long_delimiter_stays : ¬ ∀ (delim : Delimiter) (behind : Text) (last : Nat)
    (pieces : List Text) (k : Nat), delim.Outcome (pieces.take k).flatten
      (delim.calls behind ⟨.new, last⟩ [] (pieces.take k)) := by
  have hlength : 2 ^ 31 ≤ (List.replicate (2 ^ 32) (0 : UInt8)).length := by
    rw [List.length_replicate]
    decide
  obtain ⟨delim, pieces, k, -, hnot⟩ := not_outcome_of_long hlength
  exact fun hall => hnot (hall delim [] 0 pieces k)

/-! ## The reads of the parsers -/

namespace CountedSegment

variable {seg : CountedSegment} {behind delim : Text}

theorem read_until_delim_loop_eq (hshort : delim.length < 2 ^ 31) (b : UInt8) (turns : Nat)
    (inp : Istream) : read_until_delim_loop behind delim b turns seg inp =
      .ok (read_until_loop delim b turns seg inp) := by
  induction turns generalizing seg inp with
  | zero => rfl
  | succ turns ih =>
    rw [read_until_delim_loop, read_until_loop]
    generalize inp.getline b = line
    obtain ⟨next, inp⟩ := line
    simp only
    split
    · split
      · rename_i hends
        have hle : delim.length ≤ (seg.committed ++ next ++ [b]).length :=
          (ends_with_iff.mp hends).length_le
        have hremoved : (⟨⟨true, seg.committed ++ next ++ [b], []⟩, next.length + 1⟩ :
            CountedSegment).uncommit behind delim.length = _ := uncommit_short hle hshort
        rw [hremoved]
        rfl
      · exact ih _
    · split <;> rfl

/-- The delimiters of the parsers are short, and removed. -/
theorem read_until_delim_eq (hshort : delim.length < 2 ^ 31) (inp : Istream) :
    seg.read_until_delim behind inp delim = .ok (seg.read_until_string inp delim) := by
  unfold read_until_delim read_until_string
  split
  · rfl
  · exact read_until_delim_loop_eq hshort _ _ _

end CountedSegment

end util.buffer
