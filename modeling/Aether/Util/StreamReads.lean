-- What the reads of `Istream.lean` come to, for a segment that is open: of a
-- line, of a number of bytes, and up to a character.
import Aether.Lib.Lines
import Aether.Util.Istream
import Mathlib.Data.List.TakeWhile

open proxy util.bytes util.string lib.lines

namespace util.buffer

@[simp] theorem Istream.good_new (w : Text) : (Istream.new w).good = true := rfl

theorem Istream.eq_new_of_good {inp : Istream} (h : inp.good = true) :
    inp = Istream.new inp.rdbuf := by
  obtain ⟨rdbuf, eofbit, failbit⟩ := inp
  simp only [good, Bool.and_eq_true, Bool.not_eq_true'] at h
  obtain ⟨rfl, rfl⟩ := h
  rfl

/-- A stream that has been read to its end. -/
structure Istream.Spent (inp : Istream) : Prop where
  empty : inp.rdbuf = []
  eof : inp.eofbit = true

/-! ## `std::getline` -/

theorem getline_found {delim : UInt8} {line : Text} (h : delim ∉ line) (rest : Text) :
    (Istream.new (line ++ delim :: rest)).getline delim = (line, Istream.new rest) := by
  have htake : (line ++ delim :: rest).takeWhile (fun c => c != delim) = line := by
    rw [List.takeWhile_append_of_pos]
    · simp
    · intro c hc
      simp only [bne_iff_ne]
      rintro rfl
      exact h hc
  unfold Istream.getline
  rw [if_pos (Istream.good_new _)]
  simp only [Istream.new, htake, List.drop_left]

theorem getline_missed {delim : UInt8} {w : Text} (h : delim ∉ w) :
    (Istream.new w).getline delim = (w, ⟨[], true, w == []⟩) := by
  have htake : w.takeWhile (fun c => c != delim) = w := by
    apply List.takeWhile_eq_self_iff.mpr
    intro c hc
    simp only [bne_iff_ne]
    rintro rfl
    exact h hc
  unfold Istream.getline
  rw [if_pos (Istream.good_new _)]
  simp only [Istream.new, htake, List.drop_length]

/-! ## `std::istream::read` -/

theorem Istream.read_enough {w : Text} {n : Nat} (hn : n < 2 ^ 63) (h : n ≤ w.length) :
    (Istream.new w).read n = (w.take n, Istream.new (w.drop n)) := by
  have hlen : ((w.take n).length != n) = false := by
    rw [List.length_take, Nat.min_eq_left h]
    exact bne_self_eq_false n
  unfold read
  rw [if_pos (good_new _)]
  simp only [new, if_pos hn, hlen]

theorem Istream.read_short {w : Text} {n : Nat} (hn : n < 2 ^ 63) (h : w.length < n) :
    (Istream.new w).read n = (w, ⟨[], true, true⟩) := by
  have htake : w.take n = w := List.take_of_length_le (by omega)
  have hdrop : w.drop n = [] := List.drop_of_length_le (by omega)
  have hlen : (w.length != n) = true := by
    rw [bne_iff_ne]
    omega
  unfold read
  rw [if_pos (good_new _)]
  simp only [new, if_pos hn, htake, hdrop, hlen]

namespace CountedSegment

/-- A segment between two reads, with what it has committed and what it has not. -/
structure Gathers (seg : CountedSegment) (c u : Text) : Prop where
  open_ : seg.is_complete_ = false
  held : seg.committed = c
  loose : seg.uncommitted = u

abbrev Open (seg : CountedSegment) (c : Text) : Prop := seg.Gathers c []

/-- A segment that a read has completed. -/
structure Full (seg : CountedSegment) (c : Text) : Prop where
  full : seg.is_complete_ = true
  held : seg.committed = c
  bare : seg.uncommitted = []

theorem open_new : new.Open [] := ⟨rfl, rfl, rfl⟩

theorem Full.mark_as_incomplete {seg : CountedSegment} {c : Text} (h : seg.Full c) :
    seg.mark_as_incomplete.Open c :=
  ⟨rfl, h.held, h.bare⟩

theorem reset_open {seg : CountedSegment} (h : seg.committed.length < 2 ^ 31) :
    ∃ s, seg.reset = .ok s ∧ s.Open [] := by
  refine ⟨⟨.new, seg.num_bytes_read_last_⟩, ?_, rfl, rfl, rfl⟩
  unfold reset
  rw [if_pos h]

theorem reset_long {seg : CountedSegment} (h : ¬ seg.committed.length < 2 ^ 31) :
    seg.reset = .error .undefined := by
  unfold reset
  rw [if_neg h]

/-! ## A line -/

section

variable {a b : UInt8}

theorem ends_with_pair (seg : CountedSegment) :
    seg.ends_with [a, b] = true ↔ ∃ c, seg.committed = c ++ [a, b] := by
  simp only [ends_with, List.length_cons, List.length_nil, Nat.zero_add, Nat.reduceAdd,
    Bool.and_eq_true, decide_eq_true_eq, beq_iff_eq]
  constructor
  · rintro ⟨-, hdrop⟩
    exact ⟨_, by rw [← hdrop, List.take_append_drop]⟩
  · rintro ⟨c, hc⟩
    rw [hc]
    refine ⟨by simp, ?_⟩
    simp

/-- The segment after the loop took `next` and the last character of the delimiter. -/
def taken (seg : CountedSegment) (b : UInt8) (next : Text) : CountedSegment :=
  ⟨⟨seg.is_complete_, seg.committed ++ next ++ [b], []⟩, next.length + 1⟩

theorem read_until_loop_found {seg : CountedSegment} {next : Text} (h : b ∉ next) (turns : Nat)
    (rest : Text) :
    read_until_loop [a, b] b (turns + 1) seg (Istream.new (next ++ b :: rest)) =
      if (seg.taken b next).ends_with [a, b] then
        ({ seg.taken b next with
          is_complete_ := true
          committed := (seg.taken b next).committed.take
            ((seg.taken b next).committed.length - 2) }, Istream.new rest)
      else read_until_loop [a, b] b turns (seg.taken b next) (Istream.new rest) := by
  rw [read_until_loop, getline_found h]
  rfl

theorem read_until_loop_missed {seg : CountedSegment} {c w : Text} (ho : seg.Open c) (h : b ∉ w)
    (turns : Nat) : ∃ (s : CountedSegment) (inp : Istream), s.Open (c ++ w) ∧ inp.Spent ∧
      read_until_loop [a, b] b (turns + 1) seg (Istream.new w) = (s, inp) := by
  rw [read_until_loop, getline_missed h]
  cases w with
  | nil => exact ⟨seg, ⟨[], true, true⟩, by simpa using ho, ⟨rfl, rfl⟩, rfl⟩
  | cons x w =>
    refine ⟨⟨⟨seg.is_complete_, seg.committed ++ (x :: w), []⟩, (x :: w).length⟩, ⟨[], true, false⟩,
      ⟨ho.open_, ?_, rfl⟩, ⟨rfl, rfl⟩, rfl⟩
    simp only [ho.held]

/-- The loop over what a segment holds and a stream has, with no line in what it holds. -/
theorem read_until_loop_spec {turns : Nat} {seg : CountedSegment} {c w : Text} (ho : seg.Open c)
    (hc : cut a b c = none) (hturns : w.length < turns) :
    (∀ line rest, cut a b (c ++ w) = some (line, rest) → ∃ s : CountedSegment, s.Full line ∧
      read_until_loop [a, b] b turns seg (Istream.new w) = (s, Istream.new rest)) ∧
    (cut a b (c ++ w) = none → ∃ (s : CountedSegment) (inp : Istream), s.Open (c ++ w) ∧
      inp.Spent ∧ read_until_loop [a, b] b turns seg (Istream.new w) = (s, inp)) := by
  induction turns generalizing seg c w with
  | zero => omega
  | succ turns ih =>
    by_cases hb : b ∈ w
    · obtain ⟨next, rest, rfl, hnext⟩ := List.eq_append_cons_of_mem hb
      have hnone : cut a b (c ++ next) = none := cut_append_none hc hnext
      have hheld : (seg.taken b next).committed = c ++ next ++ [b] := by rw [taken, ho.held]
      rw [read_until_loop_found hnext]
      by_cases hend : (seg.taken b next).ends_with [a, b] = true
      · -- The line is all that came before the delimiter.
        obtain ⟨line, hline⟩ := (ends_with_pair _).mp hend
        rw [hheld] at hline
        have hlast : c ++ next = line ++ [a] := by
          have hpair : (c ++ next) ++ [b] = (line ++ [a]) ++ [b] := by simpa using hline
          exact List.append_cancel_right hpair
        have hcut : cut a b (c ++ (next ++ b :: rest)) = some (line, rest) := by
          rw [← List.append_assoc, hlast, List.append_assoc]
          exact cut_line (hlast ▸ hnone) rest
        rw [if_pos hend, hcut]
        refine ⟨?_, fun h => by cases h⟩
        rintro line' rest' heq
        obtain ⟨rfl, rfl⟩ := Prod.mk.inj (Option.some.inj heq)
        refine ⟨_, ⟨rfl, ?_, rfl⟩, rfl⟩
        simp only [hheld, hlast]
        simp
      · rw [if_neg hend]
        have hlast : (c ++ next).getLast? ≠ some a := by
          intro hlast
          obtain ⟨line, hline⟩ := List.getLast?_eq_some_iff.mp hlast
          apply hend
          refine (ends_with_pair _).mpr ⟨line, ?_⟩
          rw [hheld, hline]
          simp
        have hopen : (seg.taken b next).Open (c ++ next ++ [b]) := ⟨ho.open_, hheld, rfl⟩
        have hnone' : cut a b (c ++ next ++ [b]) = none := cut_snoc_none hnone (fun _ => hlast)
        have hlen : rest.length < turns := by
          simp only [List.length_append, List.length_cons] at hturns
          omega
        have hrest := ih hopen hnone' hlen
        have hall : c ++ next ++ [b] ++ rest = c ++ (next ++ b :: rest) := by simp
        rwa [hall] at hrest
    · have hnone : cut a b (c ++ w) = none := cut_append_none hc hb
      rw [hnone]
      exact ⟨fun line rest h => (by cases h), fun _ => read_until_loop_missed ho hb turns⟩

/-- A line that is there completes the segment, and nothing behind it is taken. -/
theorem read_line {seg : CountedSegment} {c w line rest : Text} (ho : seg.Open c)
    (hc : cut a b c = none) (h : cut a b (c ++ w) = some (line, rest)) :
    ∃ s : CountedSegment, s.Full line ∧
      seg.read_until_string (Istream.new w) [a, b] = (s, Istream.new rest) := by
  unfold read_until_string
  rw [if_neg (by rw [ho.open_]; decide)]
  exact (read_until_loop_spec ho hc (Nat.lt_succ_self _)).1 line rest h

/-- Else the segment takes all of the stream. -/
theorem read_no_line {seg : CountedSegment} {c w : Text} (ho : seg.Open c)
    (h : cut a b (c ++ w) = none) :
    ∃ (s : CountedSegment) (inp : Istream), s.Open (c ++ w) ∧ inp.Spent ∧
      seg.read_until_string (Istream.new w) [a, b] = (s, inp) := by
  unfold read_until_string
  rw [if_neg (by rw [ho.open_]; decide)]
  exact (read_until_loop_spec ho (cut_none_of_append h) (Nat.lt_succ_self _)).2 h

end

/-! ## A number of bytes -/

/-- What a segment that has committed `c` has after it commits `data`. -/
def committed_with (c data : Text) : Except Error Text :=
  if toInt data.length < 0 then .error .undefined
  else .ok (c ++ data.take (toInt data.length).toNat)

theorem committed_with_of_lt {data : Text} (c : Text) (h : data.length < 2 ^ 31) :
    committed_with c data = .ok (c ++ data) := by
  have hint := toInt_of_lt h
  unfold committed_with
  rw [hint, if_neg (by omega)]
  simp

/-- A commit never makes more of the data, and from 2^31 bytes on it makes less. -/
theorem length_of_committed_with {c data k : Text} (h : committed_with c data = .ok k) :
    k.length ≤ c.length + data.length ∧
      (data.length < 2 ^ 31 ∨ k.length < c.length + data.length) := by
  unfold committed_with at h
  split at h
  · cases h
  · obtain rfl := Except.ok.inj h
    have hint := (toInt_isInt data.length).2
    rw [List.length_append, List.length_take]
    omega

theorem commit_buffer_eq (c data : Text) (last : Nat) :
    (⟨⟨true, c, data⟩, last⟩ : CountedSegment).commit_buffer =
      (committed_with c data).map (fun k => ⟨⟨true, k, []⟩, last⟩) := by
  simp only [commit_buffer, BufferSegment.commit_buffer, committed_with]
  split <;> rfl

theorem read_nothing {seg : CountedSegment} {c : Text} (ho : seg.Open c) (w : Text) :
    ∃ s : CountedSegment, s.Full c ∧
      seg.read_up_to_bytes (Istream.new w) 0 = .ok (s, Istream.new w) := by
  refine ⟨{ seg with is_complete_ := true }, ⟨rfl, ho.held, ho.loose⟩, ?_⟩
  unfold read_up_to_bytes
  rw [if_neg (by rw [ho.open_]; decide), if_pos rfl]

section

variable {seg : CountedSegment} {c u : Text} (ho : seg.Gathers c u) {n : Nat} {w : Text}

include ho

/-- A sequence that is too long for a vector. -/
theorem read_too_many (hn : 0 < n) (hlong : 2 ^ 63 ≤ c.length + n) :
    seg.read_up_to_bytes (Istream.new w) n = .error .terminated := by
  unfold read_up_to_bytes
  rw [if_neg (by rw [ho.open_]; decide), if_neg (by omega), if_pos (by rw [ho.held]; exact hlong)]

variable (hn : u.length < n) (hfit : c.length + n < 2 ^ 63)

include hn hfit

/-- Enough bytes are all taken, and the segment commits them. -/
theorem read_bytes (h : n ≤ (u ++ w).length) : ∃ last,
    seg.read_up_to_bytes (Istream.new w) n =
      (committed_with c ((u ++ w).take n)).map
        (fun k => (⟨⟨true, k, []⟩, last⟩, Istream.new ((u ++ w).drop n))) := by
  rw [List.length_append] at h
  have hsub : size_sub n seg.uncommitted.length = n - u.length := by
    rw [ho.loose, size_sub_of_le (by omega) (by omega)]
  have hread : (Istream.new w).read (n - u.length) =
      (w.take (n - u.length), Istream.new (w.drop (n - u.length))) :=
    Istream.read_enough (by omega) (by omega)
  have htake : (u ++ w).take n = u ++ w.take (n - u.length) := by
    rw [List.take_append, List.take_of_length_le (by omega)]
  have hdrop : (u ++ w).drop n = w.drop (n - u.length) := by
    rw [List.drop_append, List.drop_of_length_le (by omega), List.nil_append]
  refine ⟨(w.take (n - u.length)).length, ?_⟩
  unfold read_up_to_bytes
  rw [if_neg (by rw [ho.open_]; decide), if_neg (by omega), if_neg (by rw [ho.held]; omega), hsub,
    hread, ho.held, ho.loose, htake, hdrop]
  have hgood : ((Istream.new (w.drop (n - u.length))).ok &&
      !(Istream.new (w.drop (n - u.length))).eofbit) = true := rfl
  simp only [hgood, if_true, commit_buffer_eq]
  cases committed_with c (u ++ w.take (n - u.length)) <;> rfl

/-- Else the segment takes all of the stream. -/
theorem read_few_bytes (h : (u ++ w).length < n) :
    ∃ (s : CountedSegment) (inp : Istream), s.Gathers c (u ++ w) ∧ inp.Spent ∧
      seg.read_up_to_bytes (Istream.new w) n = .ok (s, inp) := by
  rw [List.length_append] at h
  have hsub : size_sub n seg.uncommitted.length = n - u.length := by
    rw [ho.loose, size_sub_of_le (by omega) (by omega)]
  have hread : (Istream.new w).read (n - u.length) = (w, ⟨[], true, true⟩) :=
    Istream.read_short (by omega) (by omega)
  refine ⟨⟨⟨false, c, u ++ w⟩, w.length⟩, ⟨[], true, true⟩, ⟨rfl, rfl, rfl⟩, ⟨rfl, rfl⟩, ?_⟩
  unfold read_up_to_bytes
  rw [if_neg (by rw [ho.open_]; decide), if_neg (by omega), if_neg (by rw [ho.held]; omega), hsub,
    hread, ho.held, ho.loose]
  rfl

end

/-! ## What a read of any stream leaves -/

theorem length_of_read (inp : Istream) (n : Nat) : (inp.read n).1.length ≤ n := by
  unfold Istream.read
  split
  · simp only [List.length_take]
    split <;> omega
  · exact Nat.zero_le _

/-- A read keeps to what it was asked for. -/
theorem read_up_to_bytes_bounds {seg s : CountedSegment} {inp out : Istream} {n : Nat}
    (hopen : seg.is_complete_ = false) (hn : seg.uncommitted.length ≤ n)
    (h : seg.read_up_to_bytes inp n = .ok (s, out)) :
    (s.is_complete_ = false → s.committed = seg.committed ∧ s.uncommitted.length ≤ n) ∧
      (s.is_complete_ = true → s.uncommitted = [] ∧
        s.committed.length ≤ seg.committed.length + n) := by
  unfold read_up_to_bytes at h
  rw [if_neg (by rw [hopen]; decide)] at h
  split at h
  · rename_i hzero
    obtain ⟨rfl, -⟩ := Prod.mk.inj (Except.ok.inj h)
    have hnil : seg.uncommitted = [] := List.eq_nil_of_length_eq_zero (by omega)
    exact ⟨fun hc => (by cases hc), fun _ => ⟨hnil, Nat.le_add_right _ _⟩⟩
  · split at h
    · cases h
    · rename_i hfit
      have hsub : size_sub n seg.uncommitted.length = n - seg.uncommitted.length :=
        size_sub_of_le hn (by omega)
      have htaken := length_of_read inp (n - seg.uncommitted.length)
      rw [hsub] at h
      generalize inp.read (n - seg.uncommitted.length) = result at h htaken
      obtain ⟨taken, inp'⟩ := result
      have hlen : (seg.uncommitted ++ taken).length ≤ n := by
        simp only [List.length_append] at htaken ⊢
        omega
      by_cases hok : (inp'.ok && !inp'.eofbit) = true
      · simp only [hok, if_true, commit_buffer_eq] at h
        cases hk : committed_with seg.committed (seg.uncommitted ++ taken) with
        | error e =>
          rw [hk] at h
          cases h
        | ok k =>
          rw [hk] at h
          obtain ⟨rfl, -⟩ := Prod.mk.inj (Except.ok.inj h)
          have hle := (length_of_committed_with hk).1
          exact ⟨fun hc => (by cases hc), fun _ => ⟨rfl, by simp only; omega⟩⟩
      · rw [Bool.not_eq_true] at hok
        simp only [hok, Bool.false_eq_true, if_false] at h
        obtain ⟨rfl, -⟩ := Prod.mk.inj (Except.ok.inj h)
        exact ⟨fun _ => ⟨rfl, hlen⟩, fun hc => (by cases hc)⟩

theorem read_up_to_bytes_full {seg : CountedSegment} (h : seg.is_complete_ = true) (inp : Istream)
    (n : Nat) : seg.read_up_to_bytes inp n = .ok (seg, inp) := by
  unfold read_up_to_bytes
  rw [if_pos h]

/-- A read to the end of a stream takes no more than there is, and commits it. -/
theorem read_all_bounds {seg : CountedSegment} (hbare : seg.uncommitted = []) (inp : Istream) :
    (seg.read_all inp).1.committed.length + (seg.read_all inp).2.rdbuf.length ≤
        seg.committed.length + inp.rdbuf.length ∧
      (seg.read_all inp).1.uncommitted = [] := by
  unfold read_all
  split
  · exact ⟨Nat.le_refl _, hbare⟩
  · have hcopied : (inp.characters).1.length + (inp.characters).2.rdbuf.length ≤
        inp.rdbuf.length := by
      unfold Istream.characters
      split
      · exact List.length_filter_le _ _
      · exact Nat.le_of_eq (Nat.zero_add _)
    refine ⟨?_, rfl⟩
    simp only [List.length_append]
    omega

/-! ## A read that completes leaves a good stream -/

theorem good_of_loop {delim : Text} {final_delim : UInt8} {turns : Nat} {seg : CountedSegment}
    {inp : Istream} (hopen : seg.is_complete_ = false)
    (hfull : (read_until_loop delim final_delim turns seg inp).1.is_complete_ = true) :
    (read_until_loop delim final_delim turns seg inp).2.good = true := by
  induction turns generalizing seg inp with
  | zero =>
    simp only [read_until_loop, hopen] at hfull
    cases hfull
  | succ turns ih =>
    rw [read_until_loop] at hfull ⊢
    generalize inp.getline final_delim = result at hfull ⊢
    obtain ⟨next, inp'⟩ := result
    simp only at hfull ⊢
    by_cases hok : (inp'.ok && !inp'.eofbit) = true
    · rw [if_pos hok] at hfull ⊢
      split
      · simp only [Istream.ok, Bool.and_eq_true] at hok
        simp only [Istream.good, Bool.and_eq_true]
        exact hok.symm
      · rename_i hend
        rw [if_neg hend] at hfull
        exact ih hopen hfull
    · rw [if_neg hok] at hfull ⊢
      split at hfull <;> simp [hopen] at hfull

theorem good_of_read_until_string {seg : CountedSegment} {inp : Istream} {delim : Text}
    (hgood : inp.good = true) (hfull : (seg.read_until_string inp delim).1.is_complete_ = true) :
    (seg.read_until_string inp delim).2.good = true := by
  unfold read_until_string at hfull ⊢
  cases hc : seg.is_complete_ with
  | true => simpa [hc] using hgood
  | false =>
    simp only [hc, Bool.false_eq_true, if_false] at hfull ⊢
    exact good_of_loop hc hfull

theorem good_of_read_up_to_bytes {seg s : CountedSegment} {inp out : Istream} {n : Nat}
    (hgood : inp.good = true) (h : seg.read_up_to_bytes inp n = .ok (s, out))
    (hfull : s.is_complete_ = true) : out.good = true := by
  unfold read_up_to_bytes at h
  split at h
  · obtain ⟨-, rfl⟩ := Prod.mk.inj (Except.ok.inj h)
    exact hgood
  · split at h
    · obtain ⟨-, rfl⟩ := Prod.mk.inj (Except.ok.inj h)
      exact hgood
    · split at h
      · cases h
      · generalize inp.read (size_sub n seg.uncommitted.length) = result at h
        obtain ⟨taken, inp'⟩ := result
        by_cases hok : (inp'.ok && !inp'.eofbit) = true
        · simp only [hok, if_true, commit_buffer_eq] at h
          have hout : out = inp' := by
            cases hk : committed_with seg.committed (seg.uncommitted ++ taken) with
            | error e =>
              rw [hk] at h
              cases h
            | ok k =>
              rw [hk] at h
              exact (Prod.mk.inj (Except.ok.inj h)).2.symm
          rw [hout]
          simp only [Istream.ok, Bool.and_eq_true] at hok
          simp only [Istream.good, Bool.and_eq_true]
          exact hok.symm
        · rw [Bool.not_eq_true] at hok
          simp only [hok, Bool.false_eq_true, if_false] at h
          obtain ⟨rfl, -⟩ := Prod.mk.inj (Except.ok.inj h)
          cases hfull

end CountedSegment

end util.buffer
