-- How a chunked body is read, without the segments: the bytes that wait for more,
-- the phase of the chunk, and the body so far. The loop of `read_body` does what
-- this reader does.
import Aether.Http.BodyCalls
import Aether.Lib.Resumable
import Aether.Util.StreamReads

open util.string util.buffer lib.lines lib.resumable

namespace proxy.http.http1

/-- What of a chunk comes next. -/
inductive Phase where
  | header
  | data (size : Nat)
  | suffix (size : Nat)
  deriving DecidableEq, Repr

/-- Whether a phase may end without any input, as the data of an empty chunk does. -/
def Phase.weight : Phase → Nat
  | header => 0
  | data _ => 1
  | suffix _ => 0

/-- `read` is the sum of the sizes of the chunks so far, as the code keeps it. -/
structure ChunkReader where
  phase : Phase
  pending : Text
  body : Text
  read : Nat
  deriving DecidableEq, Repr

/-- How the reader stops. -/
inductive Halt where
  | done
  | failed (e : Error)
  deriving DecidableEq, Repr

namespace ChunkReader

def new : ChunkReader := ⟨.header, [], [], 0⟩

/-- The size that a header line gives a chunk behind `body`. -/
def chunk_size (limit read : Nat) (body line : Text) : Except Error Nat :=
  match parse_hexadecimal line with
  | none => .error (default_error .invalid_chunked_body)
  | some size =>
    if ¬ line.length < 2 ^ 31 then .error .undefined
    else if limit < size_add read size then .error (default_error .body_size_too_large)
    else if size ≠ 0 ∧ 2 ^ 63 ≤ body.length + size then .error .terminated
    else .ok size

/-- The state that waits for the next phase, and the input behind what the last one took. -/
def item (s : ChunkReader) (rest : Text) : Call ChunkReader UInt8 Halt Unit := ⟨s, rest, .item ()⟩

/-- A phase, over all that has arrived for it. -/
def advance (limit : Nat) (phase : Phase) (body : Text) (read : Nat) (w : Text) :
    Call ChunkReader UInt8 Halt Unit :=
  match phase with
  | .header =>
    match cut 13 10 w with
    | none => ⟨⟨phase, w, body, read⟩, [], .more⟩
    | some (line, rest) =>
      match chunk_size limit read body line with
      | .error e => ⟨⟨phase, [], body, read⟩, rest, .halt (.failed e)⟩
      | .ok size => item ⟨.data size, [], body, read⟩ rest
  | .data size =>
    if w.length < size then ⟨⟨phase, w, body, read⟩, [], .more⟩
    else
      match CountedSegment.committed_with body (w.take size) with
      | .error e => ⟨⟨phase, [], body, read⟩, w.drop size, .halt (.failed e)⟩
      | .ok body => item ⟨.suffix size, [], body, read⟩ (w.drop size)
  | .suffix size =>
    match cut 13 10 w with
    | none => ⟨⟨phase, w, body, read⟩, [], .more⟩
    | some (line, rest) =>
      if line ≠ [] then
        ⟨⟨phase, [], body, read⟩, rest, .halt (.failed (default_error .invalid_chunked_body))⟩
      else if size = 0 then ⟨⟨phase, [], body, read⟩, rest, .halt .done⟩
      else item ⟨.header, [], body, size_add read size⟩ rest

def next (limit : Nat) (s : ChunkReader) (a : Text) : Call ChunkReader UInt8 Halt Unit :=
  advance limit s.phase s.body s.read (s.pending ++ a)

def measure (s : ChunkReader) : Nat := s.pending.length + s.phase.weight

section

variable {limit : Nat} {phase : Phase} {body : Text} {read : Nat} {w : Text}

/-- A phase that waits has all of its input in the state. -/
theorem wait_of_advance (h : (advance limit phase body read w).outcome = .more) :
    advance limit phase body read w = ⟨⟨phase, w, body, read⟩, [], .more⟩ := by
  revert h
  unfold advance
  cases phase with
  | header =>
    simp only
    cases cut 13 10 w with
    | none => exact fun _ => rfl
    | some p =>
      simp only
      split <;> exact fun h => by cases h
  | data size =>
    simp only
    split
    · exact fun _ => rfl
    · split <;> exact fun h => by cases h
  | suffix size =>
    simp only
    cases cut 13 10 w with
    | none => exact fun _ => rfl
    | some p =>
      simp only
      split
      · exact fun h => by cases h
      · split <;> exact fun h => by cases h

/-- A phase that ends leaves the input behind it as it is. -/
theorem advance_append (h : (advance limit phase body read w).outcome ≠ .more) (b : Text) :
    advance limit phase body read (w ++ b) = (advance limit phase body read w).pad b := by
  revert h
  unfold advance
  cases phase with
  | header =>
    simp only
    cases hcut : cut 13 10 w with
    | none => exact fun h => absurd rfl h
    | some p =>
      rw [cut_append hcut]
      simp only
      split <;> exact fun _ => rfl
  | data size =>
    simp only
    split
    · exact fun h => absurd rfl h
    · rename_i hlen
      have hle : size ≤ w.length := Nat.le_of_not_lt hlen
      have hmore : ¬ (w ++ b).length < size := by
        rw [List.length_append]
        omega
      rw [if_neg hmore, List.take_append_of_le_length hle, List.drop_append_of_le_length hle]
      split <;> exact fun _ => rfl
  | suffix size =>
    simp only
    cases hcut : cut 13 10 w with
    | none => exact fun h => absurd rfl h
    | some p =>
      rw [cut_append hcut]
      simp only
      split
      · exact fun _ => rfl
      · split <;> exact fun _ => rfl

/-- A phase that ends takes the end of a line, or the data of a chunk. -/
theorem advance_takes {b : Unit} (h : (advance limit phase body read w).outcome = .item b) :
    (advance limit phase body read w).rest.length +
      measure (advance limit phase body read w).state < w.length + phase.weight := by
  revert h
  unfold advance
  cases phase with
  | header =>
    simp only
    cases hcut : cut 13 10 w with
    | none => exact fun h => by cases h
    | some p =>
      have hw := congrArg List.length (eq_of_cut hcut)
      simp only [List.length_append, List.length_cons] at hw
      simp only
      split
      · exact fun h => by cases h
      · simp only [item, measure, Phase.weight, List.length_nil]
        omega
  | data size =>
    simp only
    split
    · exact fun h => by cases h
    · split
      · exact fun h => by cases h
      · simp only [item, measure, Phase.weight, List.length_nil, List.length_drop]
        omega
  | suffix size =>
    simp only
    cases hcut : cut 13 10 w with
    | none => exact fun h => by cases h
    | some p =>
      have hw := congrArg List.length (eq_of_cut hcut)
      simp only [List.length_append, List.length_cons] at hw
      simp only
      split
      · exact fun h => by cases h
      · split
        · exact fun h => by cases h
        · simp only [item, measure, Phase.weight, List.length_nil]
          omega

end

theorem resumable (limit : Nat) : Resumable (next limit) (fun _ => True) measure where
  keeps_more _ _ := trivial
  keeps_item _ _ := trivial
  takes {s a b} _ h := by
    have ht := advance_takes h
    have hm : measure s = s.pending.length + s.phase.weight := rfl
    rw [List.length_append] at ht
    unfold next
    omega
  all_taken {s a} _ h := by
    unfold next at h ⊢
    rw [wait_of_advance h]
  resumed {s a} _ h b := by
    unfold next at h ⊢
    rw [wait_of_advance h, ← List.append_assoc]
  left {s a} _ h b := by
    unfold next at h ⊢
    rw [← List.append_assoc]
    exact advance_append h b

/-- The data of the last chunk takes nothing. -/
theorem next_empty (limit : Nat) (body : Text) (read : Nat) (a : Text) :
    next limit ⟨.data 0, [], body, read⟩ a = item ⟨.suffix 0, [], body, read⟩ a := by
  have hk := @CountedSegment.committed_with_of_lt [] body (by decide)
  rw [List.append_nil] at hk
  simp only [next, advance, List.nil_append, Nat.not_lt_zero, if_false, List.take_zero,
    List.drop_zero, hk]

end ChunkReader

/-! ## The loop over chunks -/

namespace BodyReader

/-- A reader in the middle of a chunked body. -/
structure Going (r : BodyReader) (mode : MessageMode) (read : Nat) : Prop where
  type : r.state_.type = .chunked
  mode : r.state_.mode = mode
  unfinished : r.state_.finished = false
  read : r.state_.read = read

/-- What the segments have in each phase. -/
inductive Reads (r : BodyReader) (mode : MessageMode) : ChunkReader → Prop where
  | header {w body : Text} {read : Nat} (going : r.Going mode read)
      (unknown : r.state_.next_chunk_size_known = false)
      (line : r.chunk_header_buf_.Open w) (no_line : cut 13 10 w = none)
      (suffix : r.chunk_suffix_buf_.Open []) (held : r.body_buf_.Open body) :
      r.Reads mode ⟨.header, w, body, read⟩
  | data {size : Nat} {w body : Text} {read : Nat} (going : r.Going mode read)
      (known : r.state_.next_chunk_size_known = true) (expected : r.state_.expected_size = size)
      (line : r.chunk_header_buf_.Open []) (suffix : r.chunk_suffix_buf_.Open [])
      (held : r.body_buf_.Gathers body w)
      (short : w.length < size ∧ body.length + size < 2 ^ 63 ∨ size = 0 ∧ w = []) :
      r.Reads mode ⟨.data size, w, body, read⟩
  | suffix {size : Nat} {w body : Text} {read : Nat} (going : r.Going mode read)
      (known : r.state_.next_chunk_size_known = true) (expected : r.state_.expected_size = size)
      (line : r.chunk_header_buf_.Open []) (suffix : r.chunk_suffix_buf_.Open w)
      (no_line : cut 13 10 w = none) (held : r.body_buf_.Full body) :
      r.Reads mode ⟨.suffix size, w, body, read⟩

theorem Reads.going {r : BodyReader} {mode : MessageMode} {s : ChunkReader} (h : r.Reads mode s) :
    r.Going mode s.read := by
  cases h with
  | header going => exact going
  | data going => exact going
  | suffix going => exact going

/-- A reader that has read the last chunk. -/
structure Finished (r : BodyReader) (body : Text) : Prop where
  finished : r.state_.finished = true
  line : r.chunk_header_buf_.Open []
  suffix : r.chunk_suffix_buf_.Open []
  held : r.body_buf_.Full body

/-- The result of a call is what a reader comes to that the segments stand for. -/
inductive Agrees (R : BodyReader → ChunkReader → Prop) : Except Error (BodyReader × Istream) →
    Drained ChunkReader UInt8 Halt Unit → Prop where
  | waiting {r : BodyReader} {inp : Istream} {s : ChunkReader} {rest : Text} {items : List Unit}
      (reads : R r s) (spent : inp.rdbuf = []) :
      Agrees R (.ok (r, inp)) ⟨s, rest, items, none⟩
  | done {r : BodyReader} {s : ChunkReader} {rest : Text} {items : List Unit}
      (finished : r.Finished s.body) :
      Agrees R (.ok (r, Istream.new rest)) ⟨s, rest, items, some .done⟩
  | failed {e : Error} {s : ChunkReader} {rest : Text} {items : List Unit} :
      Agrees R (.error e) ⟨s, rest, items, some (.failed e)⟩

theorem Agrees.after {R : BodyReader → ChunkReader → Prop}
    {result : Except Error (BodyReader × Istream)} {d : Drained ChunkReader UInt8 Halt Unit}
    (h : Agrees R result d) (items : List Unit) : Agrees R result (d.after items) := by
  cases h with
  | waiting reads spent => exact .waiting reads spent
  | done finished => exact .done finished
  | failed => exact .failed

/-- What the loop makes of a turn. -/
def after_turn (limit turns : Nat) :
    Turn × BodyReader × Istream → Except Error (BodyReader × Istream)
  | (.next, r, inp) => read_chunks limit turns r inp
  | (.stop, r, inp) => .ok (r, inp)

theorem read_chunks_succ (limit turns : Nat) (r : BodyReader) (inp : Istream) :
    read_chunks limit (turns + 1) r inp = read_chunk limit r inp >>= after_turn limit turns := by
  rw [read_chunks]
  congr 1

section

variable {limit turns : Nat} {mode : MessageMode}
  (ih : ∀ {r : BodyReader} {s : ChunkReader} {a : Text}, r.Reads mode s → a.length < turns →
    Agrees (Reads · mode) (read_chunks limit turns r (Istream.new a))
      (drainAll (ChunkReader.next limit) ChunkReader.measure s a))

include ih

theorem suffix_agrees {r : BodyReader} {size : Nat} {w body : Text} {read : Nat}
    (h : r.Reads mode ⟨.suffix size, w, body, read⟩) {a : Text} (ha : a.length ≤ turns) :
    Agrees (Reads · mode) (r.read_chunk_suffix (Istream.new a) >>= after_turn limit turns)
      (drainAll (ChunkReader.next limit) ChunkReader.measure ⟨.suffix size, w, body, read⟩ a) := by
  obtain ⟨⟩ | ⟨⟩ | ⟨going, known, expected, line, suffix, no_line, held⟩ := h
  unfold read_chunk_suffix
  cases hcut : cut 13 10 (w ++ a) with
  | none =>
    obtain ⟨seg, inp, hseg, hinp, hread⟩ := CountedSegment.read_no_line suffix hcut
    have hnext : ChunkReader.next limit ⟨.suffix size, w, body, read⟩ a =
        ⟨⟨.suffix size, w ++ a, body, read⟩, [], .more⟩ := by
      simp only [ChunkReader.next, ChunkReader.advance, hcut]
    rw [Message.CRLF, hread, drainAll_more (by rw [hnext]), hnext]
    simp only [hseg.open_, Bool.not_false, if_true]
    exact .waiting (.suffix ⟨going.type, going.mode, going.unfinished, going.read⟩ known expected
      line hseg hcut held) hinp.empty
  | some p =>
    obtain ⟨l, rest⟩ := p
    obtain ⟨seg, hseg, hread⟩ := CountedSegment.read_line suffix no_line hcut
    have hrest : rest.length < turns :=
      Nat.lt_of_lt_of_le (length_of_cut_append no_line hcut) ha
    rw [Message.CRLF, hread]
    simp only [hseg.full, Bool.not_true, Bool.false_eq_true, if_false, CountedSegment.string_view,
      hseg.held, expected]
    by_cases hl : l = []
    · subst hl
      obtain ⟨seg', hreset, hopen⟩ := @CountedSegment.reset_open seg (by simp [hseg.held])
      rw [if_neg (by simp), hreset]
      by_cases hsize : size = 0
      · have hnext : ChunkReader.next limit ⟨.suffix size, w, body, read⟩ a =
            ⟨⟨.suffix size, [], body, read⟩, rest, .halt .done⟩ := by
          simp only [ChunkReader.next, ChunkReader.advance, hcut, hsize, ne_eq, not_true, if_true,
            if_false]
        rw [drainAll_halt (by rw [hnext]), hnext]
        simp only [bind, Except.bind, hsize, if_true]
        exact .done ⟨rfl, line, hopen, held⟩
      · have hnext : ChunkReader.next limit ⟨.suffix size, w, body, read⟩ a =
            ChunkReader.item ⟨.header, [], body, size_add read size⟩ rest := by
          simp only [ChunkReader.next, ChunkReader.advance, hcut, hsize, ne_eq, not_true, if_false]
        rw [drainAll_item (ChunkReader.resumable limit) trivial (b := ()) (by rw [hnext]; rfl),
          hnext]
        simp only [bind, Except.bind, hsize, if_false]
        apply Agrees.after
        refine ih (.header ⟨going.type, going.mode, going.unfinished, ?_⟩ rfl line rfl hopen
          held.mark_as_incomplete) hrest
        simp only [going.read]
    · have hnext : ChunkReader.next limit ⟨.suffix size, w, body, read⟩ a =
          ⟨⟨.suffix size, [], body, read⟩, rest,
            .halt (.failed (default_error .invalid_chunked_body))⟩ := by
        simp only [ChunkReader.next, ChunkReader.advance, hcut, hl, ne_eq, not_false_eq_true,
          if_true]
      rw [if_pos hl, drainAll_halt (by rw [hnext]), hnext]
      exact .failed

theorem data_agrees {r : BodyReader} {size : Nat} {w body : Text} {read : Nat}
    (h : r.Reads mode ⟨.data size, w, body, read⟩) {a : Text} (ha : a.length ≤ turns) :
    Agrees (Reads · mode) (r.read_chunk_data (Istream.new a) >>= after_turn limit turns)
      (drainAll (ChunkReader.next limit) ChunkReader.measure ⟨.data size, w, body, read⟩ a) := by
  obtain ⟨⟩ | ⟨going, known, expected, line, suffix, held, short⟩ | ⟨⟩ := h
  unfold read_chunk_data
  rw [expected]
  rcases short with ⟨hw, hfit⟩ | ⟨rfl, rfl⟩
  · by_cases hlen : (w ++ a).length < size
    · obtain ⟨seg, inp, hseg, hinp, hread⟩ := CountedSegment.read_few_bytes held hw hfit hlen
      have hnext : ChunkReader.next limit ⟨.data size, w, body, read⟩ a =
          ⟨⟨.data size, w ++ a, body, read⟩, [], .more⟩ := by
        simp only [ChunkReader.next, ChunkReader.advance, if_pos hlen]
      rw [hread, drainAll_more (by rw [hnext]), hnext]
      simp only [bind, Except.bind, hseg.open_, Bool.not_false, if_true]
      exact .waiting (.data ⟨going.type, going.mode, going.unfinished, going.read⟩ known expected
        line suffix hseg (.inl ⟨hlen, hfit⟩)) hinp.empty
    · obtain ⟨last, hread⟩ := CountedSegment.read_bytes held hw hfit (Nat.le_of_not_lt hlen)
      rw [hread]
      cases hk : CountedSegment.committed_with body ((w ++ a).take size) with
      | error e =>
        have hnext : ChunkReader.next limit ⟨.data size, w, body, read⟩ a =
            ⟨⟨.data size, [], body, read⟩, (w ++ a).drop size, .halt (.failed e)⟩ := by
          simp only [ChunkReader.next, ChunkReader.advance, if_neg hlen, hk]
        rw [drainAll_halt (by rw [hnext]), hnext]
        exact .failed
      | ok k =>
        have hnext : ChunkReader.next limit ⟨.data size, w, body, read⟩ a =
            ChunkReader.item ⟨.suffix size, [], k, read⟩ ((w ++ a).drop size) := by
          simp only [ChunkReader.next, ChunkReader.advance, if_neg hlen, hk]
        rw [drainAll_item (ChunkReader.resumable limit) trivial (b := ()) (by rw [hnext]; rfl),
          hnext]
        apply Agrees.after
        have hdrop : ((w ++ a).drop size).length ≤ turns := by
          rw [List.length_drop, List.length_append]
          omega
        exact suffix_agrees (r := { r with body_buf_ := ⟨⟨true, k, []⟩, last⟩ }) ih
          (.suffix ⟨going.type, going.mode, going.unfinished, going.read⟩ known expected line
            suffix rfl ⟨rfl, rfl, rfl⟩) hdrop
  · -- The last chunk has no data.
    obtain ⟨seg, hseg, hread⟩ := CountedSegment.read_nothing held a
    have hnext := ChunkReader.next_empty limit body read a
    rw [hread, drainAll_item (ChunkReader.resumable limit) trivial (b := ()) (by rw [hnext]; rfl),
      hnext]
    simp only [bind, Except.bind, hseg.full, Bool.not_true, Bool.false_eq_true, if_false]
    apply Agrees.after
    exact suffix_agrees (r := { r with body_buf_ := seg }) ih
      (.suffix ⟨going.type, going.mode, going.unfinished, going.read⟩ known expected line suffix
        rfl hseg) ha

omit ih in
/-- A header line that is refused ends the call. -/
theorem size_fails {r : BodyReader} {line rest body : Text} {read : Nat} (going : r.Going mode read)
    {seg : CountedSegment} (hline : seg.Full line) (held : r.body_buf_.Open body) {e : Error}
    (h : ChunkReader.chunk_size limit read body line = .error e) :
    (r.set_chunk_size limit seg >>= (·.read_chunk_data (Istream.new rest))) = .error e := by
  obtain rfl := going.read
  unfold ChunkReader.chunk_size at h
  unfold set_chunk_size
  rw [CountedSegment.string_view, hline.held]
  cases hsize : parse_hexadecimal line with
  | none =>
    rw [hsize] at h
    obtain rfl := Except.error.inj h
    rfl
  | some size =>
    rw [hsize] at h
    by_cases hlong : line.length < 2 ^ 31
    · obtain ⟨seg', hreset, hopen⟩ := @CountedSegment.reset_open seg
        (by rw [hline.held]; exact hlong)
      simp only [hlong, not_true, if_false] at h
      simp only [hreset, bind, Except.bind]
      by_cases hlimit : limit < size_add r.state_.read size
      · rw [if_pos hlimit] at h ⊢
        obtain rfl := Except.error.inj h
        rfl
      · rw [if_neg hlimit] at h ⊢
        split at h
        · rename_i hfit
          have hmany := CountedSegment.read_too_many held (w := rest) (by omega) hfit.2
          obtain rfl := Except.error.inj h
          simp only [read_chunk_data, pure, Except.pure, hmany, bind, Except.bind]
        · cases h
    · simp only [hlong, not_false_eq_true, if_true] at h
      simp only [@CountedSegment.reset_long seg (by rw [hline.held]; exact hlong), bind,
        Except.bind]
      obtain rfl := Except.error.inj h
      rfl

/-- The size of a chunk, and the data that it announces. -/
theorem size_agrees {r : BodyReader} {line rest body : Text} {read size : Nat}
    (going : r.Going mode read) {seg : CountedSegment} (hline : seg.Full line)
    (suffix : r.chunk_suffix_buf_.Open []) (held : r.body_buf_.Open body)
    (hrest : rest.length ≤ turns)
    (h : ChunkReader.chunk_size limit read body line = .ok size) :
    Agrees (Reads · mode)
      ((r.set_chunk_size limit seg >>= (·.read_chunk_data (Istream.new rest))) >>=
        after_turn limit turns)
      (drainAll (ChunkReader.next limit) ChunkReader.measure ⟨.data size, [], body, read⟩
        rest) := by
  obtain rfl := going.read
  unfold ChunkReader.chunk_size at h
  unfold set_chunk_size
  rw [CountedSegment.string_view, hline.held]
  cases hsize : parse_hexadecimal line with
  | none =>
    rw [hsize] at h
    cases h
  | some n =>
    rw [hsize] at h
    simp only at h
    split at h
    · cases h
    · rename_i hlong
      split at h
      · cases h
      · rename_i hlimit
        split at h
        · cases h
        · rename_i hfit
          obtain rfl := Except.ok.inj h
          obtain ⟨seg', hreset, hopen⟩ := @CountedSegment.reset_open seg
            (by rw [hline.held]; omega)
          have hshort : 0 < n ∧ body.length + n < 2 ^ 63 ∨ n = 0 := by omega
          simp only [hreset, bind, Except.bind, hlimit, if_false]
          refine data_agrees (r := { r with
              chunk_header_buf_ := seg'
              state_ := { r.state_ with expected_size := n, next_chunk_size_known := true } }) ih
            (.data ⟨going.type, going.mode, going.unfinished, rfl⟩ rfl rfl hopen suffix held
              (hshort.imp_right fun hzero => ⟨hzero, rfl⟩)) hrest

/-- A turn of the loop, and the turns behind it. -/
theorem chunk_agrees {r : BodyReader} {s : ChunkReader} (h : r.Reads mode s) {a : Text}
    (ha : a.length ≤ turns) :
    Agrees (Reads · mode) (read_chunk limit r (Istream.new a) >>= after_turn limit turns)
      (drainAll (ChunkReader.next limit) ChunkReader.measure s a) := by
  unfold read_chunk
  cases h with
  | data going known expected line suffix held short =>
    rw [if_pos known]
    exact data_agrees ih (.data going known expected line suffix held short) ha
  | suffix going known expected line suffix no_line held =>
    rw [if_pos known]
    have hread : r.read_chunk_data (Istream.new a) = r.read_chunk_suffix (Istream.new a) := by
      unfold read_chunk_data CountedSegment.read_up_to_bytes
      rw [if_pos held.full]
      simp only [bind, Except.bind, held.full, Bool.not_true, Bool.false_eq_true, if_false]
    rw [hread]
    exact suffix_agrees ih (.suffix going known expected line suffix no_line held) ha
  | @header w body read going unknown line no_line suffix held =>
    rw [if_neg (by rw [unknown]; decide)]
    cases hcut : cut 13 10 (w ++ a) with
    | none =>
      obtain ⟨seg, inp, hseg, hinp, hread⟩ := CountedSegment.read_no_line line hcut
      have hnext : ChunkReader.next limit ⟨.header, w, body, read⟩ a =
          ⟨⟨.header, w ++ a, body, read⟩, [], .more⟩ := by
        simp only [ChunkReader.next, ChunkReader.advance, hcut]
      rw [Message.CRLF, hread, drainAll_more (by rw [hnext]), hnext]
      simp only [hseg.open_, Bool.not_false, if_true]
      exact .waiting (.header ⟨going.type, going.mode, going.unfinished, going.read⟩ unknown hseg
        hcut suffix held) hinp.empty
    | some p =>
      obtain ⟨l, rest⟩ := p
      obtain ⟨seg, hseg, hread⟩ := CountedSegment.read_line line no_line hcut
      have hrest : rest.length ≤ turns :=
        Nat.le_trans (Nat.le_of_lt (length_of_cut_append no_line hcut)) ha
      rw [Message.CRLF, hread]
      simp only [hseg.full, Bool.not_true, Bool.false_eq_true, if_false]
      cases hs : ChunkReader.chunk_size limit read body l with
      | error e =>
        have hnext : ChunkReader.next limit ⟨.header, w, body, read⟩ a =
            ⟨⟨.header, [], body, read⟩, rest, .halt (.failed e)⟩ := by
          simp only [ChunkReader.next, ChunkReader.advance, hcut, hs]
        have hfail : (r.set_chunk_size limit seg >>= (·.read_chunk_data (Istream.new rest))) =
            .error e := size_fails going hseg held hs
        simp only [bind, Except.bind] at hfail ⊢
        rw [hfail, drainAll_halt (by rw [hnext]), hnext]
        exact .failed
      | ok size =>
        have hnext : ChunkReader.next limit ⟨.header, w, body, read⟩ a =
            ChunkReader.item ⟨.data size, [], body, read⟩ rest := by
          simp only [ChunkReader.next, ChunkReader.advance, hcut, hs]
        rw [drainAll_item (ChunkReader.resumable limit) trivial (b := ()) (by rw [hnext]; rfl),
          hnext]
        apply Agrees.after
        exact size_agrees ih going hseg suffix held hrest hs

end

/-- The loop over chunks does what the phases do, one after another. -/
theorem read_chunks_agrees {limit turns : Nat} {mode : MessageMode} {r : BodyReader}
    {s : ChunkReader} {a : Text} (h : r.Reads mode s) (ha : a.length < turns) :
    Agrees (Reads · mode) (read_chunks limit turns r (Istream.new a))
      (drainAll (ChunkReader.next limit) ChunkReader.measure s a) := by
  induction turns generalizing r s a with
  | zero => omega
  | succ turns ih =>
    rw [read_chunks_succ]
    exact chunk_agrees ih h (Nat.le_of_lt_succ ha)

end BodyReader

end proxy.http.http1
