-- Bodies with an end of their own, in chunks or of a given size, are complete
-- with their last byte, however they are cut.
import Aether.Http.BodyArrival

open util.string util.buffer lib.lines lib.resumable lib.rfc7230

namespace proxy.http.http1

namespace BodyReader

/-! ## Chunks -/

/-- Without input a reader of chunks waits. -/
theorem Reads.still {r : BodyReader} {mode : MessageMode} {s : ChunkReader} (h : r.Reads mode s)
    (limit : Nat) : (drainAll (ChunkReader.next limit) ChunkReader.measure s []).halted = none := by
  have hwait : ∀ t : ChunkReader, (ChunkReader.next limit t []).outcome = .more →
      (drainAll (ChunkReader.next limit) ChunkReader.measure t []).halted = none := by
    intro t ht
    rw [drainAll_more ht]
  cases h with
  | header going unknown line no_line suffix held =>
    apply hwait
    simp only [ChunkReader.next, ChunkReader.advance, List.append_nil, no_line]
  | suffix going known expected line suffix no_line held =>
    apply hwait
    simp only [ChunkReader.next, ChunkReader.advance, List.append_nil, no_line]
  | @data size w body read going known expected line suffix held short =>
    rcases short with ⟨hw, -⟩ | ⟨rfl, rfl⟩
    · apply hwait
      simp only [ChunkReader.next, ChunkReader.advance, List.append_nil, if_pos hw]
    · have hnext := ChunkReader.next_empty limit body read []
      rw [drainAll_item (ChunkReader.resumable limit) trivial (b := ()) (by rw [hnext]; rfl), hnext]
      exact hwait _ rfl

theorem chunk_follows {limit : Nat} {mode : MessageMode} (hknown : mode ≠ .unknown) :
    Follows limit mode (ChunkReader.next limit) ChunkReader.measure (Reads · mode) where
  known := hknown
  resumable := ChunkReader.resumable limit
  agrees {r s} hr a := by
    unfold BodyReader.read
    rw [hr.going.type]
    exact read_chunks_agrees hr (Nat.lt_succ_self _)
  mode hr := hr.going.mode
  unfinished hr := hr.going.unfinished
  still hr e := by
    rw [hr.still]
    simp

/-! ## A given size -/

/-- A reader of so many bytes. -/
def take_given (size : Nat) (s : ChunkReader) (a : Text) : Call ChunkReader UInt8 Halt Unit :=
  let w := s.pending ++ a
  if w.length < size then ⟨⟨.data size, w, [], 0⟩, [], .more⟩
  else
    match CountedSegment.committed_with [] (w.take size) with
    | .error e => ⟨⟨.data size, [], [], 0⟩, w.drop size, .halt (.failed e)⟩
    | .ok body => ⟨⟨.data size, [], body, 0⟩, w.drop size, .halt .done⟩

/-- What the segments have in the middle of a body of a given size. -/
structure ReadsGiven (r : BodyReader) (mode : MessageMode) (size : Nat) (s : ChunkReader) :
    Prop where
  type : r.state_.type = .given
  mode : r.state_.mode = mode
  unfinished : r.state_.finished = false
  expected : r.state_.expected_size = size
  line : r.chunk_header_buf_.Open []
  suffix : r.chunk_suffix_buf_.Open []
  held : r.body_buf_.Gathers [] s.pending
  short : s.pending.length < size ∧ size < 2 ^ 63 ∨ size = 0 ∧ s.pending = []

theorem take_given_short {size : Nat} {s : ChunkReader} {a : Text}
    (h : (s.pending ++ a).length < size) :
    take_given size s a = ⟨⟨.data size, s.pending ++ a, [], 0⟩, [], .more⟩ := by
  simp only [take_given, if_pos h]

theorem take_given_failed {size : Nat} {s : ChunkReader} {a : Text}
    (h : ¬ (s.pending ++ a).length < size) {e : Error}
    (hk : CountedSegment.committed_with [] ((s.pending ++ a).take size) = .error e) :
    take_given size s a =
      ⟨⟨.data size, [], [], 0⟩, (s.pending ++ a).drop size, .halt (.failed e)⟩ := by
  simp only [take_given, if_neg h, hk]

theorem take_given_done {size : Nat} {s : ChunkReader} {a : Text}
    (h : ¬ (s.pending ++ a).length < size) {body : Text}
    (hk : CountedSegment.committed_with [] ((s.pending ++ a).take size) = .ok body) :
    take_given size s a =
      ⟨⟨.data size, [], body, 0⟩, (s.pending ++ a).drop size, .halt .done⟩ := by
  simp only [take_given, if_neg h, hk]

/-- With enough input the reader stops. -/
theorem take_given_halt {size : Nat} {s : ChunkReader} {a : Text}
    (h : ¬ (s.pending ++ a).length < size) : ∃ e, (take_given size s a).outcome = .halt e := by
  cases hk : CountedSegment.committed_with [] ((s.pending ++ a).take size) with
  | error e => exact ⟨_, by rw [take_given_failed h hk]⟩
  | ok body => exact ⟨_, by rw [take_given_done h hk]⟩

theorem given_resumable (size : Nat) :
    Resumable (take_given size) (fun _ => True) (fun _ => 0) where
  keeps_more _ _ := trivial
  keeps_item _ _ := trivial
  takes {s a b} _ h := by
    by_cases hlen : (s.pending ++ a).length < size
    · rw [take_given_short hlen] at h
      cases h
    · obtain ⟨e, he⟩ := take_given_halt hlen
      rw [he] at h
      cases h
  all_taken {s a} _ h := by
    by_cases hlen : (s.pending ++ a).length < size
    · rw [take_given_short hlen]
    · obtain ⟨e, he⟩ := take_given_halt hlen
      rw [he] at h
      cases h
  resumed {s a} _ h b := by
    by_cases hlen : (s.pending ++ a).length < size
    · rw [take_given_short hlen]
      simp only [take_given, List.append_assoc]
    · obtain ⟨e, he⟩ := take_given_halt hlen
      rw [he] at h
      cases h
  left {s a} _ h b := by
    by_cases hlen : (s.pending ++ a).length < size
    · rw [take_given_short hlen] at h
      exact absurd rfl h
    · have hle : size ≤ (s.pending ++ a).length := Nat.le_of_not_lt hlen
      have hmore : ¬ (s.pending ++ (a ++ b)).length < size := by
        rw [← List.append_assoc, List.length_append]
        omega
      have htake : (s.pending ++ (a ++ b)).take size = (s.pending ++ a).take size := by
        rw [← List.append_assoc, List.take_append_of_le_length hle]
      have hdrop : (s.pending ++ (a ++ b)).drop size = (s.pending ++ a).drop size ++ b := by
        rw [← List.append_assoc, List.drop_append_of_le_length hle]
      cases hk : CountedSegment.committed_with [] ((s.pending ++ a).take size) with
      | error e =>
        rw [take_given_failed hlen hk, take_given_failed hmore (by rw [htake, hk]), hdrop]
        rfl
      | ok body =>
        rw [take_given_done hlen hk, take_given_done hmore (by rw [htake, hk]), hdrop]
        rfl

theorem take_given_nothing {s : ChunkReader} (hs : s.pending = []) (a : Text) :
    take_given 0 s a = ⟨⟨.data 0, [], [], 0⟩, a, .halt .done⟩ := by
  have hk : CountedSegment.committed_with [] ((s.pending ++ a).take 0) = .ok [] := by
    rw [List.take_zero]
    exact CountedSegment.committed_with_of_lt [] (by decide)
  rw [take_given_done (Nat.not_lt_zero _) hk, hs]
  rfl

theorem given_agrees {mode : MessageMode} {size : Nat} {r : BodyReader} {s : ChunkReader}
    (h : r.ReadsGiven mode size s) (a : Text) :
    Agrees (ReadsGiven · mode size) (r.read_given (Istream.new a))
      (drainAll (take_given size) (fun _ => 0) s a) := by
  unfold read_given
  rw [h.expected]
  rcases h.short with ⟨hshort, hfit⟩ | ⟨rfl, hnil⟩
  · have hfit : ([] : Text).length + size < 2 ^ 63 := by
      rw [List.length_nil]
      omega
    by_cases hlen : (s.pending ++ a).length < size
    · obtain ⟨seg, inp, hseg, hinp, hread⟩ := CountedSegment.read_few_bytes h.held hshort hfit hlen
      rw [hread, drainAll_more (by rw [take_given_short hlen]), take_given_short hlen]
      simp only [bind, Except.bind, hseg.open_, Bool.false_eq_true, if_false]
      exact .waiting ⟨h.type, h.mode, h.unfinished, h.expected, h.line, h.suffix, hseg,
        .inl ⟨hlen, by omega⟩⟩ hinp.empty
    · obtain ⟨last, hread⟩ := CountedSegment.read_bytes h.held hshort hfit (Nat.le_of_not_lt hlen)
      rw [hread]
      cases hk : CountedSegment.committed_with [] ((s.pending ++ a).take size) with
      | error e =>
        rw [drainAll_halt (by rw [take_given_failed hlen hk]), take_given_failed hlen hk]
        exact .failed
      | ok body =>
        rw [drainAll_halt (by rw [take_given_done hlen hk]), take_given_done hlen hk]
        exact .done ⟨rfl, h.line, h.suffix, ⟨rfl, rfl, rfl⟩⟩
  · have hheld : r.body_buf_.Open [] := ⟨h.held.open_, h.held.held, h.held.loose.trans hnil⟩
    obtain ⟨seg, hseg, hread⟩ := CountedSegment.read_nothing hheld a
    rw [hread, drainAll_halt (by rw [take_given_nothing hnil]), take_given_nothing hnil]
    simp only [bind, Except.bind, hseg.full, if_true]
    exact .done ⟨rfl, h.line, h.suffix, hseg⟩

/-- The start of a body of a given size. -/
theorem Idle.reads_given {r : BodyReader} (h : r.Idle) (mode : MessageMode) {size : Nat}
    (hsize : size < 2 ^ 63) :
    ReadsGiven { r with state_ := ⟨mode, .given, size, 0, false, false⟩ } mode size
      ChunkReader.new := by
  refine ⟨rfl, rfl, rfl, rfl, h.line, h.suffix, h.held, ?_⟩
  rcases Nat.eq_zero_or_pos size with hzero | hpos
  · exact .inr ⟨hzero, rfl⟩
  · exact .inl ⟨hpos, hsize⟩

theorem Idle.reads_chunks {r : BodyReader} (h : r.Idle) (mode : MessageMode) :
    Reads { r with state_ := ⟨mode, .chunked, 0, 0, false, false⟩ } mode (ChunkReader.between []) :=
  .header ⟨rfl, rfl, rfl, rfl⟩ rfl h.line rfl h.suffix h.held

theorem given_follows {limit size : Nat} {mode : MessageMode} (hknown : mode ≠ .unknown) :
    Follows limit mode (take_given size) (fun _ => 0) (ReadsGiven · mode size) where
  known := hknown
  resumable := given_resumable size
  agrees {r s} hr a := by
    unfold BodyReader.read
    rw [hr.type]
    exact given_agrees hr a
  mode hr := hr.mode
  unfinished hr := hr.unfinished
  still {r s} hr e := by
    rcases hr.short with ⟨hshort, -⟩ | ⟨rfl, hnil⟩
    · have hlen : (s.pending ++ []).length < size := by rwa [List.append_nil]
      rw [drainAll_more (by rw [take_given_short hlen])]
      simp
    · rw [drainAll_halt (by rw [take_given_nothing hnil])]
      simp

end BodyReader

/-! ## Both -/

/-- How a body is framed that has an end of its own. -/
inductive Coding where
  | sized (content : Text)
  | chunked (body : ChunkedBody)

namespace Coding

def content : Coding → Text
  | sized content => content
  | chunked body => body.content

/-- What stands on the wire. -/
def encode : Coding → Text
  | sized content => content
  | chunked body => body.encode

/-- What `expected_body_size` says of it. -/
def framing : Coding → BodySizeType × Nat
  | sized content => (.given, content.length)
  | chunked _ => (.chunked, 0)

/-- The lines that have the sizes of chunks. -/
def sizeLines : Coding → List Text
  | sized _ => []
  | chunked body => body.sizeLines

/-- The body, and each line that has a size, is shorter than 2^31 bytes. -/
def Fits (c : Coding) : Prop := c.content.length < 2 ^ 31 ∧ ∀ l ∈ c.sizeLines, l.length < 2 ^ 31

end Coding

namespace HttpParser

open BodyReader

variable {p : HttpParser} {mode : MessageMode}

/-- The calls before the one that finds the last byte do not complete the body. That call does, the
body is `content`, and `rest` is left of the stream. -/
def DeliversWithLast (p : HttpParser) (mode : MessageMode) (before : List Text) (last : Text)
    (ahead : List Text) (content rest : Text) : Prop :=
  ∃ q, p.read_pieces mode [] (before ++ last :: ahead) = .ok (.complete q rest ahead) ∧
    q.body_of mode = .ok content

/-- Only a request or a response has a framing, but for none. -/
theorem known_of_framing {framing : BodySizeType × Nat}
    (h : p.expected_body_size mode = .ok framing) (hnone : framing.1 ≠ .none) :
    mode ≠ .unknown := by
  rintro rfl
  unfold expected_body_size at h
  split at h
  · obtain rfl := Except.ok.inj h
    exact hnone rfl
  · cases h

/-- A given size is one of a `long long`. -/
theorem given_lt {size : Nat} (h : p.expected_body_size mode = .ok (.given, size)) :
    size < 2 ^ 63 := by
  unfold expected_body_size at h
  split at h
  · cases h
  · obtain ⟨msg, -, h⟩ := bind_eq_ok.mp h
    split at h
    · cases h
    · split at h
      · obtain ⟨n, hn, h⟩ := bind_eq_ok.mp h
        obtain ⟨-, rfl⟩ := Prod.mk.inj (Except.ok.inj h)
        unfold content_length at hn
        split at hn
        · cases hn
        · split at hn
          · cases hn
          · rename_i x hx
            have hlt := lexical_cast_long_long_lt hx
            split at hn
            · cases hn
            · obtain rfl := Except.ok.inj hn
              omega
      · split at h <;> cases h

theorem chunked_size {size : Nat} (h : p.expected_body_size mode = .ok (.chunked, size)) :
    size = 0 := by
  unfold expected_body_size at h
  split at h
  · cases h
  · obtain ⟨msg, -, h⟩ := bind_eq_ok.mp h
    split at h
    · obtain ⟨-, rfl⟩ := Prod.mk.inj (Except.ok.inj h)
      rfl
    · split at h
      · obtain ⟨n, -, h⟩ := bind_eq_ok.mp h
        cases h
      · split at h <;> cases h

section

variable {f : ChunkReader → Text → Call ChunkReader UInt8 Halt Unit} {m : ChunkReader → Nat}
  {R : BodyReader → ChunkReader → Prop} (h : Follows p.body_size_limit mode f m R)
  {r : BodyReader} {s : ChunkReader} (hr : R r s)

include h hr

/-- A body that a reader takes exactly if `Short` holds is delivered exactly if the segment can be
reset as well. -/
theorem delivers_iff
    (hstart : ∀ inp, p.read_body inp mode = { p with body := r }.read_body inp mode)
    {e content : Text} {Short : Prop}
    (hgood : content.length < 2 ^ 31 → Short → ∀ rest, ∃ t items,
      drainAll f m s (e ++ rest) = ⟨t, rest, items, some .done⟩ ∧ t.body = content)
    (hbad : content.length < 2 ^ 31 → ¬ Short → ∀ rest,
      (drainAll f m s (e ++ rest)).halted = some (.failed .undefined))
    {before : List Text} {last : Text} {ahead : List Text} {rest : Text}
    (hbefore : before = [] ∨ before.flatten.length < e.length)
    (harrive : before.flatten ++ last = e ++ rest) :
    p.DeliversWithLast mode before last ahead content rest ↔
      content.length < 2 ^ 31 ∧ Short := by
  have hfirst : ∀ piece pieces, p.read_pieces mode [] (piece :: pieces) =
      { p with body := r }.read_pieces mode [] (piece :: pieces) := by
    intro piece pieces
    rw [read_pieces, read_pieces, hstart]
  have hrun : p.read_pieces mode [] (before ++ last :: ahead) =
      { p with body := r }.read_pieces mode [] (before ++ last :: ahead) := by
    cases before with
    | nil => exact hfirst _ _
    | cons piece before => exact hfirst _ _
  unfold DeliversWithLast
  rw [hrun]
  constructor
  · rintro ⟨q, hq, hof⟩
    obtain ⟨body, hbody, hlen⟩ := length_of_complete h hr hq
    obtain rfl : body = content := Except.ok.inj (hbody.symm.trans hof)
    refine ⟨hlen, ?_⟩
    by_contra hshort
    have hfail := hbad hlen hshort rest
    have hflat : (before ++ [last]).flatten = e ++ rest := by
      rw [← harrive]
      simp
    rw [← hflat] at hfail
    have hall := read_pieces_failed h hr hfail ahead
    rw [List.append_assoc, List.singleton_append, hq] at hall
    cases hall
  · rintro ⟨hlen, hshort⟩
    obtain ⟨t, items, hdone, hcontent⟩ := hgood hlen hshort rest
    have hopen : before = [] ∨ (drainAll f m s before.flatten).halted = none := by
      refine hbefore.imp_right fun hlt => ?_
      obtain ⟨t', items', hexact, -⟩ := hgood hlen hshort []
      rw [List.append_nil] at hexact
      have hprefix : before.flatten <+: e :=
        List.prefix_of_prefix_length_le (harrive ▸ List.prefix_append _ _)
          (List.prefix_append _ _) (Nat.le_of_lt hlt)
      obtain ⟨u, hu⟩ := hprefix
      have hne : u ≠ [] := by
        rintro rfl
        rw [List.append_nil] at hu
        rw [hu] at hlt
        exact absurd hlt (Nat.lt_irrefl _)
      exact open_of_prefix h (by rw [hexact]) hu.symm hne
    rw [← harrive] at hdone
    obtain ⟨q, hq, hof, -, -⟩ := read_pieces_done h hr hopen (by rw [hdone])
      (by rw [hdone, hcontent]; exact hlen) ahead
    rw [hdone] at hq hof
    exact ⟨q, hq, by rw [hof, hcontent]⟩

end

theorem start_of_le {r : BodyReader} {limit size : Nat} {type : BodySizeType} (htype : type ≠ .all)
    (hle : size ≤ limit) : r.start limit mode type size =
      .ok { r with state_ := ⟨mode, type, size, 0, false, false⟩ } := by
  unfold BodyReader.start
  rw [if_neg (Nat.not_lt_of_le hle), if_neg htype]

theorem read_body_start {type : BodySizeType} {size : Nat} (hidle : p.body.Idle)
    (hframing : p.expected_body_size mode = .ok (type, size)) (htype : type ≠ .none)
    (hknown : mode ≠ .unknown) {r : BodyReader}
    (hstart : p.body.start p.body_size_limit mode type size = .ok r) (hmode : r.state_.mode = mode)
    (inp : Istream) : p.read_body inp mode = { p with body := r }.read_body inp mode := by
  rw [read_body_first (by rw [hidle.state]; rfl) hframing htype, hstart,
    read_body_next (by rw [hmode]; exact hknown)]
  rfl

/-- A first call that does not fail has found the size to be within the limit. -/
theorem read_body_begins {type : BodySizeType} {size : Nat} (hidle : p.body.Idle)
    (hframing : p.expected_body_size mode = .ok (type, size)) (hnone : type ≠ .none)
    (hall : type ≠ .all) {inp : Istream} {result : Bool × HttpParser × Istream}
    (hread : p.read_body inp mode = .ok result) :
    size ≤ p.body_size_limit ∧
      p.read_body inp mode = { p with body := { p.body with
        state_ := ⟨mode, type, size, 0, false, false⟩ } }.read_body inp mode := by
  have hknown := known_of_framing hframing hnone
  have hsize : size ≤ p.body_size_limit := by
    by_contra hlarge
    rw [read_body_first (by rw [hidle.state]; rfl) hframing hnone, BodyReader.start,
      if_pos (Nat.lt_of_not_le hlarge)] at hread
    cases hread
  exact ⟨hsize, read_body_start hidle hframing hnone hknown (start_of_le hall hsize) rfl inp⟩

section

variable {before : List Text} {last : Text} {ahead : List Text} {rest : Text}

theorem sized_delivers_iff {content : Text} (hidle : p.body.Idle)
    (hframing : p.expected_body_size mode = .ok (.given, content.length))
    (hlimit : content.length ≤ p.body_size_limit)
    (hbefore : before = [] ∨ before.flatten.length < content.length)
    (harrive : before.flatten ++ last = content ++ rest) :
    p.DeliversWithLast mode before last ahead content rest ↔ content.length < 2 ^ 31 := by
  have hknown := known_of_framing hframing (by simp)
  have hsize : content.length < 2 ^ 63 := given_lt hframing
  have hreads := hidle.reads_given mode hsize
  have hiff : p.DeliversWithLast mode before last ahead content rest ↔
      content.length < 2 ^ 31 ∧ True := by
    refine delivers_iff (given_follows hknown) hreads (read_body_start hidle hframing (by decide)
      hknown (start_of_le (by decide) hlimit) rfl) ?_ (fun _ hnot => absurd trivial hnot) hbefore
      harrive
    intro hlen _ rest
    have hmany : ¬ (ChunkReader.new.pending ++ (content ++ rest)).length < content.length := by
      simp [ChunkReader.new]
    have htake : (ChunkReader.new.pending ++ (content ++ rest)).take content.length = content :=
      List.take_left
    have hdrop : (ChunkReader.new.pending ++ (content ++ rest)).drop content.length = rest :=
      List.drop_left
    have hk : CountedSegment.committed_with []
        ((ChunkReader.new.pending ++ (content ++ rest)).take content.length) = .ok content := by
      rw [htake]
      exact CountedSegment.committed_with_of_lt [] hlen
    refine ⟨⟨.data content.length, [], content, 0⟩, [], ?_, rfl⟩
    rw [drainAll_halt (by rw [take_given_done hmany hk]), take_given_done hmany hk, hdrop]
  rw [hiff, and_true]

theorem chunked_delivers_iff {body : ChunkedBody} (hidle : p.body.Idle)
    (hframing : p.expected_body_size mode = .ok (.chunked, 0))
    (hlimit : body.content.length ≤ p.body_size_limit)
    (hbefore : before = [] ∨ before.flatten.length < body.encode.length)
    (harrive : before.flatten ++ last = body.encode ++ rest) :
    p.DeliversWithLast mode before last ahead body.content rest ↔
      body.content.length < 2 ^ 31 ∧ ∀ l ∈ body.sizeLines, l.length < 2 ^ 31 := by
  have hknown := known_of_framing hframing (by simp)
  have hreads := hidle.reads_chunks mode
  have hzero : ([] : Text).length + body.content.length = body.content.length := Nat.zero_add _
  refine delivers_iff (chunk_follows hknown) hreads (read_body_start hidle hframing (by decide)
    hknown (start_of_le (by decide) (Nat.zero_le _)) rfl) ?_ ?_ hbefore harrive
  · intro hlen hlines rest
    exact ChunkReader.drainAll_body body hlines (by rw [hzero]; exact hlen)
      (by rw [hzero]; exact hlimit) rest
  · intro hlen hlines rest
    exact ChunkReader.drainAll_long_body body hlines (by rw [hzero]; exact hlen)
      (by rw [hzero]; exact hlimit) rest

/-- A body within the limit is complete with its last byte, however it is cut and whatever comes
behind it, exactly if no bump of a pointer is by 2^31 bytes or more. -/
theorem a_body_is_complete_with_its_last_byte_iff (c : Coding) (hidle : p.body.Idle)
    (hframing : p.expected_body_size mode = .ok c.framing)
    (hlimit : c.content.length ≤ p.body_size_limit)
    (hbefore : before = [] ∨ before.flatten.length < c.encode.length)
    (harrive : before.flatten ++ last = c.encode ++ rest) :
    p.DeliversWithLast mode before last ahead c.content rest ↔ c.Fits := by
  cases c with
  | sized content =>
    refine (sized_delivers_iff hidle hframing hlimit hbefore harrive).trans ?_
    simp [Coding.Fits, Coding.content, Coding.sizeLines]
  | chunked body => exact chunked_delivers_iff hidle hframing hlimit hbefore harrive

end

/-- A request with one header. -/
def a_request (limit : Nat) (name value : Text) : HttpParser :=
  new limit { Exchange.new with req_ := { Request.new with
    headers_ := Headers.empty.emplace name value } }

theorem last_zero : text "0" ≠ [] ∧ ∀ c ∈ text "0", c = 48 :=
  ⟨by decide, fun _ hc => List.eq_of_mem_singleton hc⟩

theorem five : ∀ c ∈ text "05", (hexDigit c).isSome := by
  intro c hc
  rcases List.mem_cons.mp hc with rfl | hc
  · rfl
  · rw [List.eq_of_mem_singleton hc]
    rfl

def hello : ChunkedBody where
  chunks := [⟨text "05", text "hello", ⟨by decide, five⟩, by decide, by decide⟩]
  last := text "0"
  zeros := last_zero

theorem hello_is_complete_with_its_last_byte_iff :
    (a_request 4097 (text "Transfer-Encoding") (text "chunked")).DeliversWithLast .request
      [text "05\r", text "\nhel"] (text "lo\r\n0\r\n\r\nGET") [text " /"] (text "hello")
      (text "GET") ↔ (Coding.chunked hello).Fits :=
  a_body_is_complete_with_its_last_byte_iff (Coding.chunked hello) idle_new (by decide) (by decide)
    (by decide) (by decide)

/-- `Content-Length: 2147483648`. -/
def a_long_request : HttpParser :=
  a_request 2147483648 (text "Content-Length") (text "2147483648")

theorem a_long_request_framing :
    a_long_request.expected_body_size .request = .ok (.given, 2147483648) := by
  decide

theorem a_long_request_is_not_delivered {content : Text} (hlen : content.length = 2147483648) :
    ¬ a_long_request.DeliversWithLast .request [] content [] content [] := by
  have hframing : a_long_request.expected_body_size .request = .ok (.given, content.length) := by
    rw [hlen, a_long_request_framing]
  have hlimit : content.length ≤ a_long_request.body_size_limit := Nat.le_of_eq hlen
  have harrive : ([] : List Text).flatten ++ content = content ++ [] := (List.append_nil _).symm
  rw [sized_delivers_iff idle_new hframing hlimit (.inl rfl) harrive, hlen]
  decide

/-- All of a body of 2^31 bytes is there at the first call, and is within the limit. -/
theorem a_body_of_2_pow_31_bytes_is_not_delivered : ∃ (p : HttpParser) (content : Text),
    p.body.Idle ∧ p.expected_body_size .request = .ok (Coding.sized content).framing ∧
      content.length ≤ p.body_size_limit ∧
      ¬ p.DeliversWithLast .request [] content [] content [] := by
  obtain ⟨content, hlen⟩ : ∃ content : Text, content.length = 2147483648 :=
    ⟨List.replicate 2147483648 0, List.length_replicate⟩
  refine ⟨a_long_request, content, idle_new, ?_, Nat.le_of_eq hlen,
    a_long_request_is_not_delivered hlen⟩
  rw [Coding.framing, hlen, a_long_request_framing]

end HttpParser

end proxy.http.http1
