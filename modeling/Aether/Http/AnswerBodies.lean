-- The body of an answer as the calls read it: it fails, or it is complete with the
-- last byte of the answer. Chunks may have extensions, and a trailer may come behind
-- them, which the code refuses.
import Aether.Http.BodyDelivery
import Aether.Http.ServerAnswers

open util.string util.buffer util.bytes lib.lines lib.resumable lib.rfc7230

namespace util.string

theorem mem_dropWhile {p : UInt8 → Bool} {c : UInt8} {s : Text} (hp : p c = false) (h : c ∈ s) :
    c ∈ s.dropWhile p := by
  rw [← List.takeWhile_append_dropWhile (p := p) (l := s), List.mem_append] at h
  refine h.resolve_left (fun htake => ?_)
  rw [List.mem_takeWhile_imp htake] at hp
  cases hp

/-- A semicolon is no sign. -/
theorem mem_sign {s : Text} (h : (59 : UInt8) ∈ s) : (59 : UInt8) ∈ (sign s).2 := by
  rcases s with _ | ⟨c, cs⟩
  · exact h
  · have hrest (d : UInt8) (hd : 59 ≠ d) (hc : c = d) : 59 ∈ cs :=
      (List.mem_cons.mp h).resolve_left (fun h59 => hd (h59.trans hc))
    unfold sign
    simp only
    by_cases hminus : c = minus
    · rw [if_pos hminus]
      exact hrest minus (by decide) hminus
    · rw [if_neg hminus]
      by_cases hplus : c = plus
      · rw [if_pos hplus]
        exact hrest plus (by decide) hplus
      · rw [if_neg hplus]
        exact h

/-- What comes behind the digits of a number has its semicolon. -/
theorem mem_get_hex {line rest : Text} {n : Nat} (h : (59 : UInt8) ∈ line)
    (hget : get_hex line = some (n, rest)) : (59 : UInt8) ∈ rest := by
  have hbehind {found : Text} {none_ : Prop} [Decidable none_] {m : Nat} (hfound : 59 ∈ found)
      (heq : (if none_ then none
        else some (m, found.dropWhile (fun c => (hex_digit c).isSome))) = some (n, rest)) :
      59 ∈ rest := by
    split at heq
    · cases heq
    · obtain ⟨-, rfl⟩ := Prod.mk.inj (Option.some.inj heq)
      exact mem_dropWhile rfl hfound
  have hsigned := mem_sign (mem_dropWhile (p := isspace) rfl h)
  unfold get_hex at hget
  generalize sign (line.dropWhile isspace) = signed at hsigned hget
  obtain ⟨negative, found⟩ := signed
  simp only at hsigned hget
  split at hget
  · rename_i c cs
    by_cases hc : c = 120 ∨ c = 88
    · have hcs : 59 ∈ cs := by
        simp only [List.mem_cons] at hsigned
        rcases hsigned with h48 | h59 | hcs
        · cases h48
        · rw [← h59] at hc
          exact absurd hc (by decide)
        · exact hcs
      simp only [if_pos hc] at hget
      exact hbehind hcs hget
    · simp only [if_neg hc] at hget
      exact hbehind hsigned hget
  · exact hbehind hsigned hget

/-- A line with a semicolon is no number. -/
theorem parse_hexadecimal_of_mem {line : Text} (h : (59 : UInt8) ∈ line) :
    parse_hexadecimal line = none := by
  unfold parse_hexadecimal
  split
  · rfl
  · rename_i n rest hget
    rw [if_neg]
    intro hall
    cases List.all_eq_true.mp hall 59 (mem_get_hex h hget)

end util.string

namespace proxy.http.http1

/-! ## What is left of a body -/

/-- The calls fail, or they take all that is meant for the body. -/
def EndsWith (content rest : Text) (d : Drained ChunkReader UInt8 Halt Unit) : Prop :=
  (∃ e, d.halted = some (.failed e)) ∨ d.halted = some .done ∧ d.rest = rest ∧
    d.state.body = content

theorem EndsWith.after {content rest : Text} {d : Drained ChunkReader UInt8 Halt Unit}
    (h : EndsWith content rest d) (items : List Unit) : EndsWith content rest (d.after items) := h

theorem EndsWith.of_after {content rest : Text} {d : Drained ChunkReader UInt8 Halt Unit}
    {items : List Unit} (h : EndsWith content rest (d.after items)) : EndsWith content rest d := h

/-- A commit of less than 2^32 bytes. -/
theorem committed_with_cases (c data : Text) (h : data.length < 2 ^ 32) :
    CountedSegment.committed_with c data = .ok (c ++ data) ∨
      ∃ e, CountedSegment.committed_with c data = .error e := by
  by_cases hlt : data.length < 2 ^ 31
  · exact .inl (CountedSegment.committed_with_of_lt c hlt)
  · have hneg : toInt data.length < 0 := by
      unfold toInt
      rw [Int.bmod_def]
      split <;> omega
    refine .inr ⟨.undefined, ?_⟩
    unfold CountedSegment.committed_with
    rw [if_pos hneg]

namespace ChunkReader

section

variable {limit : Nat} {body : Text}

theorem chunk_size_ok {read n : Nat} {line : Text} (h : chunk_size limit read body line = .ok n) :
    parse_hexadecimal line = some n ∧ size_add read n ≤ limit ∧
      (n = 0 ∨ body.length + n < 2 ^ 63) := by
  unfold chunk_size at h
  split at h
  · cases h
  · rename_i size hsize
    split at h
    · cases h
    · split at h
      · cases h
      · rename_i hlimit
        split at h
        · cases h
        · rename_i hfit
          obtain rfl := Except.ok.inj h
          exact ⟨hsize, Nat.le_of_not_lt hlimit, by omega⟩

/-- The line of a size that is accepted has no extensions. -/
theorem size_of_line {ds extensions : Text} {n : Nat} (h : HexNumeral ds)
    (he : Extensions extensions) (hn : parse_hexadecimal (ds ++ extensions) = some n) :
    n = hexNumber ds := by
  rcases he.2 with rfl | hhead
  · rw [List.append_nil, parse_hexadecimal_digits h] at hn
    split at hn
    · exact (Option.some.inj hn).symm
    · cases hn
  · have hmem : (59 : UInt8) ∈ ds ++ extensions :=
      List.mem_append_right ds (List.mem_of_mem_head? hhead)
    rw [parse_hexadecimal_of_mem hmem] at hn
    cases hn

/-- A chunk fails, or it is taken as a whole. -/
theorem drainAll_coded_chunk (c : CodedChunk) (hbody : body.length < 2 ^ 63)
    (hbound : limit < 2 ^ 32 ∨ c.data.length < 2 ^ 32) (w : Text) :
    (∃ e, (drainAll (next limit) measure (between body) (c.encode ++ w)).halted =
        some (.failed e)) ∨
      (body ++ c.data).length < 2 ^ 63 ∧ ∃ items,
        drainAll (next limit) measure (between body) (c.encode ++ w) =
          (drainAll (next limit) measure (between (body ++ c.data)) w).after items := by
  have hr := resumable limit
  have hw : c.encode ++ w = c.size ++ c.extensions ++ crlf ++ (c.data ++ (crlf ++ w)) := by
    simp [CodedChunk.encode]
  have hcut := cut_size_line c.numeral c.extensions_ (c.data ++ (crlf ++ w))
  have hpos : 0 < c.data.length := List.length_pos_iff.mpr c.some_
  cases hsize : chunk_size limit body.length body (c.size ++ c.extensions) with
  | error e =>
    have hheader : next limit (between body) (c.encode ++ w) =
        ⟨⟨.header, [], body, body.length⟩, c.data ++ (crlf ++ w), .halt (.failed e)⟩ := by
      rw [hw]
      simp only [next, between, advance, List.nil_append, hcut, hsize]
    exact .inl ⟨e, by rw [drainAll_halt (by rw [hheader])]⟩
  | ok n =>
    obtain ⟨hparse, hlimit, hfit⟩ := chunk_size_ok hsize
    obtain rfl : n = c.data.length := (size_of_line c.numeral c.extensions_ hparse).trans c.value
    have hfit : body.length + c.data.length < 2 ^ 63 := by omega
    have hadd : size_add body.length c.data.length = body.length + c.data.length :=
      size_add_of_lt (by omega)
    have hheader : next limit (between body) (c.encode ++ w) =
        item ⟨.data c.data.length, [], body, body.length⟩ (c.data ++ (crlf ++ w)) := by
      rw [hw]
      simp only [next, between, advance, List.nil_append, hcut, hsize]
    have hlen : ¬ (c.data ++ (crlf ++ w)).length < c.data.length := by
      rw [List.length_append]
      omega
    rw [drainAll_item hr trivial (b := ()) (by rw [hheader]; rfl), hheader]
    simp only [item]
    rcases committed_with_cases body c.data (by omega) with hk | ⟨e, hk⟩
    · have hdata : next limit ⟨.data c.data.length, [], body, body.length⟩
          (c.data ++ (crlf ++ w)) =
          item ⟨.suffix c.data.length, [], body ++ c.data, body.length⟩ (crlf ++ w) := by
        simp only [next, advance, List.nil_append, if_neg hlen, List.take_left, List.drop_left, hk]
      have hsuffix : next limit ⟨.suffix c.data.length, [], body ++ c.data, body.length⟩
          (crlf ++ w) = item (between (body ++ c.data)) w := by
        simp only [next, advance, List.nil_append, cut_crlf, ne_eq, not_true, if_false,
          if_neg (Nat.ne_of_gt hpos), hadd, between, List.length_append]
      refine .inr ⟨by rw [List.length_append]; exact hfit, [(), (), ()], ?_⟩
      rw [drainAll_item hr trivial (b := ()) (by rw [hdata]; rfl), hdata]
      simp only [item]
      rw [drainAll_item hr trivial (b := ()) (by rw [hsuffix]; rfl), hsuffix]
      rfl
    · have hdata : next limit ⟨.data c.data.length, [], body, body.length⟩
          (c.data ++ (crlf ++ w)) =
          ⟨⟨.data c.data.length, [], body, body.length⟩, crlf ++ w, .halt (.failed e)⟩ := by
        simp only [next, advance, List.nil_append, if_neg hlen, List.take_left, List.drop_left, hk]
      exact .inl ⟨e, by rw [drainAll_halt (by rw [hdata])]; rfl⟩

/-- The end of the chunks, with a trailer or without one. -/
theorem drainAll_coded_end (b : CodedBody) (rest : Text) :
    EndsWith body rest (drainAll (next limit) measure (between body)
      (b.last ++ b.extensions ++ crlf ++
        (b.trailer.flatMap (fun f => f.text ++ crlf) ++ crlf) ++ rest)) := by
  have hr := resumable limit
  obtain ⟨hnumeral, hzero⟩ := b.last_numeral
  generalize htail : b.trailer.flatMap (fun f => f.text ++ crlf) ++ crlf ++ rest = tail
  have hw : b.last ++ b.extensions ++ crlf ++
      (b.trailer.flatMap (fun f => f.text ++ crlf) ++ crlf) ++ rest =
      b.last ++ b.extensions ++ crlf ++ tail := by
    rw [← htail]
    simp
  have hcut := cut_size_line hnumeral b.extensions_ tail
  rw [hw]
  cases hsize : chunk_size limit body.length body (b.last ++ b.extensions) with
  | error e =>
    have hheader : next limit (between body) (b.last ++ b.extensions ++ crlf ++ tail) =
        ⟨⟨.header, [], body, body.length⟩, tail, .halt (.failed e)⟩ := by
      simp only [next, between, advance, List.nil_append, hcut, hsize]
    exact .inl ⟨e, by rw [drainAll_halt (by rw [hheader])]⟩
  | ok n =>
    obtain rfl : n = 0 :=
      (size_of_line hnumeral b.extensions_ (chunk_size_ok hsize).1).trans hzero
    have hheader : next limit (between body) (b.last ++ b.extensions ++ crlf ++ tail) =
        item ⟨.data 0, [], body, body.length⟩ tail := by
      simp only [next, between, advance, List.nil_append, hcut, hsize]
    have hdata := next_empty limit body body.length tail
    rw [drainAll_item hr trivial (b := ()) (by rw [hheader]; rfl), hheader]
    simp only [item]
    rw [drainAll_item hr trivial (b := ()) (by rw [hdata]; rfl), hdata]
    simp only [item]
    apply EndsWith.after
    apply EndsWith.after
    cases htrailer : b.trailer with
    | nil =>
      rw [htrailer] at htail
      obtain rfl : crlf ++ rest = tail := htail
      have hsuffix : next limit ⟨.suffix 0, [], body, body.length⟩ (crlf ++ rest) =
          ⟨⟨.suffix 0, [], body, body.length⟩, rest, .halt .done⟩ := by
        simp only [next, advance, List.nil_append, cut_crlf, ne_eq, not_true, if_false, if_true]
      rw [drainAll_halt (by rw [hsuffix]), hsuffix]
      exact .inr ⟨rfl, rfl, rfl⟩
    | cons f fs =>
      -- A line of the trailer stands where the empty line should be.
      have hline : cut 13 10 tail =
          some (f.text, fs.flatMap (fun f => f.text ++ crlf) ++ crlf ++ rest) := by
        have hparts : tail = f.text ++ 13 :: 10 ::
            (fs.flatMap (fun f => f.text ++ crlf) ++ crlf ++ rest) := by
          rw [← htail, htrailer]
          simp [crlf]
        rw [hparts]
        exact cut_end (cut_none_of_notMem f.oneLine_text.2) (by decide) _
      have hsuffix : next limit ⟨.suffix 0, [], body, body.length⟩ tail =
          ⟨⟨.suffix 0, [], body, body.length⟩, fs.flatMap (fun f => f.text ++ crlf) ++ crlf ++ rest,
            .halt (.failed (default_error .invalid_chunked_body))⟩ := by
        simp only [next, advance, List.nil_append, hline, ne_eq, f.text_ne_nil, not_false_eq_true,
          if_true]
      exact .inl ⟨_, by rw [drainAll_halt (by rw [hsuffix])]⟩

/-- A body in chunks fails, or it is taken as a whole. -/
theorem drainAll_coded (b : CodedBody) (hbody : body.length < 2 ^ 63)
    (hbound : limit < 2 ^ 32 ∨ b.content.length < 2 ^ 32) (rest : Text) :
    EndsWith (body ++ b.content) rest
      (drainAll (next limit) measure (between body) (b.encode ++ rest)) := by
  obtain ⟨chunks, last, zeros, extensions, extensions_, trailer⟩ := b
  induction chunks generalizing body with
  | nil =>
    have hend := @drainAll_coded_end limit body
      ⟨[], last, zeros, extensions, extensions_, trailer⟩ rest
    simpa [CodedBody.content, CodedBody.encode] using hend
  | cons c chunks ih =>
    generalize hb : (⟨chunks, last, zeros, extensions, extensions_, trailer⟩ : CodedBody) = b at ih
    have hcontent : (⟨c :: chunks, last, zeros, extensions, extensions_, trailer⟩ :
        CodedBody).content = c.data ++ b.content := by
      rw [← hb]
      rfl
    have hencode : (⟨c :: chunks, last, zeros, extensions, extensions_, trailer⟩ :
        CodedBody).encode ++ rest = c.encode ++ (b.encode ++ rest) := by
      rw [← hb]
      simp [CodedBody.encode]
    rw [hcontent, List.length_append] at hbound
    rw [hcontent, hencode]
    have hfirst : limit < 2 ^ 32 ∨ c.data.length < 2 ^ 32 := by omega
    rcases drainAll_coded_chunk c hbody hfirst (b.encode ++ rest) with hfail | ⟨hlen, items, hs⟩
    · exact .inl hfail
    · rw [hs, ← List.append_assoc]
      exact (ih hlen (by omega)).after items

end

end ChunkReader

/-- A body of a given size fails, or it is taken as a whole. -/
theorem BodyReader.drainAll_given {content : Text} (h : content.length < 2 ^ 32) (rest : Text) :
    EndsWith content rest
      (drainAll (take_given content.length) (fun _ => 0) ChunkReader.new (content ++ rest)) := by
  have hmany : ¬ (ChunkReader.new.pending ++ (content ++ rest)).length < content.length := by
    simp [ChunkReader.new]
  have htake : (ChunkReader.new.pending ++ (content ++ rest)).take content.length = content :=
    List.take_left
  have hdrop : (ChunkReader.new.pending ++ (content ++ rest)).drop content.length = rest :=
    List.drop_left
  rcases committed_with_cases [] content h with hk | ⟨e, hk⟩
  · rw [← htake] at hk
    have hdone := take_given_done hmany hk
    rw [drainAll_halt (by rw [hdone]), hdone]
    exact .inr ⟨rfl, hdrop, htake⟩
  · rw [← htake] at hk
    have hfail := take_given_failed hmany hk
    exact .inl ⟨e, by rw [drainAll_halt (by rw [hfail])]⟩

/-! ## Calls -/

namespace HttpParser

open BodyReader

variable {p q : HttpParser} {mode : MessageMode} {w left content : Text} {done : Bool}
  {inp out : Istream}

/-- Calls for a body are under way, and they follow a reader. -/
def Underway (p : HttpParser) (mode : MessageMode) : Prop :=
  ∃ (f : ChunkReader → Text → Call ChunkReader UInt8 Halt Unit) (m : ChunkReader → Nat)
    (R : BodyReader → ChunkReader → Prop) (s : ChunkReader),
    Follows p.body_size_limit mode f m R ∧ R p.body s

/-- And the bytes that are left are the end of the body. -/
def EndsOn (p : HttpParser) (mode : MessageMode) (content left : Text) : Prop :=
  ∃ (f : ChunkReader → Text → Call ChunkReader UInt8 Halt Unit) (m : ChunkReader → Nat)
    (R : BodyReader → ChunkReader → Prop) (s : ChunkReader),
    Follows p.body_size_limit mode f m R ∧ R p.body s ∧ EndsWith content [] (drainAll f m s left)

/-- A call that does not fail comes to what the reader comes to. -/
theorem read_body_cases {f : ChunkReader → Text → Call ChunkReader UInt8 Halt Unit}
    {m : ChunkReader → Nat} {R : BodyReader → ChunkReader → Prop} {s : ChunkReader}
    (h : Follows p.body_size_limit mode f m R) (hr : R p.body s)
    (hread : p.read_body (Istream.new w) mode = .ok (done, q, out)) :
    ((drainAll f m s w).halted = none ∧ done = false ∧ out.rdbuf = [] ∧
        q.body_size_limit = p.body_size_limit ∧ R q.body (drainAll f m s w).state) ∨
      ((drainAll f m s w).halted = some .done ∧ done = true ∧
        out = Istream.new (drainAll f m s w).rest ∧
        q.body_of mode = .ok (drainAll f m s w).state.body ∧ q.body.Idle) := by
  rw [read_body_next (by rw [h.mode hr]; exact h.known)] at hread
  cases hh : (drainAll f m s w).halted with
  | none =>
    obtain ⟨r', inp', hcall, hspent, hr'⟩ := continue_waiting h hr hh
    rw [hcall] at hread
    obtain ⟨rfl, hq⟩ := Prod.mk.inj (Except.ok.inj hread)
    obtain ⟨rfl, rfl⟩ := Prod.mk.inj hq
    exact .inl ⟨rfl, rfl, hspent, rfl, hr'⟩
  | some halt =>
    cases halt with
    | failed e =>
      rw [continue_failed h hr hh] at hread
      cases hread
    | done =>
      by_cases hbody : (drainAll f m s w).state.body.length < 2 ^ 31
      · obtain ⟨q', hcall, hof, hidle, -⟩ := continue_done h hr hh hbody
        rw [hcall] at hread
        obtain ⟨rfl, hq⟩ := Prod.mk.inj (Except.ok.inj hread)
        obtain ⟨rfl, rfl⟩ := Prod.mk.inj hq
        exact .inr ⟨rfl, rfl, rfl, hof, hidle⟩
      · rw [continue_long h hr hh hbody] at hread
        cases hread

theorem Underway.read_body (h : p.Underway mode)
    (hread : p.read_body (Istream.new w) mode = .ok (done, q, out)) :
    done = false ∧ q.Underway mode ∨ done = true ∧ q.body.Idle := by
  obtain ⟨f, m, R, s, hf, hr⟩ := h
  rcases read_body_cases hf hr hread with ⟨-, hdone, -, hlimit, hr'⟩ | ⟨-, hdone, -, -, hidle⟩
  · exact .inl ⟨hdone, f, m, R, _, hlimit ▸ hf, hr'⟩
  · exact .inr ⟨hdone, hidle⟩

/-- A call takes all that there is, and the body is complete with the last byte that is left. -/
theorem EndsOn.read_body (h : p.EndsOn mode content (w ++ left))
    (hread : p.read_body (Istream.new w) mode = .ok (done, q, out)) :
    out.rdbuf = [] ∧ (done = false ∧ q.EndsOn mode content left ∨
      done = true ∧ left = [] ∧ q.body_of mode = .ok content) := by
  obtain ⟨f, m, R, s, hf, hr, hends⟩ := h
  rcases read_body_cases hf hr hread with
    ⟨hh, hdone, hspent, hlimit, hr'⟩ | ⟨hh, hdone, hout, hof, -⟩
  · rw [drainAll_append hf.resumable trivial _ _ hh] at hends
    exact ⟨hspent, .inl ⟨hdone, f, m, R, _, hlimit ▸ hf, hr', hends.of_after⟩⟩
  · rw [drainAll_append_halted hf.resumable trivial _ _ hh] at hends
    rcases hends with ⟨e, hfail⟩ | ⟨-, hrest, hbody⟩
    · cases hh.symm.trans hfail
    · obtain ⟨hrest, hleft⟩ := List.append_eq_nil_iff.mp hrest
      rw [hout, ← hbody]
      exact ⟨hrest, .inr ⟨hdone, hleft, hof⟩⟩

/-- A call leaves the segments of the lines, and the limit. -/
theorem rest_of_read_body (hread : p.read_body inp mode = .ok (done, q, out)) :
    q.lines = p.lines ∧ q.body_size_limit = p.body_size_limit := by
  rcases finish_of_read_body hread with rfl | ⟨r, hfinish⟩
  · exact ⟨rfl, rfl⟩
  · unfold finish_body set_data_for_mode at hfinish
    split at hfinish
    · obtain ⟨msg, -, hfinish⟩ := bind_eq_ok.mp hfinish
      obtain ⟨seg, -, hfinish⟩ := bind_eq_ok.mp hfinish
      obtain ⟨-, rfl⟩ := Prod.mk.inj (Except.ok.inj hfinish)
      split <;> exact ⟨rfl, rfl⟩
    · obtain ⟨-, rfl⟩ := Prod.mk.inj (Except.ok.inj hfinish)
      exact ⟨rfl, rfl⟩

/-! ## First calls -/

/-- The body of a request has an end of its own, or there is none. -/
theorem request_has_end {type : BodySizeType} {size : Nat}
    (h : p.expected_body_size .request = .ok (type, size)) : type ≠ .all := by
  rintro rfl
  unfold expected_body_size at h
  split at h
  · cases h
  · obtain ⟨msg, -, h⟩ := bind_eq_ok.mp h
    split at h
    · cases h
    · split at h
      · obtain ⟨n, -, h⟩ := bind_eq_ok.mp h
        cases h
      · cases h

theorem request_body_begins (hidle : p.body.Idle)
    (hread : p.read_body (Istream.new w) .request = .ok (done, q, out)) :
    done = false ∧ q.Underway .request ∨ done = true ∧ q.body.Idle := by
  have hnew : p.body.state_.mode = .unknown := by
    rw [hidle.state]
    rfl
  cases hframing : p.expected_body_size .request with
  | error e =>
    unfold HttpParser.read_body at hread
    rw [if_pos hnew, hframing] at hread
    cases hread
  | ok framing =>
    obtain ⟨type, size⟩ := framing
    cases type with
    | none =>
      unfold HttpParser.read_body at hread
      rw [if_pos hnew, hframing] at hread
      obtain ⟨rfl, hq⟩ := Prod.mk.inj (Except.ok.inj hread)
      obtain ⟨rfl, -⟩ := Prod.mk.inj hq
      exact .inr ⟨rfl, hidle⟩
    | all => exact absurd rfl (request_has_end hframing)
    | given =>
      have hbegins := (read_body_begins hidle hframing (by decide) (by decide) hread).2
      rw [hbegins] at hread
      exact Underway.read_body ⟨_, _, _, _, given_follows (by decide),
        hidle.reads_given .request (given_lt hframing)⟩ hread
    | chunked =>
      obtain rfl := chunked_size hframing
      have hbegins := (read_body_begins hidle hframing (by decide) (by decide) hread).2
      rw [hbegins] at hread
      exact Underway.read_body ⟨_, _, _, _, chunk_follows (by decide),
        hidle.reads_chunks .request⟩ hread

section

variable {a : Answer} (hmethod : p.exchange_.req_.method_ = a.method)
  (hres : p.exchange_.res_ = some a.final.response)

include hmethod hres

/-- The code sees that a response has no body, but for the codes behind a CONNECT. -/
theorem has_no_body_of_answer
    (hconnect : a.method = .CONNECT → a.final.code / 100 = 2 →
      a.final.code = 200 ∨ a.final.code = 204) :
    p.has_no_body .response =
      bodiless (a.method == .HEAD) (a.method == .CONNECT) a.final.code := by
  have hcode : a.final.code < 2 ^ 31 := Nat.lt_trans a.final.code_.2 (by decide)
  have hstatus : a.final.response.status_ = code_to_status a.final.code := rfl
  have hclass : a.final.response.is_1xx = (a.final.code / 100 == 1) := by
    rw [Response.is_1xx, hstatus, to_size_of_lt hcode]
  have hsame (n : Nat) (hn : n < 2 ^ 31) :
      (a.final.response.status_ == code_to_status n) = (a.final.code == n) := by
    rw [hstatus, Bool.eq_iff_iff, beq_iff_eq, beq_iff_eq]
    exact code_to_status_inj hcode hn
  have hnone : (a.final.response.status_ == Status.no_content) = (a.final.code == 204) :=
    hsame 204 (by decide)
  have hnot : (a.final.response.status_ == Status.not_modified) = (a.final.code == 304) :=
    hsame 304 (by decide)
  have hok : (a.final.response.status_ == Status.ok) = (a.final.code == 200) :=
    hsame 200 (by decide)
  unfold has_no_body bodiless
  simp only [hres, hmethod, hclass, hnone, hnot, hok, reduceCtorEq, if_false]
  rw [Bool.eq_iff_iff]
  simp only [Bool.or_eq_true, Bool.and_eq_true, beq_iff_eq]
  constructor
  · rintro (hbefore | ⟨hcode, hmethod⟩)
    · exact .inl hbefore
    · exact .inr ⟨hmethod, by rw [hcode]⟩
  · rintro (hbefore | ⟨hmethod, hclass⟩)
    · exact .inl hbefore
    · rcases hconnect hmethod hclass with hcode | hcode
      · exact .inr ⟨hcode, hmethod⟩
      · exact .inl (.inl (.inr hcode))

/-- The framing that the code finds for an answer, if it finds one. -/
theorem framing_of_answer {limit : Nat} (hplain : a.Plain limit) {framing : BodySizeType × Nat}
    (h : p.expected_body_size .response = .ok framing) :
    (a.body = .empty ∧ framing = (.none, 0)) ∨
      (∃ content, a.body = .sized content ∧ framing = (.given, content.length)) ∨
      ∃ body, a.body = .chunked body ∧ framing = (.chunked, 0) := by
  have hnobody := has_no_body_of_answer hmethod hres hplain.connect
  have hget : p.get_data_for_mode .response = .ok a.final.response.toMessage := by
    have hresponse : p.exchange_.response = a.final.response := by
      rw [Exchange.response, hres]
      rfl
    rw [← hresponse]
    rfl
  have hframed := a.framed
  have hends := hplain.ends
  have hspelled := hplain.spelled
  unfold expected_body_size at h
  rw [hnobody, hget] at h
  cases hbody : a.body with
  | empty =>
    rw [hbody] at hframed
    rw [if_pos (responseLength_empty hframed)] at h
    exact .inl ⟨rfl, (Except.ok.inj h).symm⟩
  | sized content =>
    rw [hbody] at hframed
    obtain ⟨hnot, hcodings, hlengths, hsame, hnumber⟩ := responseLength_sized hframed
    have hhas : a.final.response.toMessage.has_header (text "Content-Length") = true :=
      (Message.has_header_iff _ _).mpr hlengths
    rw [if_neg (by rw [hnot]; decide)] at h
    simp only [bind, Except.bind, not_chunked_of_no_codings hcodings, Bool.false_eq_true, if_false,
      hhas, if_true] at h
    generalize hsizes : a.final.response.toMessage.get_all_of_header (text "Content-Length") =
      sizes at h
    have hsizes' : lengths a.final.response.toMessage = sizes := hsizes
    rw [hsizes'] at hsame hnumber
    have hlength := content_length_eq sizes
    rw [if_pos hsame, lexical_cast_digits hnumber] at hlength
    cases hcl : content_length sizes with
    | error e =>
      rw [hcl] at h
      cases h
    | ok n =>
      rw [hcl] at h hlength
      have hn : n = content.length := by
        split at hlength
        · rw [Option.bind_some, if_neg (by omega), Int.toNat_natCast] at hlength
          exact Option.some.inj hlength
        · cases hlength
      obtain rfl := Except.ok.inj h
      exact .inr (.inl ⟨content, rfl, by rw [hn]⟩)
  | chunked body =>
    rw [hbody] at hframed hspelled
    rw [if_neg (by rw [responseLength_chunked hframed]; decide)] at h
    simp only [bind, Except.bind, hspelled rfl, if_true] at h
    exact .inr (.inr ⟨body, rfl, (Except.ok.inj h).symm⟩)
  | until_close content =>
    rw [hbody] at hends
    exact absurd rfl hends

/-- The first call for the body of an answer. -/
theorem answer_body_begins (hplain : a.Plain p.body_size_limit) (hidle : p.body.Idle)
    (hw : w ++ left = a.body.encode)
    (hread : p.read_body (Istream.new w) .response = .ok (done, q, out)) :
    out.rdbuf = [] ∧ (done = false ∧ q.EndsOn .response a.body.content left ∨
      done = true ∧ left = [] ∧ q.body_of .response = .ok a.body.content) := by
  have hnew : p.body.state_.mode = .unknown := by
    rw [hidle.state]
    rfl
  cases hframing : p.expected_body_size .response with
  | error e =>
    unfold HttpParser.read_body at hread
    rw [if_pos hnew, hframing] at hread
    cases hread
  | ok framing =>
    rcases framing_of_answer hmethod hres hplain hframing with
      ⟨hbody, rfl⟩ | ⟨content, hbody, rfl⟩ | ⟨body, hbody, rfl⟩
    · rw [hbody] at hw ⊢
      obtain ⟨rfl, rfl⟩ := List.append_eq_nil_iff.mp hw
      unfold HttpParser.read_body at hread
      rw [if_pos hnew, hframing] at hread
      obtain ⟨rfl, hq⟩ := Prod.mk.inj (Except.ok.inj hread)
      obtain ⟨rfl, rfl⟩ := Prod.mk.inj hq
      have hof : p.body_of .response = .ok p.exchange_.response.body_ := rfl
      rw [hof, Exchange.response, hres]
      exact ⟨rfl, .inr ⟨rfl, rfl, congrArg Except.ok (body_add_fields _ _)⟩⟩
    · obtain ⟨hsize, hbegins⟩ := read_body_begins hidle hframing (by decide) (by decide) hread
      rw [hbegins] at hread
      rw [hbody] at hw ⊢
      have hcontent : content.length < 2 ^ 32 := by
        have hbounded := hplain.bounded
        rw [hbody] at hbounded
        exact hbounded.elim (fun hlimit => Nat.lt_of_le_of_lt hsize hlimit) id
      have hends := drainAll_given hcontent []
      have hcut : content ++ [] = w ++ left := (List.append_nil content).trans hw.symm
      rw [hcut] at hends
      exact EndsOn.read_body (p := { p with body := { p.body with
        state_ := ⟨.response, .given, content.length, 0, false, false⟩ } })
        ⟨_, _, _, _, given_follows (by decide), hidle.reads_given .response (given_lt hframing),
          hends⟩ hread
    · obtain ⟨-, hbegins⟩ := read_body_begins hidle hframing (by decide) (by decide) hread
      rw [hbegins] at hread
      have hbounded := hplain.bounded
      rw [hbody] at hw hbounded ⊢
      have hends := @ChunkReader.drainAll_coded p.body_size_limit [] body (by decide) hbounded []
      have hcut : body.encode ++ [] = w ++ left := (List.append_nil body.encode).trans hw.symm
      rw [hcut, List.nil_append] at hends
      exact EndsOn.read_body (p := { p with body := { p.body with
        state_ := ⟨.response, .chunked, 0, 0, false, false⟩ } })
        ⟨_, _, _, _, chunk_follows (by decide), hidle.reads_chunks .response, hends⟩ hread

end

end HttpParser

end proxy.http.http1
