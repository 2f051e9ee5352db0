-- A message that the parser has accepted is printed, and a new parser reads what was
-- printed: when that is the same message, to the last byte.
import Aether.Http.AcceptedHeads

open util.string util.buffer lib.rfc7230 lib.numerals

namespace proxy.http.http1.HttpParser

/-- What is printed is read to its last byte, and is the same message of the same exchange. -/
def ReadsBack (limit : Nat) (e : Exchange) (mode : MessageMode) (p : HttpParser) : Prop :=
  ∃ q, (fresh limit e mode).read_message mode (p.print mode) [] = .ok (.complete q [] []) ∧
    q.exchange_ = p.exchange_

/-- The lines of the fields can be reset from. A message without a body has no token for chunks, a
size is an `int`, and a body in chunks is not empty. -/
structure PrintsAgain (msg : Message) (framing : BodySizeType × Nat) : Prop where
  lines : ∀ f ∈ msg.headers_.fields, (Request.field_line f).length < 2 ^ 31
  none : framing.1 = .none → msg.chunked = false
  given : framing.1 = .given → framing.2 < 2 ^ 31
  chunked : framing.1 = .chunked → msg.body_ ≠ []

section

variable {p q : HttpParser} {mode : MessageMode}

/-! ## Bodies -/

theorem expected_body_size_of_exchange (h : p.exchange_ = q.exchange_) :
    p.expected_body_size mode = q.expected_body_size mode := by
  obtain ⟨limit, exchange, lines, body⟩ := p
  obtain ⟨limit', exchange', lines', body'⟩ := q
  obtain rfl : exchange = exchange' := h
  rfl

/-- The framing does not look at the body. -/
theorem expected_body_size_of_sets {limit : Nat} {e : Exchange} (h : Begun limit e mode q)
    {body : Text} (hsets : SetsBody q mode body p) :
    p.expected_body_size mode = q.expected_body_size mode := by
  rw [expected_body_size_of_exchange hsets]
  by_cases hmode : mode = .request
  · subst hmode
    rfl
  · obtain ⟨res, hres⟩ : ∃ res, q.exchange_.res_ = some res := by
      rw [h.response hmode]
      exact ⟨_, rfl⟩
    obtain ⟨limit', ⟨req, res', mask⟩, lines, reader⟩ := q
    obtain rfl : res' = some res := hres
    cases mode with
    | unknown => rfl
    | request => exact absurd rfl hmode
    | response => rfl

/-- Calls that complete the body of a head set the body of its message. -/
theorem Head.sets {limit : Nat} {e : Exchange} (h : Head limit e mode q) {pieces : List Text}
    {left : Text} {ahead : List Text}
    (hrun : q.read_pieces mode [] pieces = .ok (.complete p left ahead)) :
    ∃ body, SetsBody q mode body p ∧ p.body_of mode = .ok body := by
  obtain ⟨body, hsets⟩ : ∃ body, SetsBody q mode body p := by
    rcases exchange_of_read_pieces hrun with hsame | hsets
    · exact ⟨(q.message mode).body_, hsame.trans h.toBegun.set_data_self.symm⟩
    · exact hsets
  refine ⟨body, hsets, ?_⟩
  unfold body_of
  rw [get_data_message h.known, message_of_exchange hsets, message_set_data]
  rfl

/-- A message without a body is complete with its head. -/
theorem Head.read_no_body {limit : Nat} {e : Exchange} (h : Head limit e mode q) {size : Nat}
    (hframing : q.expected_body_size mode = .ok (.none, size)) (piece : Text) (reads : List Text) :
    q.read_pieces mode [] (piece :: reads) = .ok (.complete q piece reads) := by
  have hcall : q.read_body (Istream.new piece) mode = .ok (true, q, Istream.new piece) := by
    unfold read_body
    rw [if_pos (by rw [h.idle.state]; rfl), hframing]
    rfl
  rw [read_pieces, List.nil_append, hcall]
  rfl

/-- A message that was read is a head, and a body within the bounds that are checked. -/
theorem accepted_message {limit : Nat} {e : Exchange} {first : Text} {reads : List Text}
    {left : Text} {ahead : List Text} {type : BodySizeType} {size : Nat}
    (h : (fresh limit e mode).read_message mode first reads = .ok (.complete p left ahead))
    (hframing : p.expected_body_size mode = .ok (type, size)) (hall : type ≠ .all) :
    ∃ q body, Head limit e mode q ∧ q.expected_body_size mode = .ok (type, size) ∧
      SetsBody q mode body p ∧ (type = .none → body = []) ∧ body.length < 2 ^ 31 ∧
      (type = .chunked → body.length ≤ limit) ∧
      (type = .given → size ≤ limit ∧ (size < 2 ^ 31 → body.length = size)) := by
  obtain ⟨⟨p₁, inp⟩, hline, h⟩ := bind_eq_ok.mp h
  obtain ⟨⟨q, out⟩, hheaders, h⟩ := bind_eq_ok.mp h
  obtain ⟨hhead, rest, rfl⟩ := head_of_fresh hline hheaders
  have hrun : q.read_pieces mode [] (rest :: reads) = .ok (.complete p left ahead) := by
    have h : q.read_pieces mode rest ([] :: reads) = .ok (.complete p left ahead) := h
    rw [read_pieces, List.append_nil] at h
    rw [read_pieces, List.nil_append]
    exact h
  obtain ⟨body, hsets, hof⟩ := hhead.sets hrun
  have hq : q.expected_body_size mode = .ok (type, size) := by
    rw [← expected_body_size_of_sets hhead.toBegun hsets]
    exact hframing
  by_cases hnone : type = .none
  · subst hnone
    rw [hhead.read_no_body hq] at hrun
    obtain ⟨rfl, -, -⟩ := Progress.complete.inj (Except.ok.inj hrun)
    obtain rfl : [] = body := by
      rw [← hhead.bare, message_of_exchange hsets, message_set_data]
    exact ⟨q, [], hhead, hq, hsets, fun _ => rfl, by decide, fun hc => (by cases hc),
      fun hg => (by cases hg)⟩
  · obtain ⟨body', hof', hshort, hlimit, hgiven⟩ := accepted_body hhead.idle hq hnone hall hrun
    obtain rfl : body' = body := Except.ok.inj (hof'.symm.trans hof)
    rw [hhead.limit] at hlimit hgiven
    exact ⟨q, body', hhead, hq, hsets, fun hn => absurd hn hnone, hshort, fun _ => hlimit,
      fun hg => ⟨(hgiven hg).1, (hgiven hg).2.2⟩⟩

/-! ## Bodies again -/

/-- A body as one chunk. -/
def one_chunk (body : Text) (h : body ≠ []) : ChunkedBody where
  chunks := [⟨hexadecimal body.length, body, (hexadecimal_numeral body.length).1,
    (hexadecimal_numeral body.length).2, h⟩]
  last := text "0"
  zeros := last_zero

/-- A body without a chunk. -/
def no_chunk : ChunkedBody where
  chunks := []
  last := text "0"
  zeros := last_zero

theorem print_one_chunk {msg : Message} (hchunked : msg.chunked = true) (h : msg.body_ ≠ []) :
    msg.print_body = (one_chunk msg.body_ h).encode := by
  unfold Message.print_body
  rw [if_pos hchunked]
  simp [ChunkedBody.encode, one_chunk, Chunk.encode, crlf, Message.CRLF]

/-- The chunk of a body that is empty is the last chunk. -/
theorem print_no_chunk {msg : Message} (hchunked : msg.chunked = true) (h : msg.body_ = []) :
    msg.print_body = no_chunk.encode ++ text "0\r\n\r\n" := by
  unfold Message.print_body
  rw [if_pos hchunked, h]
  decide

theorem one_chunk_lines {body : Text} (h : body ≠ []) (hlen : body.length < 2 ^ 31) :
    ∀ l ∈ (one_chunk body h).sizeLines, l.length < 2 ^ 31 := by
  have hsize : (hexadecimal body.length).length ≤ 8 := by
    unfold hexadecimal
    rw [List.length_map]
    exact length_numeral_le (by decide) (by decide) (Nat.lt_of_lt_of_le hlen (by decide))
  intro l hl
  simp only [ChunkedBody.sizeLines, one_chunk, List.map_cons, List.map_nil, List.cons_append,
    List.nil_append, List.mem_cons, List.not_mem_nil, or_false] at hl
  rcases hl with rfl | rfl
  · omega
  · decide

theorem SetsBody.of_exchange {q' : HttpParser} {body : Text} (hsets : SetsBody q mode body p)
    (hsame : q'.exchange_ = q.exchange_) : SetsBody q' mode body p := by
  refine hsets.trans ?_
  rw [message_of_exchange hsame]
  unfold set_data_for_mode
  split <;> simp only [hsame]

/-- A message is the same again if its body is. -/
theorem delivers_again {limit : Nat} {e : Exchange} {q' : HttpParser} {body : Text}
    (h : Head limit e mode q') (hsets : SetsBody q' mode body p) (printed : Text) :
    (∃ r, q'.read_pieces mode [] [printed] = .ok (.complete r [] []) ∧
      r.exchange_ = p.exchange_) ↔ q'.DeliversWithLast mode [] printed [] body [] := by
  constructor
  · rintro ⟨r, hrun, hexchange⟩
    obtain ⟨body', hr, hof⟩ := h.sets hrun
    obtain rfl : body' = body := by
      have hmessage : r.message mode = p.message mode := message_of_exchange hexchange
      rw [message_of_exchange hr, message_of_exchange hsets, message_set_data,
        message_set_data] at hmessage
      exact congrArg Message.body_ hmessage
    exact ⟨r, hrun, hof⟩
  · rintro ⟨r, hrun, hof⟩
    obtain ⟨body', hr, hof'⟩ := h.sets hrun
    obtain rfl : body' = body := Except.ok.inj (hof'.symm.trans hof)
    exact ⟨r, hrun, hr.trans hsets.symm⟩
/-! ## Messages again -/

/-- Only a body in chunks has the token that the framing looks for. -/
theorem chunked_of_framing {limit : Nat} {e : Exchange} (h : Head limit e mode q)
    {type : BodySizeType} {size : Nat} (hframing : q.expected_body_size mode = .ok (type, size)) :
    (type = .given → (q.message mode).chunked = false) ∧
      (type = .chunked → (q.message mode).chunked = true) := by
  unfold expected_body_size at hframing
  split at hframing
  · obtain ⟨rfl, -⟩ := Prod.mk.inj (Except.ok.inj hframing)
    exact ⟨fun hg => (by cases hg), fun hc => (by cases hc)⟩
  · rw [get_data_message h.known] at hframing
    simp only [bind, Except.bind] at hframing
    split at hframing
    · rename_i hchunked
      obtain ⟨rfl, -⟩ := Prod.mk.inj (Except.ok.inj hframing)
      exact ⟨fun hg => (by cases hg), fun _ => hchunked⟩
    · rename_i hchunked
      refine ⟨fun _ => Bool.eq_false_iff.mpr hchunked, ?_⟩
      rintro rfl
      exfalso
      split at hframing
      · split at hframing <;> cases hframing
      · split at hframing <;> cases hframing

/-- A message that gets a body, and that has none in front of it. -/
theorem print_plain {body : Text} (hsets : SetsBody q mode body p)
    (hnot : (q.message mode).chunked = false) : (p.message mode).print_body = body := by
  have hplain : ({ q.message mode with body_ := body } : Message).chunked = false := hnot
  rw [message_of_exchange hsets, message_set_data]
  unfold Message.print_body
  rw [hplain, if_neg (by decide)]

/-- Without a body nothing is left to read exactly if nothing is printed. -/
theorem none_again_iff {limit : Nat} {e : Exchange} (h : Head limit e mode q) {size : Nat}
    (hframing : q.expected_body_size mode = .ok (.none, size)) (hsets : SetsBody q mode [] p) :
    q.DeliversWithLast mode [] (p.message mode).print_body [] [] [] ↔
      (q.message mode).chunked = false := by
  have hmessage : p.message mode = { q.message mode with body_ := [] } := by
    rw [message_of_exchange hsets, message_set_data]
  unfold DeliversWithLast
  rw [List.nil_append, h.read_no_body hframing]
  constructor
  · rintro ⟨r, hrun, -⟩
    have hempty : (p.message mode).print_body = [] :=
      (Progress.complete.inj (Except.ok.inj hrun)).2.1
    by_contra htoken
    have hchunked : (p.message mode).chunked = true := by
      rw [hmessage]
      exact Bool.eq_true_of_not_eq_false htoken
    rw [print_no_chunk hchunked (by rw [hmessage])] at hempty
    exact absurd hempty (by decide)
  · intro hnot
    refine ⟨q, by rw [print_plain hsets hnot], ?_⟩
    unfold body_of
    rw [get_data_message h.known, ← h.bare]
    rfl

/-- A body of a given size is there again exactly if the size is an `int`: with a larger size less
was read than is asked for. -/
theorem given_again_iff {limit : Nat} {e : Exchange} (h : Head limit e mode q) {body : Text}
    {size : Nat} (hframing : q.expected_body_size mode = .ok (.given, size))
    (hsets : SetsBody q mode body p) (hshort : body.length < 2 ^ 31) (hlimit : size ≤ limit)
    (hsize : size < 2 ^ 31 → body.length = size) :
    q.DeliversWithLast mode [] (p.message mode).print_body [] body [] ↔ size < 2 ^ 31 := by
  rw [print_plain hsets ((chunked_of_framing h hframing).1 rfl)]
  constructor
  · rintro ⟨r, hrun, -⟩
    obtain ⟨_, -, -, -, hfew⟩ := accepted_body h.idle hframing (by decide) (by decide) hrun
    have hlen : size ≤ body.length := by simpa using (hfew rfl).2.1
    omega
  · intro hsmall
    obtain rfl := hsize hsmall
    refine (sized_delivers_iff h.idle hframing ?_ (.inl rfl) ?_).mpr hshort
    · rw [h.limit]
      exact hlimit
    · exact (List.append_nil body).symm

/-- A body in chunks is there again exactly if it is not empty: what is printed for an empty chunk
ends the body, and the last chunk is left. -/
theorem chunked_again_iff {limit : Nat} {e : Exchange} (h : Head limit e mode q) {body : Text}
    {size : Nat} (hframing : q.expected_body_size mode = .ok (.chunked, size))
    (hsets : SetsBody q mode body p) (hshort : body.length < 2 ^ 31)
    (hlimit : body.length ≤ limit) :
    q.DeliversWithLast mode [] (p.message mode).print_body [] body [] ↔ body ≠ [] := by
  obtain rfl := chunked_size hframing
  have hmessage : p.message mode = { q.message mode with body_ := body } := by
    rw [message_of_exchange hsets, message_set_data]
  have hbody : (p.message mode).body_ = body := by rw [hmessage]
  have hchunked : (p.message mode).chunked = true := by
    rw [hmessage]
    exact (chunked_of_framing h hframing).2 rfl
  by_cases hempty : body = []
  · subst hempty
    refine ⟨fun hagain => ?_, fun hne => absurd rfl hne⟩
    exfalso
    rw [print_no_chunk hchunked hbody] at hagain
    obtain ⟨r, hrun, -⟩ := hagain
    obtain ⟨r', hrun', -⟩ := (@chunked_delivers_iff q mode []
      (no_chunk.encode ++ text "0\r\n\r\n") [] (text "0\r\n\r\n") no_chunk h.idle hframing
      (Nat.zero_le _) (.inl rfl) rfl).mpr ⟨by decide, by decide⟩
    rw [hrun'] at hrun
    exact absurd (Progress.complete.inj (Except.ok.inj hrun)).2.1 (by decide)
  · refine ⟨fun _ => hempty, fun _ => ?_⟩
    have hcontent : (one_chunk body hempty).content = body := List.append_nil body
    have hprint : (p.message mode).print_body = (one_chunk body hempty).encode := by
      have hne : (p.message mode).body_ ≠ [] := by rw [hbody]; exact hempty
      rw [print_one_chunk hchunked hne]
      simp only [hbody]
    have hagain := (@chunked_delivers_iff q mode [] _ [] [] _ h.idle hframing
      (by rw [hcontent, h.limit]; exact hlimit) (.inl rfl) (List.append_nil _).symm).mpr
        ⟨by rw [hcontent]; exact hshort, one_chunk_lines hempty hshort⟩
    rw [hcontent] at hagain
    rw [hprint]
    exact hagain

/-- What is printed of the body of a message is read as that body, to the last byte, under the
conditions on the framing. -/
theorem body_again_iff {limit : Nat} {e : Exchange} (h : Head limit e mode q) {body : Text}
    {type : BodySizeType} {size : Nat} (hframing : q.expected_body_size mode = .ok (type, size))
    (hall : type ≠ .all) (hsets : SetsBody q mode body p) (hnone : type = .none → body = [])
    (hshort : body.length < 2 ^ 31) (hchunked : type = .chunked → body.length ≤ limit)
    (hgiven : type = .given → size ≤ limit ∧ (size < 2 ^ 31 → body.length = size)) :
    q.DeliversWithLast mode [] (p.message mode).print_body [] body [] ↔
      (type = .none → (q.message mode).chunked = false) ∧ (type = .given → size < 2 ^ 31) ∧
        (type = .chunked → body ≠ []) := by
  cases type with
  | none =>
    obtain rfl := hnone rfl
    rw [none_again_iff h hframing hsets]
    simp
  | given =>
    rw [given_again_iff h hframing hsets hshort (hgiven rfl).1 (hgiven rfl).2]
    simp
  | chunked =>
    rw [chunked_again_iff h hframing hsets hshort (hchunked rfl)]
    simp
  | all => exact absurd rfl hall

/-- The first line does not show the body. -/
theorem print_line_of_sets {body : Text} (h : SetsBody q mode body p) :
    p.print_line mode = q.print_line mode := by
  unfold print_line
  rw [h]
  unfold set_data_for_mode message
  by_cases hmode : mode = .request
  · simp only [if_pos hmode]
    rfl
  · simp only [if_neg hmode]
    rfl

/-- An accepted message with a body that has an end of its own, a request with a target in
`origin` form or a response to any request, is printed as itself exactly if its fields still fit
their lines, it has no token for chunks where it has no body, its size is an `int`, and its chunks
are not without data. -/
theorem an_accepted_message_reads_back_iff {limit : Nat} {e : Exchange} {first : Text}
    {reads : List Text} {left : Text} {ahead : List Text} {framing : BodySizeType × Nat}
    (haccepted : (fresh limit e mode).read_message mode first reads =
      .ok (.complete p left ahead))
    (hform : mode = .request → p.exchange_.req_.target_.form = .origin)
    (hframing : p.expected_body_size mode = .ok framing) (hall : framing.1 ≠ .all) :
    ReadsBack limit e mode p ↔ PrintsAgain (p.message mode) framing := by
  obtain ⟨type, size⟩ := framing
  obtain ⟨q, body, hhead, hqframing, hsets, hnone, hshort, hchunked, hgiven⟩ :=
    accepted_message haccepted hframing hall
  have hmessage : p.message mode = { q.message mode with body_ := body } := by
    rw [message_of_exchange hsets, message_set_data]
  have hfields : (p.message mode).headers_ = (q.message mode).headers_ := by rw [hmessage]
  have hbody : (p.message mode).body_ = body := by rw [hmessage]
  have htoken : (p.message mode).chunked = (q.message mode).chunked := by
    rw [hmessage]
    rfl
  have htarget : mode = .request → q.exchange_.req_.target_.form = .origin := by
    rintro rfl
    rw [← hform rfl, hsets]
    rfl
  have hprint : p.print mode = q.print_line mode ++
      ((q.message mode).headers_.fields.flatMap Message.print_field ++
        (Message.CRLF ++ (p.message mode).print_body)) := by
    rw [print_eq, print_line_of_sets hsets, hfields]
  unfold ReadsBack
  rw [hprint]
  by_cases hlines : ∀ f ∈ (q.message mode).headers_.fields, (Request.field_line f).length < 2 ^ 31
  · obtain ⟨q', hhead', hsame, hagain⟩ :=
      head_again hhead htarget hlines (p.message mode).print_body []
    have hframing' : q'.expected_body_size mode = .ok (type, size) := by
      rw [expected_body_size_of_exchange hsame]
      exact hqframing
    have hsets' := hsets.of_exchange hsame
    rw [hagain, delivers_again hhead' hsets', body_again_iff hhead' hframing' hall hsets' hnone
      hshort hchunked hgiven]
    rw [message_of_exchange hsame, ← htoken, ← hbody]
    constructor
    · rintro ⟨htoken, hsize, hdata⟩
      exact ⟨by rw [hfields]; exact hlines, htoken, hsize, hdata⟩
    · rintro ⟨-, htoken, hsize, hdata⟩
      exact ⟨htoken, hsize, hdata⟩
  · rw [head_long hhead htarget hlines]
    constructor
    · rintro ⟨r, hrun, -⟩
      cases hrun
    · rintro ⟨hfit, -, -, -⟩
      rw [hfields] at hfit
      exact absurd hfit hlines

end

/-- A size within the bounds. -/
theorem a_post_reads_back_iff :
    ∃ p, (fresh 4097 .new .request).read_message .request a_post [] = .ok (.complete p [] []) ∧
      (ReadsBack 4097 .new .request p ↔ PrintsAgain (p.message .request) (.given, 5)) := by
  refine ⟨_, rfl, ?_⟩
  have haccepted : (fresh 4097 .new .request).read_message .request a_post [] =
      .ok (.complete _ [] []) := rfl
  exact an_accepted_message_reads_back_iff haccepted (by decide) (by decide) (by decide)

def a_post_in_chunks : Text := text "POST / HTTP/1.1\r\nTransfer-Encoding: chunked\r\n\r\n0\r\n\r\n"

/-- The last chunk is left. -/
theorem an_empty_body_in_chunks_does_not_read_back :
    ∃ p, (fresh 4097 .new .request).read_message .request a_post_in_chunks [] =
        .ok (.complete p [] []) ∧
      p.exchange_.req_.target_.form = .origin ∧
      p.expected_body_size .request = .ok (.chunked, 0) ∧
      ¬ ReadsBack 4097 .new .request p := by
  refine ⟨_, rfl, by decide, by decide, ?_⟩
  rintro ⟨q, hrun, -⟩
  cases hrun

end proxy.http.http1.HttpParser
