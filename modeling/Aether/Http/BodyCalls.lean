-- Successive calls of `read_body` while a body arrives, and what they come to for
-- a body that the end of the connection delimits.
import Aether.Http.HttpParser

open util.string util.buffer

namespace proxy.http.http1

/-- What successive calls come to: one of them completes the body, and some pieces are still to
arrive, or none does. -/
inductive Progress where
  | complete (p : HttpParser) (left : Text) (ahead : List Text)
  | waiting (p : HttpParser) (left : Text)
  deriving DecidableEq, Repr

namespace HttpParser

/-- A call for each piece that arrives behind what the last call left, up to the one that completes
the body. -/
def read_pieces (mode : MessageMode) : HttpParser → Text → List Text → Except Error Progress
  | p, left, [] => .ok (.waiting p left)
  | p, left, piece :: pieces => do
    let (complete, p, inp) ← p.read_body (Istream.new (left ++ piece)) mode
    if complete then return .complete p inp.rdbuf pieces
    else read_pieces mode p inp.rdbuf pieces

/-- The body of the message of a mode. -/
def body_of (p : HttpParser) (mode : MessageMode) : Except Error Text :=
  (p.get_data_for_mode mode).map Message.body_

/-! ## A call -/

/-- What a call does once the state is set up: it reads, and it finishes a body that is complete. -/
def continue_body (p : HttpParser) (body : BodyReader) (inp : Istream) (mode : MessageMode) :
    Except Error (Bool × HttpParser × Istream) := do
  let (body, inp) ← body.read p.body_size_limit inp
  let (complete, p) ← { p with body := body }.finish_body mode
  return (complete, p, inp)

theorem read_body_first {p : HttpParser} {mode : MessageMode} {type : BodySizeType} {size : Nat}
    (hnew : p.body.state_.mode = .unknown)
    (hsize : p.expected_body_size mode = .ok (type, size)) (htype : type ≠ .none)
    (inp : Istream) :
    p.read_body inp mode =
      p.body.start p.body_size_limit mode type size >>= (p.continue_body · inp mode) := by
  unfold read_body
  rw [if_pos hnew, hsize]
  simp only [bind, Except.bind, if_neg htype]
  rfl

theorem read_body_next {p : HttpParser} {mode : MessageMode}
    (hmode : p.body.state_.mode ≠ .unknown) (inp : Istream) :
    p.read_body inp mode = p.continue_body p.body inp mode := by
  unfold read_body
  rw [if_neg hmode]
  rfl

theorem continue_body_eq_ok {p q : HttpParser} {r : BodyReader} {inp out : Istream}
    {mode : MessageMode} {complete : Bool} :
    p.continue_body r inp mode = .ok (complete, q, out) ↔
      ∃ body, r.read p.body_size_limit inp = .ok (body, out) ∧
        { p with body := body }.finish_body mode = .ok (complete, q) := by
  unfold continue_body
  simp only [bind_eq_ok]
  constructor
  · rintro ⟨⟨body, out'⟩, hread, ⟨complete', q'⟩, hfinish, heq⟩
    obtain ⟨rfl, rfl, rfl⟩ : complete' = complete ∧ q' = q ∧ out' = out := by
      simpa [pure, Except.pure] using heq
    exact ⟨body, hread, hfinish⟩
  · rintro ⟨body, hread, hfinish⟩
    exact ⟨(body, out), hread, (complete, q), hfinish, rfl⟩

/-! ## A body until the end of the connection -/

/-- A call for what is in the buffer behind the head, one for each read, and one for the end of the
connection, which an empty read reports. None but the last completes the body, and it has the bytes
that the server sent. -/
def DeliversAtEof (p : HttpParser) (first : Text) (reads : List Text) : Prop :=
  ∃ q left, p.read_pieces .response [] (first :: reads ++ [[]]) = .ok (.complete q left []) ∧
    q.body_of .response = .ok (first :: reads).flatten

end HttpParser

namespace BodyReader

/-- A reader of such a body between two calls, with the count that its segment has. -/
structure UntilEof (r : BodyReader) (count : Nat) : Prop where
  type : r.state_.type = .all
  mode : r.state_.mode = .response
  going : r.state_.finished = false
  count : r.body_buf_.num_bytes_read_last_ = count

theorem read_all_count (seg : CountedSegment) (inp : Istream) :
    (seg.read_all inp).1.num_bytes_read_last_ = seg.num_bytes_read_last_ := by
  unfold CountedSegment.read_all
  split <;> rfl

/-- Such a call does not look at the bytes: the count of some earlier read decides. -/
theorem UntilEof.read {r : BodyReader} {count limit : Nat} (h : r.UntilEof count) (inp : Istream)
    {s : BodyReader} {out : Istream} (hread : r.read limit inp = .ok (s, out)) :
    s.state_.finished = decide (count = 0) ∧ (0 < count → s.UntilEof count) := by
  unfold BodyReader.read at hread
  rw [h.type] at hread
  simp only [read_until_eof] at hread
  split at hread
  · cases hread
  · obtain ⟨rfl, rfl⟩ := Prod.mk.inj (Except.ok.inj hread)
    have hcount : (r.body_buf_.read_all inp).1.mark_as_incomplete.bytes_last_read = count := by
      rw [← h.count]
      exact read_all_count r.body_buf_ inp
    have hfinished : (r.state_.finished ||
        (r.body_buf_.read_all inp).1.mark_as_incomplete.bytes_last_read == 0) =
        decide (count = 0) := by
      rw [hcount, h.going]
      simp [Bool.beq_eq_decide_eq]
    refine ⟨hfinished, fun hpos => ⟨h.type, h.mode, ?_, hcount⟩⟩
    rw [hfinished]
    exact decide_eq_false (by omega)

end BodyReader

namespace HttpParser

/-- A call for such a body completes it exactly if the count is zero. -/
theorem continue_until_eof {p q : HttpParser} {r : BodyReader} {count : Nat} (h : r.UntilEof count)
    {inp out : Istream} {complete : Bool}
    (hcall : p.continue_body r inp .response = .ok (complete, q, out)) :
    complete = decide (count = 0) ∧ (0 < count → q.body.UntilEof count) := by
  obtain ⟨body, hread, hfinish⟩ := continue_body_eq_ok.mp hcall
  obtain ⟨hfinished, hnext⟩ := h.read inp hread
  unfold finish_body at hfinish
  by_cases hzero : count = 0
  · rw [decide_eq_true hzero] at hfinished ⊢
    rw [if_pos hfinished] at hfinish
    obtain ⟨msg, -, hfinish⟩ := bind_eq_ok.mp hfinish
    obtain ⟨buf, -, hfinish⟩ := bind_eq_ok.mp hfinish
    obtain ⟨rfl, -⟩ := Prod.mk.inj (Except.ok.inj hfinish)
    exact ⟨rfl, fun hpos => absurd hzero (by omega)⟩
  · rw [decide_eq_false hzero] at hfinished ⊢
    rw [if_neg (by rw [hfinished]; decide)] at hfinish
    obtain ⟨rfl, rfl⟩ := Prod.mk.inj (Except.ok.inj hfinish)
    exact ⟨rfl, hnext⟩

/-- With another count than zero no call completes the body. -/
theorem read_pieces_until_eof {p : HttpParser} {count : Nat} (h : p.body.UntilEof count)
    (hcount : 0 < count) (left : Text) (pieces : List Text) (q : HttpParser) (rest : Text)
    (ahead : List Text) :
    p.read_pieces .response left pieces ≠ .ok (.complete q rest ahead) := by
  induction pieces generalizing p left with
  | nil => simp [read_pieces]
  | cons piece pieces ih =>
    intro hrun
    rw [read_pieces, read_body_next (by rw [h.mode]; decide)] at hrun
    obtain ⟨⟨complete, p', inp⟩, hcall, hrun⟩ := bind_eq_ok.mp hrun
    obtain ⟨rfl, hnext⟩ := continue_until_eof h hcall
    rw [decide_eq_false (by omega)] at hrun
    exact ih (hnext hcount) _ hrun

/-- No body that the end of the connection delimits is delivered as it should be: if the last read
of the segment before took bytes, no call completes the body, and else the first call does, before
the end of the connection. -/
theorem no_body_is_delivered_at_eof (p : HttpParser) (first : Text) (reads : List Text)
    (hnew : p.body.state_.mode = .unknown)
    (hsize : p.expected_body_size .response = .ok (.all, 0)) :
    ¬ p.DeliversAtEof first reads := by
  rintro ⟨q, left, hrun, -⟩
  rw [List.cons_append, read_pieces, read_body_first hnew hsize (by decide)] at hrun
  obtain ⟨⟨complete, p', inp⟩, hcall, hrun⟩ := bind_eq_ok.mp hrun
  obtain ⟨r, hstart, hcall⟩ := bind_eq_ok.mp hcall
  have hr : r.UntilEof p.body.body_buf_.num_bytes_read_last_ := by
    unfold BodyReader.start at hstart
    split at hstart
    · cases hstart
    · obtain rfl := Except.ok.inj hstart
      exact ⟨rfl, rfl, rfl, rfl⟩
  obtain ⟨rfl, hnext⟩ := continue_until_eof hr hcall
  by_cases hzero : p.body.body_buf_.num_bytes_read_last_ = 0
  · -- The pieces behind the first are still to arrive.
    rw [decide_eq_true hzero] at hrun
    obtain ⟨-, -, hahead⟩ := Progress.complete.inj (Except.ok.inj hrun)
    simp at hahead
  · rw [decide_eq_false hzero] at hrun
    exact read_pieces_until_eof (hnext (by omega)) (by omega) _ _ q left [] hrun

/-- A request and the head of its response, as the service has the parser read them. -/
def read_exchange (p : HttpParser) (request response : Text) : Except Error HttpParser := do
  let (p, inp) ← p.read_request_line (Istream.new request)
  let (p, inp) ← p.read_headers inp .request
  let (_, p, _) ← p.read_body (Istream.new inp.rdbuf) .request
  let p := { p with exchange_ := p.exchange_.make_response }
  let (p, inp) ← p.read_response_line (Istream.new response)
  let (p, _) ← p.read_headers inp .response
  return p

def a_post : Text := text "POST / HTTP/1.1\r\nContent-Length: 5\r\n\r\nhello"

def a_get : Text := text "GET / HTTP/1.1\r\n\r\n"

def a_response : Text := text "HTTP/1.1 200 OK\r\n\r\n"

theorem no_body_is_delivered_at_eof_after_a_get :
    ∃ p, (new 4097 .new).read_exchange a_get a_response = .ok p ∧
      ¬ p.DeliversAtEof [] [text "abc"] := by
  refine ⟨_, rfl, ?_⟩
  exact no_body_is_delivered_at_eof _ _ _ (by decide) (by decide)

/-- After a request with a body the response is not complete even at the end of the connection. -/
theorem a_body_until_eof_is_never_complete :
    ∃ p, (new 4097 .new).read_exchange a_post a_response = .ok p ∧
      ¬ p.DeliversAtEof [] [text "abc"] := by
  refine ⟨_, rfl, ?_⟩
  rintro ⟨q, left, hrun, -⟩
  cases hrun

end HttpParser

end proxy.http.http1
