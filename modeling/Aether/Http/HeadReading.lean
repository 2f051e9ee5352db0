-- How the parser cuts a head: the parts of its first line at two spaces, and its
-- lines at their ends.
import Aether.Http.HttpParser
import Aether.Util.StreamReads

open util.string util.buffer lib.lines

namespace util.buffer.CountedSegment

/-! ## A part of a line -/

section

variable {delim : UInt8} {seg : CountedSegment} {w piece rest : Text}

theorem read_piece (ho : seg.Open []) (h : delim ∉ piece) :
    ∃ s : CountedSegment, s.Full piece ∧
      seg.read_until (Istream.new (piece ++ delim :: rest)) delim = (s, Istream.new rest) := by
  refine ⟨⟨⟨true, piece, []⟩, piece.length⟩, ⟨rfl, rfl, rfl⟩, ?_⟩
  unfold read_until
  rw [if_neg (by rw [ho.open_]; decide), getline_found h, ho.held]
  rfl

theorem read_no_piece (ho : seg.Open []) (h : delim ∉ w) :
    (seg.read_until (Istream.new w) delim).1.is_complete_ = false := by
  unfold read_until
  rw [if_neg (by rw [ho.open_]; decide), getline_missed h]
  simp [Istream.ok]

/-- A read that completes an open segment has taken its delimiter. -/
theorem read_until_complete {s : CountedSegment} {inp : Istream} (ho : seg.Open [])
    (hread : seg.read_until (Istream.new w) delim = (s, inp)) (hfull : s.is_complete_ = true) :
    ∃ piece rest, w = piece ++ delim :: rest ∧ delim ∉ piece ∧ s.Full piece ∧
      inp = Istream.new rest := by
  by_cases hmem : delim ∈ w
  · obtain ⟨piece, rest, rfl, hnot⟩ := List.eq_append_cons_of_mem hmem
    obtain ⟨s', hs', hread'⟩ := @read_piece delim seg piece rest ho hnot
    obtain ⟨rfl, rfl⟩ := Prod.mk.inj (hread.symm.trans hread')
    exact ⟨piece, rest, rfl, hnot, hs', rfl⟩
  · have hnone := read_no_piece ho hmem
    rw [hread, hfull] at hnone
    cases hnone

theorem read_line_complete {a b : UInt8} {s : CountedSegment} {inp : Istream} (ho : seg.Open [])
    (hread : seg.read_until_string (Istream.new w) [a, b] = (s, inp))
    (hfull : s.is_complete_ = true) :
    ∃ line rest, cut a b w = some (line, rest) ∧ s.Full line ∧ inp = Istream.new rest := by
  cases hcut : cut a b w with
  | none =>
    obtain ⟨s', inp', hs', -, hread'⟩ := read_no_line (w := w) ho hcut
    obtain ⟨rfl, rfl⟩ := Prod.mk.inj (hread.symm.trans hread')
    rw [hs'.open_] at hfull
    cases hfull
  | some p =>
    obtain ⟨s', hs', hread'⟩ := read_line ho rfl hcut
    obtain ⟨rfl, rfl⟩ := Prod.mk.inj (hread.symm.trans hread')
    exact ⟨p.1, p.2, rfl, hs', rfl⟩

theorem Full.view {s : CountedSegment} {c : Text} (h : s.Full c) : s.string_view = c := h.held

theorem Full.reset_ok {s s' : CountedSegment} {c : Text} (hs : s.Full c)
    (h : s.reset = .ok s') : s'.Open [] ∧ c.length < 2 ^ 31 := by
  unfold reset at h
  rw [hs.held] at h
  split at h
  · rename_i hlen
    obtain rfl := Except.ok.inj h
    exact ⟨⟨rfl, rfl, rfl⟩, hlen⟩
  · cases h

end

end util.buffer.CountedSegment

namespace proxy.http.http1.HttpParser

/-! ## The line of a request -/

/-- What the three parts of a line make of a request. -/
def line_of (req : Request) (method target version : Text) : Except Error Request := do
  let verb ← string_to_method method
  let vers ← string_to_version version
  let target ← Url.parse_target target verb
  return { req with method_ := verb, version_ := vers, target_ := target }

/-- The segments for the lines are empty. -/
structure LinesOpen (lines : LineSegments) : Prop where
  request_method : lines.request_method_buf_.Open []
  request_target : lines.request_target_buf_.Open []
  request_version : lines.request_version_buf_.Open []
  response_version : lines.response_version_buf_.Open []
  response_code : lines.response_code_buf_.Open []
  response_msg : lines.response_msg_buf_.Open []
  header : lines.header_buf_.Open []

theorem linesOpen_new : LinesOpen .new := by
  constructor <;> exact CountedSegment.open_new

section

variable {p q : HttpParser} {w method target version rest : Text} {inp : Istream}

/-- A line with its two spaces. -/
def request_line (method target version : Text) : Text :=
  method ++ Message.SP :: (target ++ Message.SP :: (version ++ Message.CRLF))

theorem read_request_line_ok (ho : LinesOpen p.lines)
    (h : p.read_request_line (Istream.new w) = .ok (q, inp)) :
    ∃ method target version rest req, w = request_line method target version ++ rest ∧
      Message.SP ∉ method ∧ Message.SP ∉ target ∧ target.length < 2 ^ 31 ∧
      cut 13 10 version = none ∧ line_of p.exchange_.req_ method target version = .ok req ∧
      q.exchange_ = p.exchange_.set_request req ∧ LinesOpen q.lines ∧ q.body = p.body ∧
      q.body_size_limit = p.body_size_limit ∧ inp = Istream.new rest := by
  unfold read_request_line at h
  split at h
  rename_i method_buf inp1 hread1
  split at h
  · cases h
  rename_i hfull1
  obtain ⟨method, rest1, rfl, hmethod, hs1, rfl⟩ :=
    CountedSegment.read_until_complete ho.request_method hread1 (by simpa using hfull1)
  split at h
  rename_i target_buf inp2 hread2
  split at h
  · cases h
  rename_i hfull2
  obtain ⟨target, rest2, rfl, htarget, hs2, rfl⟩ :=
    CountedSegment.read_until_complete ho.request_target hread2 (by simpa using hfull2)
  split at h
  rename_i version_buf inp3 hread3
  split at h
  · cases h
  rename_i hfull3
  obtain ⟨version, rest, hversion, hs3, rfl⟩ :=
    CountedSegment.read_line_complete ho.request_version hread3 (by simpa using hfull3)
  obtain ⟨verb, hverb, h⟩ := bind_eq_ok.mp h
  obtain ⟨vers, hvers, h⟩ := bind_eq_ok.mp h
  obtain ⟨url, hurl, h⟩ := bind_eq_ok.mp h
  obtain ⟨seg1, hseg1, h⟩ := bind_eq_ok.mp h
  obtain ⟨seg2, hseg2, h⟩ := bind_eq_ok.mp h
  obtain ⟨seg3, hseg3, h⟩ := bind_eq_ok.mp h
  obtain ⟨rfl, rfl⟩ := Prod.mk.inj (Except.ok.inj h)
  rw [hs1.view] at hverb
  rw [hs2.view] at hurl
  rw [hs3.view] at hvers
  refine ⟨method, target, version, rest, _, ?_, hmethod, htarget, (hs2.reset_ok hseg2).2,
    line_of_cut hversion, ?_, rfl, ?_, rfl, rfl, rfl⟩
  · simp [request_line, Message.CRLF, eq_of_cut hversion]
  · simp only [line_of, hverb, hvers, hurl, bind, Except.bind, pure, Except.pure]
  · exact { ho with
      request_method := (hs1.reset_ok hseg1).1
      request_target := (hs2.reset_ok hseg2).1
      request_version := (hs3.reset_ok hseg3).1 }

end

/-! ## The lines of the headers -/

/-- The entries of a list of fields, one after the other. -/
def add_fields (msg : Message) (fields : List Header) : Message :=
  fields.foldl (fun msg f => msg.add_header f.1 f.2) msg

/-- The lines up to the first empty one. -/
def header_lines (lines : List Text) : Text :=
  lines.flatMap (fun line => line ++ Message.CRLF) ++ Message.CRLF

theorem header_lines_cons (line : Text) (lines : List Text) (rest : Text) :
    header_lines (line :: lines) ++ rest = line ++ 13 :: 10 :: (header_lines lines ++ rest) := by
  simp [header_lines, Message.CRLF]

/-- What the parser makes of a list of lines. -/
structure FieldLines (lines : List Text) (fields : List Header) : Prop where
  some_ : ∀ line ∈ lines, line ≠ []
  whole : ∀ line ∈ lines, cut 13 10 line = none
  read : List.Forall₂ (fun line f => read_field line = .ok f) lines fields

theorem FieldLines.nil : FieldLines [] [] :=
  ⟨fun _ h => (by cases h), fun _ h => (by cases h), .nil⟩

theorem FieldLines.cons {line : Text} {lines : List Text} {f : Header} {fields : List Header}
    (hsome : line ≠ []) (hwhole : cut 13 10 line = none) (hread : read_field line = .ok f)
    (h : FieldLines lines fields) : FieldLines (line :: lines) (f :: fields) := by
  refine ⟨?_, ?_, .cons hread h.read⟩
  · exact List.forall_mem_cons.mpr ⟨hsome, h.some_⟩
  · exact List.forall_mem_cons.mpr ⟨hwhole, h.whole⟩

theorem read_headers_loop_ok {turns : Nat} {msg msg' : Message} {seg seg' : CountedSegment}
    {w : Text} {inp : Istream} (ho : seg.Open []) (hturns : w.length < turns)
    (h : read_headers_loop turns msg seg (Istream.new w) = .ok (msg', seg', inp)) :
    ∃ lines fields rest, w = header_lines lines ++ rest ∧ FieldLines lines fields ∧
      msg' = add_fields msg fields ∧ seg'.Open [] ∧ inp = Istream.new rest := by
  induction turns generalizing msg seg w with
  | zero => omega
  | succ turns ih =>
    unfold read_headers_loop at h
    split at h
    rename_i header_buf inp1 hread
    split at h
    · cases h
    rename_i hfull
    obtain ⟨line, rest, hcut, hs, rfl⟩ :=
      CountedSegment.read_line_complete ho hread (by simpa using hfull)
    have hw := eq_of_cut hcut
    rw [hs.view] at h
    split at h
    · rename_i hempty
      obtain ⟨s', hreset, h⟩ := bind_eq_ok.mp h
      obtain ⟨rfl, heq⟩ := Prod.mk.inj (Except.ok.inj h)
      obtain ⟨rfl, rfl⟩ := Prod.mk.inj heq
      refine ⟨[], [], rest, ?_, .nil, rfl, (hs.reset_ok hreset).1, rfl⟩
      rw [hw, hempty]
      rfl
    · rename_i hsome
      obtain ⟨f, hfield, h⟩ := bind_eq_ok.mp h
      obtain ⟨s', hreset, h⟩ := bind_eq_ok.mp h
      have hlen : rest.length < turns := by
        rw [hw] at hturns
        simp only [List.length_append, List.length_cons] at hturns
        omega
      obtain ⟨lines, fields, rest', hrest, hlines, hmsg, hopen, hinp⟩ :=
        ih (hs.reset_ok hreset).1 hlen h
      refine ⟨line :: lines, f :: fields, rest', ?_,
        .cons hsome (line_of_cut hcut) hfield hlines, hmsg, hopen, hinp⟩
      rw [header_lines_cons, ← hrest, hw]

section

variable {p q : HttpParser} {w : Text} {inp : Istream}

theorem read_headers_ok {mode : MessageMode} (ho : LinesOpen p.lines)
    (h : p.read_headers (Istream.new w) mode = .ok (q, inp)) :
    ∃ msg lines fields rest, p.get_data_for_mode mode = .ok msg ∧ w = header_lines lines ++ rest ∧
      FieldLines lines fields ∧
      q.exchange_ = (p.set_data_for_mode mode (add_fields msg fields)).exchange_ ∧
      LinesOpen q.lines ∧ q.body = p.body ∧ q.body_size_limit = p.body_size_limit ∧
      inp = Istream.new rest := by
  unfold read_headers at h
  obtain ⟨msg, hmsg, h⟩ := bind_eq_ok.mp h
  obtain ⟨⟨msg', seg, inp'⟩, hloop, h⟩ := bind_eq_ok.mp h
  obtain ⟨rfl, rfl⟩ := Prod.mk.inj (Except.ok.inj h)
  obtain ⟨lines, fields, rest, hw, hlines, rfl, hopen, hinp⟩ :=
    read_headers_loop_ok ho.header (Nat.lt_succ_self _) hloop
  refine ⟨msg, lines, fields, rest, hmsg, hw, hlines, rfl, ?_, ?_, ?_, hinp⟩
  · unfold set_data_for_mode
    split
    · exact { ho with header := hopen }
    · exact { ho with header := hopen }
  · unfold set_data_for_mode
    split <;> rfl
  · unfold set_data_for_mode
    split <;> rfl

theorem read_request_headers_ok (ho : LinesOpen p.lines)
    (h : p.read_headers (Istream.new w) .request = .ok (q, inp)) :
    ∃ lines fields rest, w = header_lines lines ++ rest ∧ FieldLines lines fields ∧
      q.exchange_ = p.exchange_.set_request { p.exchange_.req_ with
        toMessage := add_fields p.exchange_.req_.toMessage fields } ∧
      LinesOpen q.lines ∧ q.body = p.body ∧ q.body_size_limit = p.body_size_limit ∧
      inp = Istream.new rest := by
  obtain ⟨msg, lines, fields, rest, hmsg, hw, hlines, hexchange, hafter⟩ := read_headers_ok ho h
  obtain rfl : p.exchange_.req_.toMessage = msg := Except.ok.inj hmsg
  exact ⟨lines, fields, rest, hw, hlines, hexchange, hafter⟩

end

end proxy.http.http1.HttpParser
