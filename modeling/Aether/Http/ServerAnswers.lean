-- What a server sends for a request, interim responses and a final one, and what the
-- parser makes of a head of them.
import Aether.Http.AcceptedHeads
import Aether.Http.Framing
import Aether.Lib.Rfc7230Response

open util.string util.buffer util.bytes lib.lines lib.rfc7230

namespace proxy.http.http1

open HttpParser

/-! ## Answers -/

structure ResponseHead where
  version : Version
  code : Nat
  reason : Text
  fields : List FieldLine
  code_ : 100 ≤ code ∧ code < 1000
  reason_ : OneLine reason

namespace ResponseHead

def encode (h : ResponseHead) : Text :=
  response_line (version_to_string h.version) (decimal h.code) h.reason ++
    header_lines (h.fields.map FieldLine.text)

/-- The response that has this head, without its body. -/
def response (h : ResponseHead) : Response :=
  ⟨add_fields ⟨h.version, .empty, []⟩ (h.fields.map (fun f => (f.name, f.value))),
    code_to_status h.code⟩

end ResponseHead

/-- The body of a response, as it ends. -/
inductive ServerBody where
  | empty
  | sized (content : Text)
  | chunked (body : CodedBody)
  | until_close (content : Text)

namespace ServerBody

def content : ServerBody → Text
  | empty => []
  | sized content => content
  | chunked body => body.content
  | until_close content => content

def encode : ServerBody → Text
  | empty => []
  | sized content => content
  | chunked body => body.encode
  | until_close content => content

def length : ServerBody → ResponseLength
  | empty => .empty
  | sized content => .sized content.length
  | chunked _ => .chunked
  | until_close _ => .untilClose

end ServerBody

/-- What a server sends for a request of a method. -/
structure Answer where
  method : Method
  interims : List ResponseHead
  final : ResponseHead
  body : ServerBody
  interims_ : ∀ h ∈ interims, h.code / 100 = 1 ∧ h.code ≠ 101
  final_ : final.code / 100 = 1 → final.code = 101
  framed : responseLength (method == .HEAD) (method == .CONNECT) final.code
    (codings final.response.toMessage) (lengths final.response.toMessage) = some body.length

namespace Answer

def encode (a : Answer) : Text :=
  a.interims.flatMap ResponseHead.encode ++ (a.final.encode ++ a.body.encode)

/-- The final response. -/
def response (a : Answer) : Response := { a.final.response with body_ := a.body.content }

/-- The code reads such an answer as it is meant: it is a final response only, that does not end
with the connection. Chunks are announced with `chunked` as it is spelled here, and 200 and 204 are
the only codes from 200 to 299 for a CONNECT. A body of 2^32 bytes or more is over the limit. -/
structure Plain (limit : Nat) (a : Answer) : Prop where
  no_interims : a.interims = []
  ends : a.body.length ≠ .untilClose
  spelled : a.body.length = .chunked → a.final.response.chunked = true
  connect : a.method = .CONNECT → a.final.code / 100 = 2 → a.final.code = 200 ∨ a.final.code = 204
  bounded : limit < 2 ^ 32 ∨ a.body.content.length < 2 ^ 32

end Answer

/-! ## Heads -/

theorem to_size_of_lt {n : Nat} (h : n < 2 ^ 31) : (code_to_status n).to_size = n := by
  have hint := toInt_of_lt h
  simp only [code_to_status, Status.to_size, hint]
  omega

theorem code_to_status_inj {m n : Nat} (hm : m < 2 ^ 31) (hn : n < 2 ^ 31) :
    code_to_status m = code_to_status n ↔ m = n := by
  constructor
  · intro h
    rw [← to_size_of_lt hm, ← to_size_of_lt hn, h]
  · exact congrArg code_to_status

namespace HttpParser

/-- The parts of a first line are known from what follows the line. -/
theorem response_line_inj {version version' code code' msg msg' rest rest' : Text}
    (hversion : Message.SP ∉ version) (hversion' : Message.SP ∉ version')
    (hcode : Message.SP ∉ code) (hcode' : Message.SP ∉ code') (hmsg : cut 13 10 msg = none)
    (hmsg' : cut 13 10 msg' = none)
    (h : response_line version code msg ++ rest = response_line version' code' msg' ++ rest') :
    version = version' ∧ code = code' ∧ rest = rest' := by
  have hline (v c m r : Text) : response_line v c m ++ r =
      v ++ Message.SP :: (c ++ Message.SP :: (m ++ 13 :: 10 :: r)) := by
    simp [response_line, Message.CRLF]
  rw [hline, hline] at h
  have hfirst := congrArg before_space h
  rw [before_space_cut hversion, before_space_cut hversion'] at hfirst
  have hbehind := congrArg behind_space h
  rw [behind_space_cut hversion, behind_space_cut hversion'] at hbehind
  have hsecond := congrArg before_space hbehind
  rw [before_space_cut hcode, before_space_cut hcode'] at hsecond
  have hlast := congrArg behind_space hbehind
  rw [behind_space_cut hcode, behind_space_cut hcode'] at hlast
  have hcut := congrArg (cut 13 10) hlast
  rw [cut_end hmsg (by decide), cut_end hmsg' (by decide)] at hcut
  exact ⟨hfirst, hsecond, (Prod.mk.inj (Option.some.inj hcut)).2⟩

/-- The fields of lines are known from what follows the lines. -/
theorem header_lines_inj {lines lines' : List Text} {fields fields' : List Header}
    {rest rest' : Text} (h : FieldLines lines fields) (h' : FieldLines lines' fields')
    (heq : header_lines lines ++ rest = header_lines lines' ++ rest') :
    fields = fields' ∧ rest = rest' := by
  have hlines := congrArg (linesBeforeEmpty 13 10) heq
  rw [linesBeforeEmpty_header_lines h, linesBeforeEmpty_header_lines h'] at hlines
  subst hlines
  refine ⟨?_, List.append_cancel_left heq⟩
  have hread := h.read
  have hread' := h'.read
  clear h h' heq
  induction hread generalizing fields' with
  | nil =>
    cases hread'
    rfl
  | cons hline _ ih =>
    cases hread' with
    | cons hline' hrest =>
      rw [Except.ok.inj (hline.symm.trans hline'), ih hrest]

/-- A line with white space around its value is read as its field. -/
theorem read_field_line (f : FieldLine) : read_field f.text = .ok (f.name, f.value) := by
  have htrim : trim (f.before ++ f.value ++ f.after) = f.value :=
    strip_blank f.before_ f.value_.2 f.after_
  have hname : colon ∉ f.name := f.name_.2
  have htext : f.text = f.name ++ colon :: (f.before ++ f.value ++ f.after) := rfl
  unfold read_field
  rw [htext, find_cut hname]
  simp only
  rw [List.take_left, ← List.drop_drop, List.drop_left, List.drop_one, List.tail_cons, htrim]

theorem fieldLines_text (fields : List FieldLine) :
    FieldLines (fields.map FieldLine.text) (fields.map (fun f => (f.name, f.value))) := by
  induction fields with
  | nil => exact .nil
  | cons f fields ih =>
    exact ih.cons f.text_ne_nil (cut_none_of_notMem f.oneLine_text.2) (read_field_line f)

/-- A head that is read out of the bytes of an answer is the head that stands there. -/
theorem read_head_of_answer {p q r : HttpParser} {h : ResponseHead} {w left rest : Text}
    {inp out : Istream} (ho : LinesOpen p.lines) (hnew : p.exchange_.res_ = some .new)
    (hw : w ++ left = h.encode ++ rest)
    (hline : p.read_response_line (Istream.new w) = .ok (q, inp))
    (hheaders : q.read_headers inp .response = .ok (r, out)) :
    ∃ behind, out = Istream.new behind ∧ behind ++ left = rest ∧
      r.exchange_ = p.exchange_.set_response h.response ∧ LinesOpen r.lines ∧ r.body = p.body ∧
      r.body_size_limit = p.body_size_limit := by
  obtain ⟨version, code, msg, vers, rest1, rfl, hversion, hcode, hmsg, hvers, rfl, hafter⟩ :=
    read_response_line_parts ho hline
  obtain ⟨msg', lines, fields, behind, hget, rfl, hlines, hexchange, hopen, hbody, hlimit, rfl⟩ :=
    read_headers_ok hafter.lines hheaders
  obtain ⟨hspace, -, -⟩ := version_to_string_plain h.version
  have hparts : response_line version code msg ++ ((header_lines lines ++ behind) ++ left) =
      response_line (version_to_string h.version) (decimal h.code) h.reason ++
        (header_lines (h.fields.map FieldLine.text) ++ rest) := by
    rw [← List.append_assoc, hw, ResponseHead.encode, List.append_assoc]
  obtain ⟨rfl, rfl, hrest⟩ := response_line_inj hversion hspace hcode (decimal_plain _) hmsg
    (cut_none_of_notMem h.reason_.2) hparts
  rw [List.append_assoc] at hrest
  obtain ⟨rfl, hleft⟩ := header_lines_inj hlines (fieldLines_text h.fields) hrest
  obtain rfl : h.version = vers :=
    Except.ok.inj ((string_to_version_to_string h.version).symm.trans hvers)
  have hcast : lexical_cast_size (decimal h.code) = some h.code :=
    lexical_cast_decimal (Nat.lt_trans h.code_.2 (by decide))
  refine ⟨behind, rfl, hleft, ?_, hopen, hbody.trans hafter.body, hlimit.trans hafter.limit⟩
  have hmsg' : msg' = ⟨h.version, .empty, []⟩ := by
    have hget' : Except.ok q.exchange_.response.toMessage = .ok msg' := hget
    rw [← Except.ok.inj hget', hafter.exchange]
    simp only [Exchange.response, Exchange.set_response, hnew, Option.getD_some]
    rfl
  rw [hexchange, hmsg']
  have hset : (q.set_data_for_mode .response (add_fields ⟨h.version, .empty, []⟩
      (h.fields.map fun f => (f.name, f.value)))).exchange_ =
      q.exchange_.set_response { q.exchange_.response with
        toMessage := add_fields ⟨h.version, .empty, []⟩
          (h.fields.map fun f => (f.name, f.value)) } := rfl
  rw [hset, hafter.exchange]
  simp only [Exchange.response, Exchange.set_response, Option.getD_some, string_to_status, hcast]
  rfl

end HttpParser

end proxy.http.http1
