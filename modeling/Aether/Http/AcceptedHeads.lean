-- Heads that the parser has accepted: what is printed for one is read by a new parser
-- as the same head, if its lines can be reset from.
import Aether.Http.AcceptedBodies
import Aether.Http.PrintedHeads

open util.string util.buffer lib.lines lib.rfc7230 lib.numerals

namespace proxy.http

open http1.HttpParser

/-! ## The first line of a response -/

theorem lexical_cast_decimal {n : Nat} (h : n < 2 ^ 64) :
    lexical_cast_size (decimal n) = some n := by
  unfold lexical_cast_size
  rw [sign_of_digits (digits_decimal n)]
  simp only [digits_decimal, Option.bind_some, if_pos h]
  rfl

theorem status_again (s : Status) : string_to_status (decimal s.to_size) = s := by
  unfold string_to_status
  rw [lexical_cast_decimal s.to_size_lt]
  exact s.code_to_size

theorem length_decimal_to_size (s : Status) : (decimal s.to_size).length < 2 ^ 31 := by
  have hlen : (decimal s.to_size).length ≤ 20 := by
    unfold decimal
    rw [List.length_map]
    refine length_numeral_le (by decide) (by decide) (Nat.lt_of_lt_of_le s.to_size_lt ?_)
    norm_num
  omega

theorem reason_plain (s : Status) : cut 13 10 (print_result (status_to_reason s)) = none ∧
    (print_result (status_to_reason s)).length < 2 ^ 31 := by
  have hcodes : ∀ code ∈ status_codes, 10 ∉ text code.2 ∧ (text code.2).length < 100 := by
    decide +kernel
  unfold status_to_reason
  split
  · rename_i code hfind
    obtain ⟨hline, hlen⟩ := hcodes code (List.mem_of_find?_eq_some hfind)
    refine ⟨cut_none_of_notMem hline, ?_⟩
    show (text code.2).length < 2 ^ 31
    omega
  · exact ⟨cut_none_of_notMem (by decide), by decide⟩

namespace http1.HttpParser

/-! ## Whole messages -/

/-- The first line of a message. -/
def read_line (p : HttpParser) (inp : Istream) (mode : MessageMode) :
    Except Error (HttpParser × Istream) :=
  if mode = .request then p.read_request_line inp else p.read_response_line inp

/-- A message as the service has the parser read it: the first bytes have all of the head, and the
others come while the body is read. -/
def read_message (p : HttpParser) (mode : MessageMode) (first : Text) (reads : List Text) :
    Except Error Progress := do
  let (p, inp) ← p.read_line (Istream.new first) mode
  let (p, inp) ← p.read_headers inp mode
  p.read_pieces mode inp.rdbuf ([] :: reads)

/-- A new parser. For a response its exchange has the request. -/
def fresh (limit : Nat) (e : Exchange) (mode : MessageMode) : HttpParser :=
  new limit (if mode = .request then .new else e.make_response)

/-- The bytes that are written for it. -/
def print (p : HttpParser) (mode : MessageMode) : Text :=
  if mode = .request then p.exchange_.req_.print else p.exchange_.response.print

section

variable {p q : HttpParser} {mode : MessageMode}

/-! ## Heads -/

/-- A parser that has read a first line, or more, and nothing of the body. -/
structure Begun (limit : Nat) (e : Exchange) (mode : MessageMode) (q : HttpParser) : Prop where
  idle : q.body.Idle
  limit : q.body_size_limit = limit
  bare : (q.message mode).body_ = []
  request : mode = .request → q.exchange_ = Exchange.new.set_request q.exchange_.req_
  response : mode ≠ .request → q.exchange_ = e.make_response.set_response q.exchange_.response
  target : mode = .request → ∃ target, Message.SP ∉ target ∧ target.length < 2 ^ 31 ∧
    Url.parse_target target q.exchange_.req_.method_ = .ok q.exchange_.req_.target_

/-- A parser that has read a head. -/
structure Head (limit : Nat) (e : Exchange) (mode : MessageMode) (q : HttpParser) : Prop
    extends Begun limit e mode q where
  known : mode ≠ .unknown
  fields : ∀ f ∈ (q.message mode).headers_.fields, Field f

/-- Another message of the mode leaves the rest of the exchange. -/
theorem Begun.set_data {limit : Nat} {e : Exchange} (h : Begun limit e mode p) {msg : Message}
    (hexchange : q.exchange_ = (p.set_data_for_mode mode msg).exchange_) (hidle : q.body.Idle)
    (hlimit : q.body_size_limit = p.body_size_limit) (hbare : msg.body_ = []) :
    Begun limit e mode q := by
  have hmessage : q.message mode = msg := by rw [message_of_exchange hexchange, message_set_data]
  refine ⟨hidle, hlimit.trans h.limit, by rw [hmessage, hbare], ?_, ?_, ?_⟩
  · rintro rfl
    rw [hexchange, set_data_for_mode, if_pos rfl]
    simp only
    rw [h.request rfl]
    rfl
  · intro hmode
    rw [hexchange, set_data_for_mode, if_neg hmode]
    simp only
    rw [h.response hmode]
    rfl
  · rintro rfl
    rw [hexchange, set_data_for_mode, if_pos rfl]
    exact h.target rfl

theorem exchange_set_data {msg msg' : Message}
    (h : p.exchange_ = (q.set_data_for_mode mode msg).exchange_) :
    (p.set_data_for_mode mode msg').exchange_ = (q.set_data_for_mode mode msg').exchange_ := by
  unfold set_data_for_mode at h ⊢
  split
  · rename_i hmode
    rw [if_pos hmode] at h
    simp only [h]
    rfl
  · rename_i hmode
    rw [if_neg hmode] at h
    simp only [h]
    rfl

theorem Begun.set_data_self {limit : Nat} {e : Exchange} (h : Begun limit e mode q) :
    (q.set_data_for_mode mode (q.message mode)).exchange_ = q.exchange_ := by
  by_cases hmode : mode = .request
  · unfold set_data_for_mode message
    rw [if_pos hmode, if_pos hmode]
    rfl
  · have hres := h.response hmode
    unfold set_data_for_mode message
    rw [if_neg hmode, if_neg hmode]
    show q.exchange_.set_response q.exchange_.response = q.exchange_
    rw [hres]
    rfl

/-- The first line as it is printed, with its end. -/
def print_line (q : HttpParser) (mode : MessageMode) : Text :=
  if mode = .request then
    request_line (method_to_string q.exchange_.req_.method_) q.exchange_.req_.target_.print
      (version_to_string q.exchange_.req_.version_)
  else
    response_line (version_to_string q.exchange_.response.version_)
      (decimal q.exchange_.response.status_.to_size)
      (print_result (status_to_reason q.exchange_.response.status_))

theorem print_eq (q : HttpParser) (mode : MessageMode) : q.print mode = q.print_line mode ++
    ((q.message mode).headers_.fields.flatMap Message.print_field ++
      (Message.CRLF ++ (q.message mode).print_body)) := by
  unfold print print_line message
  split
  · simp [Request.print, request_line, Message.print]
  · simp [Response.print, response_line, Message.print]

/-- What a first line makes of a new parser. -/
theorem line_of_fresh {limit : Nat} {e : Exchange} {first : Text} {inp : Istream}
    (h : (fresh limit e mode).read_line (Istream.new first) mode = .ok (q, inp)) :
    Begun limit e mode q ∧ LinesOpen q.lines ∧ (q.message mode).headers_ = .empty ∧
      ∃ rest, inp = Istream.new rest := by
  by_cases hmode : mode = .request
  · subst hmode
    have h : (new limit .new).read_request_line (Istream.new first) = .ok (q, inp) := h
    obtain ⟨method, target, version, rest, req, -, -, htarget, hshort, -, hline, hexchange, hopen,
      hbody, hlimit, hinp⟩ := read_request_line_ok linesOpen_new h
    obtain ⟨-, hurl, hmsg⟩ := line_of_ok hline
    have hreq : q.exchange_.req_ = req := by rw [hexchange]; rfl
    have hmessage : q.message .request = { (Message.new) with version_ := req.version_ } := by
      unfold message
      rw [if_pos rfl, hreq, hmsg]
      rfl
    refine ⟨⟨?_, hlimit, ?_, fun _ => ?_, fun hnot => absurd rfl hnot, fun _ => ?_⟩, hopen, ?_,
      rest, hinp⟩
    · rw [hbody]
      exact BodyReader.idle_new
    · rw [hmessage]
      rfl
    · rw [hreq]
      exact hexchange
    · rw [hreq]
      exact ⟨target, htarget, hshort, hurl⟩
    · rw [hmessage]
      rfl
  · unfold read_line fresh at h
    rw [if_neg hmode, if_neg hmode] at h
    obtain ⟨vers, status, rest, hinp, hafter⟩ := read_response_line_ok linesOpen_new h
    have hmessage : q.message mode = { (Message.new) with version_ := vers } := by
      unfold message
      rw [if_neg hmode, hafter.exchange]
      rfl
    refine ⟨⟨?_, hafter.limit, ?_, fun hyes => absurd hyes hmode, fun _ => ?_,
      fun hyes => absurd hyes hmode⟩, hafter.lines, ?_, rest, hinp⟩
    · rw [hafter.body]
      exact BodyReader.idle_new
    · rw [hmessage]
      rfl
    · rw [hafter.exchange]
      rfl
    · rw [hmessage]
      rfl

/-- The fields that a list of lines makes are fields. -/
theorem field_of_lines {lines : List Text} {fields : List Header} (h : FieldLines lines fields) :
    ∀ f ∈ fields, Field f := by
  have hwhole := h.whole
  have hread := h.read
  clear h
  induction hread with
  | nil => exact fun f hf => by cases hf
  | cons hline _ ih =>
    rw [List.forall_mem_cons] at hwhole ⊢
    exact ⟨field_of_read hwhole.1 hline, ih hwhole.2⟩

theorem head_of_fresh {limit : Nat} {e : Exchange} {first : Text} {p : HttpParser}
    {inp out : Istream}
    (hline : (fresh limit e mode).read_line (Istream.new first) mode = .ok (p, inp))
    (hheaders : p.read_headers inp mode = .ok (q, out)) :
    Head limit e mode q ∧ ∃ rest, out = Istream.new rest := by
  obtain ⟨hbegun, hopen, hempty, rest, rfl⟩ := line_of_fresh hline
  obtain ⟨msg, lines, fields, rest', hmsg, -, hlines, hexchange, -, hbody, hlimit, hout⟩ :=
    read_headers_ok hopen hheaders
  have hknown : mode ≠ .unknown := by
    rintro rfl
    cases hmsg
  obtain rfl := Except.ok.inj ((get_data_message hknown).symm.trans hmsg)
  have hmessage : q.message mode = add_fields (p.message mode) fields := by
    rw [message_of_exchange hexchange, message_set_data]
  have hfields : ∀ f ∈ (q.message mode).headers_.fields, Field f := by
    intro f hf
    rw [hmessage, mem_add_fields, hempty] at hf
    rcases hf with hf | hf
    · exact field_of_lines hlines f hf
    · cases hf
  have hidle : q.body.Idle := by
    rw [hbody]
    exact hbegun.idle
  have hbare : (add_fields (p.message mode) fields).body_ = [] := by
    rw [body_add_fields, hbegun.bare]
  exact ⟨⟨hbegun.set_data hexchange hidle hlimit hbare, hknown, hfields⟩, rest', hout⟩

/-! ## Heads again -/

theorem read_headers_of {p : HttpParser} (hknown : mode ≠ .unknown) (ho : LinesOpen p.lines)
    (hempty : (p.message mode).headers_ = .empty) {h : Headers} (hfields : ∀ f ∈ h.fields, Field f)
    (hshort : ∀ f ∈ h.fields, (Request.field_line f).length < 2 ^ 31) (rest : Text) :
    ∃ q, p.read_headers (Istream.new (h.fields.flatMap Message.print_field ++
        (Message.CRLF ++ rest))) mode = .ok (q, Istream.new rest) ∧
      q.exchange_ = (p.set_data_for_mode mode { p.message mode with headers_ := h }).exchange_ ∧
      q.body = p.body ∧ q.body_size_limit = p.body_size_limit := by
  obtain ⟨seg, -, hloop⟩ := read_printed_fields hfields hshort ho.header (p.message mode) rest
    (turns_of_fields h.fields rest)
  rw [add_fields_again (by rw [hempty]; rfl)] at hloop
  unfold read_headers
  rw [get_data_message hknown]
  simp only [bind, Except.bind, Istream.new] at hloop ⊢
  rw [hloop]
  refine ⟨_, rfl, rfl, ?_, ?_⟩
  · exact set_data_body _
  · exact set_data_limit _

theorem read_headers_long {p : HttpParser} (hknown : mode ≠ .unknown) (ho : LinesOpen p.lines)
    {h : Headers} (hfields : ∀ f ∈ h.fields, Field f)
    (hlong : ¬ ∀ f ∈ h.fields, (Request.field_line f).length < 2 ^ 31) (rest : Text) :
    p.read_headers (Istream.new (h.fields.flatMap Message.print_field ++ (Message.CRLF ++ rest)))
      mode = .error .undefined := by
  have hloop := read_long_fields hfields hlong ho.header (p.message mode) rest
    (turns_of_fields h.fields rest)
  unfold read_headers
  rw [get_data_message hknown]
  simp only [bind, Except.bind, Istream.new] at hloop ⊢
  rw [hloop]

/-- The line that is printed makes the message without its fields. -/
theorem line_again {limit : Nat} {e : Exchange} (h : Head limit e mode q)
    (hform : mode = .request → q.exchange_.req_.target_.form = .origin) (rest : Text) :
    ∃ p, (fresh limit e mode).read_line (Istream.new (q.print_line mode ++ rest)) mode =
        .ok (p, Istream.new rest) ∧
      AfterLine (fresh limit e mode) p
        (q.set_data_for_mode mode { q.message mode with headers_ := .empty }).exchange_ := by
  by_cases hmode : mode = .request
  · subst hmode
    obtain ⟨target, htarget, hshort, hurl⟩ := h.target rfl
    obtain ⟨hmethod, hshortm⟩ := method_to_string_plain q.exchange_.req_.method_
    obtain ⟨-, hversion, hshortv⟩ := version_to_string_plain q.exchange_.req_.version_
    have hprint := origin_print hurl (hform rfl)
    have hline : line_of (fresh limit e .request).exchange_.req_
        (method_to_string q.exchange_.req_.method_) target
        (version_to_string q.exchange_.req_.version_) = .ok { Request.new with
          method_ := q.exchange_.req_.method_
          version_ := q.exchange_.req_.version_
          target_ := q.exchange_.req_.target_ } := by
      simp only [line_of, string_to_method_to_string, string_to_version_to_string, hurl, bind,
        Except.bind]
      rfl
    obtain ⟨p, hread, hafter⟩ := read_request_line_of (p := fresh limit e .request) linesOpen_new
      hmethod htarget hversion hshortm hshort hshortv hline rest
    refine ⟨p, ?_, ?_⟩
    · unfold print_line
      rw [if_pos rfl, hprint]
      exact hread
    · have hbare := h.bare
      have hexchange : (q.set_data_for_mode .request
          { q.message .request with headers_ := .empty }).exchange_ =
            (fresh limit e .request).exchange_.set_request { Request.new with
              method_ := q.exchange_.req_.method_
              version_ := q.exchange_.req_.version_
              target_ := q.exchange_.req_.target_ } := by
        have hreq := h.request rfl
        show q.exchange_.set_request { q.exchange_.req_ with
          toMessage := { q.exchange_.req_.toMessage with headers_ := .empty } } = _
        rw [hreq]
        simp only [message, if_pos] at hbare
        generalize q.exchange_.req_ = req at hbare ⊢
        obtain ⟨⟨version, headers, body⟩, verb, url⟩ := req
        obtain rfl : body = [] := hbare
        rfl
      rw [hexchange]
      exact hafter
  · obtain ⟨hversion, -, hshortv⟩ := version_to_string_plain q.exchange_.response.version_
    obtain ⟨hreason, hshortr⟩ := reason_plain q.exchange_.response.status_
    obtain ⟨p, hread, hafter⟩ := read_response_line_of (p := fresh limit e mode) linesOpen_new
      hversion (decimal_plain _) hreason hshortv
      (length_decimal_to_size q.exchange_.response.status_) hshortr
      (string_to_version_to_string q.exchange_.response.version_) rest
    refine ⟨p, ?_, ?_⟩
    · unfold print_line read_line
      rw [if_neg hmode, if_neg hmode]
      exact hread
    · have hbare := h.bare
      rw [status_again] at hafter
      have hexchange : (q.set_data_for_mode mode
          { q.message mode with headers_ := .empty }).exchange_ =
            (fresh limit e mode).exchange_.set_response
              { (fresh limit e mode).exchange_.response with
                version_ := q.exchange_.response.version_
                status_ := q.exchange_.response.status_ } := by
        have hres := h.response hmode
        unfold set_data_for_mode fresh
        rw [if_neg hmode, if_neg hmode]
        unfold message at hbare ⊢
        rw [if_neg hmode] at hbare ⊢
        simp only
        rw [hres]
        generalize q.exchange_.response = res at hbare ⊢
        obtain ⟨⟨version, headers, body⟩, status⟩ := res
        obtain rfl : body = [] := hbare
        rfl
      rw [hexchange]
      exact hafter

/-- The head that is printed makes the head again. -/
theorem head_again {limit : Nat} {e : Exchange} (h : Head limit e mode q)
    (hform : mode = .request → q.exchange_.req_.target_.form = .origin)
    (hshort : ∀ f ∈ (q.message mode).headers_.fields, (Request.field_line f).length < 2 ^ 31)
    (rest : Text) (reads : List Text) :
    ∃ q', Head limit e mode q' ∧ q'.exchange_ = q.exchange_ ∧
      (fresh limit e mode).read_message mode (q.print_line mode ++
        ((q.message mode).headers_.fields.flatMap Message.print_field ++
          (Message.CRLF ++ rest))) reads = q'.read_pieces mode [] (rest :: reads) := by
  obtain ⟨p, hline, hafter⟩ := line_again h hform
    ((q.message mode).headers_.fields.flatMap Message.print_field ++ (Message.CRLF ++ rest))
  have hmessage : p.message mode = { q.message mode with headers_ := .empty } := by
    rw [message_of_exchange hafter.exchange, message_set_data]
  obtain ⟨q', hheaders, hexchange, hbody, hlimit⟩ := read_headers_of h.known hafter.lines
    (by rw [hmessage]) h.fields hshort rest
  refine ⟨q', (head_of_fresh hline hheaders).1, ?_, ?_⟩
  · rw [hexchange, hmessage, exchange_set_data hafter.exchange]
    exact h.toBegun.set_data_self
  · unfold read_message
    rw [hline]
    simp only [bind, Except.bind]
    rw [hheaders]
    simp only [Istream.new]
    rw [read_pieces, read_pieces, List.append_nil, List.nil_append]

/-- A line that is too long ends the reading of the head. -/
theorem head_long {limit : Nat} {e : Exchange} (h : Head limit e mode q)
    (hform : mode = .request → q.exchange_.req_.target_.form = .origin)
    (hlong : ¬ ∀ f ∈ (q.message mode).headers_.fields, (Request.field_line f).length < 2 ^ 31)
    (rest : Text) (reads : List Text) :
    (fresh limit e mode).read_message mode (q.print_line mode ++
      ((q.message mode).headers_.fields.flatMap Message.print_field ++
        (Message.CRLF ++ rest))) reads = .error .undefined := by
  obtain ⟨p, hline, hafter⟩ := line_again h hform
    ((q.message mode).headers_.fields.flatMap Message.print_field ++ (Message.CRLF ++ rest))
  unfold read_message
  rw [hline]
  simp only [bind, Except.bind]
  rw [read_headers_long h.known hafter.lines h.fields hlong rest]

end

end http1.HttpParser

end proxy.http
