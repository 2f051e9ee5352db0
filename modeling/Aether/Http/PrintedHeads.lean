-- A head that is printed is read as what it was: its fields in their order, and the
-- parts of its first line.
import Aether.Http.HeadLines
import Aether.Http.TextPositions
import Aether.Util.Trimming

open util.string util.buffer lib.lines

namespace proxy.http

open Request

/-! ## Fields -/

/-- A field as the parser makes it of a line. -/
structure Field (f : Header) : Prop where
  name : colon ∉ f.1
  value : trim f.2 = f.2
  line : cut 13 10 (field_line f) = none

namespace http1.HttpParser

theorem field_of_read {line : Text} {f : Header} (hline : cut 13 10 line = none)
    (h : read_field line = .ok f) : Field f := by
  unfold read_field at h
  split at h
  · cases h
  · rename_i i hfind
    obtain rfl := Except.ok.inj h
    obtain ⟨name, value, hparts, hname, rfl⟩ := find_eq_some hfind
    rw [List.drop_zero] at hparts
    subst hparts
    rw [Nat.zero_add, List.take_left, ← List.drop_drop, List.drop_left, List.drop_one,
      List.tail_cons]
    refine ⟨hname, trim_trim value, ?_⟩
    have hvalue : cut 13 10 (trim value) = none := by
      refine cut_none_of_infix hline ((trim_part value).trans ?_)
      exact ⟨name ++ [colon], [], by simp⟩
    have hfront : cut 13 10 (name ++ text ": ") = none :=
      cut_append_none (cut_none_of_append hline) (by decide)
    exact cut_append_of_last hfront hvalue (by simp [text])

/-- The line that is printed for a field is read as that field. -/
theorem read_printed_field {f : Header} (h : Field f) : read_field (field_line f) = .ok f := by
  have hparts : field_line f = f.1 ++ colon :: (32 :: f.2) := by
    simp [field_line, text, colon]
  unfold read_field
  rw [hparts, find_cut h.name]
  simp only
  rw [List.take_left, ← List.drop_drop, List.drop_left, List.drop_one, List.tail_cons, trim_blank,
    h.value]

theorem field_line_ne_nil (f : Header) : field_line f ≠ [] := by
  simp [field_line, text]

/-- A turn of the loop, for the first line there is. -/
theorem read_headers_turn {seg : CountedSegment} {w line rest : Text} (ho : seg.Open [])
    (hcut : cut 13 10 w = some (line, rest)) (turns : Nat) (msg : Message) :
    ∃ s : CountedSegment, s.Full line ∧
      read_headers_loop (turns + 1) msg seg (Istream.new w) =
        if line = [] then s.reset.map (fun seg => (msg, seg, Istream.new rest))
        else
          read_field line >>= fun f => s.reset >>= fun seg =>
            read_headers_loop turns (msg.add_header f.1 f.2) seg (Istream.new rest) := by
  obtain ⟨s, hs, hread⟩ := CountedSegment.read_line (w := w) ho rfl hcut
  refine ⟨s, hs, ?_⟩
  have hread : seg.read_until_string (Istream.new w) Message.CRLF = (s, Istream.new rest) := hread
  rw [read_headers_loop, hread]
  simp only [hs.full, hs.view, Bool.not_true, Bool.false_eq_true, if_false]
  split
  · cases s.reset <;> rfl
  · rfl

theorem print_fields_cons (f : Header) (fields : List Header) (rest : Text) :
    (f :: fields).flatMap Message.print_field ++ (Message.CRLF ++ rest) =
      field_line f ++ 13 :: 10 ::
        (fields.flatMap Message.print_field ++ (Message.CRLF ++ rest)) := by
  simp [Message.print_field, field_line, Message.CRLF]

/-- Lines that can be reset from are all read, and what comes behind the empty line is left. -/
theorem read_printed_fields {fields : List Header} (h : ∀ f ∈ fields, Field f)
    (hshort : ∀ f ∈ fields, (field_line f).length < 2 ^ 31) {seg : CountedSegment}
    (ho : seg.Open []) (msg : Message) (rest : Text) {turns : Nat}
    (hturns : fields.length < turns) :
    ∃ seg' : CountedSegment, seg'.Open [] ∧
      read_headers_loop turns msg seg
        (Istream.new (fields.flatMap Message.print_field ++ (Message.CRLF ++ rest))) =
        .ok (add_fields msg fields, seg', Istream.new rest) := by
  induction fields generalizing seg msg turns with
  | nil =>
    obtain ⟨turns, rfl⟩ := Nat.exists_eq_succ_of_ne_zero (Nat.ne_zero_of_lt hturns)
    have hend : cut 13 10 (Message.CRLF ++ rest) = some ([], rest) := rfl
    obtain ⟨s, hs, hturn⟩ := read_headers_turn ho hend turns msg
    obtain ⟨s', hreset, hopen⟩ := @CountedSegment.reset_open s (by rw [hs.held]; decide)
    refine ⟨s', hopen, ?_⟩
    rw [if_pos rfl, hreset] at hturn
    exact hturn
  | cons f fields ih =>
    obtain ⟨turns, rfl⟩ := Nat.exists_eq_succ_of_ne_zero (Nat.ne_zero_of_lt hturns)
    rw [List.forall_mem_cons] at h hshort
    obtain ⟨s, hs, hturn⟩ := read_headers_turn ho (cut_end h.1.line (by decide)
      (fields.flatMap Message.print_field ++ (Message.CRLF ++ rest))) turns msg
    obtain ⟨s', hreset, hopen⟩ := @CountedSegment.reset_open s
      (by rw [hs.held]; exact hshort.1)
    obtain ⟨seg', hopen', hrest⟩ := ih h.2 hshort.2 hopen (msg.add_header f.1 f.2)
      (Nat.lt_of_succ_lt_succ hturns)
    refine ⟨seg', hopen', ?_⟩
    rw [if_neg (field_line_ne_nil f), read_printed_field h.1, hreset] at hturn
    rw [print_fields_cons, hturn]
    exact hrest

/-- There are more bytes than fields. -/
theorem turns_of_fields (fields : List Header) (rest : Text) :
    fields.length < (Istream.new (fields.flatMap Message.print_field ++
      (Message.CRLF ++ rest))).rdbuf.length + 1 := by
  have hlen : fields.length ≤ (fields.flatMap Message.print_field).length := by
    induction fields with
    | nil => exact Nat.le_refl 0
    | cons f fields ih =>
      have hf : 1 ≤ (Message.print_field f).length := by
        simp only [Message.print_field, Message.CRLF, List.length_append, List.length_cons]
        omega
      rw [List.flatMap_cons, List.length_append, List.length_cons]
      omega
  simp only [Istream.new, List.length_append]
  omega

/-- A line that is too long for a reset ends the reading. -/
theorem read_long_fields {fields : List Header} (h : ∀ f ∈ fields, Field f)
    (hlong : ¬ ∀ f ∈ fields, (field_line f).length < 2 ^ 31) {seg : CountedSegment}
    (ho : seg.Open []) (msg : Message) (rest : Text) {turns : Nat}
    (hturns : fields.length < turns) :
    read_headers_loop turns msg seg
      (Istream.new (fields.flatMap Message.print_field ++ (Message.CRLF ++ rest))) =
      .error .undefined := by
  induction fields generalizing seg msg turns with
  | nil => exact absurd (fun f hf => by cases hf) hlong
  | cons f fields ih =>
    obtain ⟨turns, rfl⟩ := Nat.exists_eq_succ_of_ne_zero (Nat.ne_zero_of_lt hturns)
    rw [List.forall_mem_cons] at h hlong
    obtain ⟨s, hs, hturn⟩ := read_headers_turn ho (cut_end h.1.line (by decide)
      (fields.flatMap Message.print_field ++ (Message.CRLF ++ rest))) turns msg
    rw [if_neg (field_line_ne_nil f), read_printed_field h.1] at hturn
    rw [print_fields_cons, hturn]
    by_cases hfirst : (field_line f).length < 2 ^ 31
    · obtain ⟨s', hreset, hopen⟩ := @CountedSegment.reset_open s (by rw [hs.held]; exact hfirst)
      rw [hreset]
      exact ih h.2 (fun hrest => hlong ⟨hfirst, hrest⟩) hopen (msg.add_header f.1 f.2)
        (Nat.lt_of_succ_lt_succ hturns)
    · rw [@CountedSegment.reset_long s (by rw [hs.held]; exact hfirst)]
      rfl

/-! ## The order of the fields -/

theorem emplace_last {name value : Text} {fields : List Header}
    (h : ∀ g ∈ fields, iless_fn name g.1 = false) :
    emplace name value fields = fields ++ [(name, value)] := by
  induction fields with
  | nil => rfl
  | cons g fields ih =>
    rw [List.forall_mem_cons] at h
    unfold emplace
    rw [if_neg (by rw [h.1]; decide), ih h.2]
    rfl

theorem fields_add_fields (msg : Message) {fields : List Header}
    (h : Ordered (msg.headers_.fields ++ fields)) :
    (add_fields msg fields).headers_.fields = msg.headers_.fields ++ fields := by
  induction fields generalizing msg with
  | nil => exact (List.append_nil _).symm
  | cons f fields ih =>
    have hlast : (msg.add_header f.1 f.2).headers_.fields = msg.headers_.fields ++ [f] := by
      refine emplace_last ?_
      intro g hg
      exact (List.pairwise_append.mp h).2.2 g hg f List.mem_cons_self
    have hrest : (msg.add_header f.1 f.2).headers_.fields ++ fields =
        msg.headers_.fields ++ f :: fields := by
      rw [hlast]
      simp
    exact (ih (msg.add_header f.1 f.2) (by rw [hrest]; exact h)).trans hrest

theorem version_add_fields (msg : Message) (fields : List Header) :
    (add_fields msg fields).version_ = msg.version_ := by
  induction fields generalizing msg with
  | nil => rfl
  | cons f fields ih => exact ih (msg.add_header f.1 f.2)

theorem body_add_fields (msg : Message) (fields : List Header) :
    (add_fields msg fields).body_ = msg.body_ := by
  induction fields generalizing msg with
  | nil => rfl
  | cons f fields ih => exact ih (msg.add_header f.1 f.2)

/-- The fields of a multimap, in its order, make it again. -/
theorem add_fields_again {msg : Message} (hempty : msg.headers_.fields = []) (h : Headers) :
    add_fields msg h.fields = { msg with headers_ := h } := by
  have hfields := @fields_add_fields msg h.fields (by rw [hempty]; exact h.ordered)
  have hversion := version_add_fields msg h.fields
  have hbody := body_add_fields msg h.fields
  rw [hempty, List.nil_append] at hfields
  cases hadded : add_fields msg h.fields with
  | mk version headers body =>
    rw [hadded] at hfields hversion hbody
    simp only at hfields hversion hbody
    rw [hversion, hbody, Headers.ext hfields]

/-! ## First lines -/

/-- What a line leaves of the parser: another exchange. -/
structure AfterLine (p q : HttpParser) (exchange : Exchange) : Prop where
  exchange : q.exchange_ = exchange
  lines : LinesOpen q.lines
  body : q.body = p.body
  limit : q.body_size_limit = p.body_size_limit

section

variable {p q : HttpParser}

theorem read_request_line_of (ho : LinesOpen p.lines) {method target version : Text}
    {req : Request} (hmethod : Message.SP ∉ method) (htarget : Message.SP ∉ target)
    (hversion : cut 13 10 version = none) (hshort : method.length < 2 ^ 31)
    (hshort' : target.length < 2 ^ 31) (hshort'' : version.length < 2 ^ 31)
    (hline : line_of p.exchange_.req_ method target version = .ok req) (rest : Text) :
    ∃ q, p.read_request_line (Istream.new (request_line method target version ++ rest)) =
        .ok (q, Istream.new rest) ∧ AfterLine p q (p.exchange_.set_request req) := by
  have hw : request_line method target version ++ rest =
      method ++ Message.SP :: (target ++ Message.SP :: (version ++ 13 :: 10 :: rest)) := by
    simp [request_line, Message.CRLF]
  obtain ⟨s1, hs1, hread1⟩ := @CountedSegment.read_piece _ _ _
    (target ++ Message.SP :: (version ++ 13 :: 10 :: rest)) ho.request_method hmethod
  obtain ⟨s2, hs2, hread2⟩ := @CountedSegment.read_piece _ _ _
    (version ++ 13 :: 10 :: rest) ho.request_target htarget
  obtain ⟨s3, hs3, hread3⟩ := CountedSegment.read_line ho.request_version rfl
    (cut_end hversion (by decide) rest)
  have hread3 : p.lines.request_version_buf_.read_until_string
      (Istream.new (version ++ 13 :: 10 :: rest)) Message.CRLF = (s3, Istream.new rest) := hread3
  obtain ⟨r1, hreset1, hopen1⟩ := @CountedSegment.reset_open s1 (by rw [hs1.held]; exact hshort)
  obtain ⟨r2, hreset2, hopen2⟩ := @CountedSegment.reset_open s2 (by rw [hs2.held]; exact hshort')
  obtain ⟨r3, hreset3, hopen3⟩ := @CountedSegment.reset_open s3 (by rw [hs3.held]; exact hshort'')
  obtain ⟨verb, hverb, hline⟩ := bind_eq_ok.mp hline
  obtain ⟨vers, hvers, hline⟩ := bind_eq_ok.mp hline
  obtain ⟨url, hurl, hline⟩ := bind_eq_ok.mp hline
  obtain rfl := Except.ok.inj hline
  rw [hw]
  unfold read_request_line
  simp only [hread1, hs1.full, hs1.view, hread2, hs2.full, hs2.view, hread3, hs3.full, hs3.view,
    Bool.not_true, Bool.false_eq_true, if_false, hverb, hvers, hurl, hreset1, hreset2, hreset3,
    bind, Except.bind]
  exact ⟨_, rfl, rfl, { ho with
    request_method := hopen1
    request_target := hopen2
    request_version := hopen3 }, rfl, rfl⟩

/-- The line of a response, with its two spaces. -/
def response_line (version code msg : Text) : Text :=
  version ++ Message.SP :: (code ++ Message.SP :: (msg ++ Message.CRLF))

theorem read_response_line_of (ho : LinesOpen p.lines) {version code msg : Text} {vers : Version}
    (hversion : Message.SP ∉ version) (hcode : Message.SP ∉ code) (hmsg : cut 13 10 msg = none)
    (hshort : version.length < 2 ^ 31) (hshort' : code.length < 2 ^ 31)
    (hshort'' : msg.length < 2 ^ 31) (hvers : string_to_version version = .ok vers) (rest : Text) :
    ∃ q, p.read_response_line (Istream.new (response_line version code msg ++ rest)) =
        .ok (q, Istream.new rest) ∧
      AfterLine p q (p.exchange_.set_response { p.exchange_.response with
        version_ := vers, status_ := string_to_status code }) := by
  have hw : response_line version code msg ++ rest =
      version ++ Message.SP :: (code ++ Message.SP :: (msg ++ 13 :: 10 :: rest)) := by
    simp [response_line, Message.CRLF]
  obtain ⟨s1, hs1, hread1⟩ := @CountedSegment.read_piece _ _ _
    (code ++ Message.SP :: (msg ++ 13 :: 10 :: rest)) ho.response_version hversion
  obtain ⟨s2, hs2, hread2⟩ := @CountedSegment.read_piece _ _ _
    (msg ++ 13 :: 10 :: rest) ho.response_code hcode
  obtain ⟨s3, hs3, hread3⟩ := CountedSegment.read_line ho.response_msg rfl
    (cut_end hmsg (by decide) rest)
  have hread3 : p.lines.response_msg_buf_.read_until_string
      (Istream.new (msg ++ 13 :: 10 :: rest)) Message.CRLF = (s3, Istream.new rest) := hread3
  obtain ⟨r1, hreset1, hopen1⟩ := @CountedSegment.reset_open s1 (by rw [hs1.held]; exact hshort)
  obtain ⟨r2, hreset2, hopen2⟩ := @CountedSegment.reset_open s2 (by rw [hs2.held]; exact hshort')
  obtain ⟨r3, hreset3, hopen3⟩ := @CountedSegment.reset_open s3 (by rw [hs3.held]; exact hshort'')
  rw [hw]
  unfold read_response_line
  simp only [hread1, hs1.full, hs1.view, hread2, hs2.full, hs2.view, hread3, hs3.full,
    Bool.not_true, Bool.false_eq_true, if_false, hvers, hreset1, hreset2, hreset3, bind,
    Except.bind]
  exact ⟨_, rfl, rfl, { ho with
    response_version := hopen1
    response_code := hopen2
    response_msg := hopen3 }, rfl, rfl⟩

/-- The parts of a line that is read. -/
theorem read_response_line_parts (ho : LinesOpen p.lines) {w : Text} {inp : Istream}
    (h : p.read_response_line (Istream.new w) = .ok (q, inp)) :
    ∃ version code msg vers rest, w = response_line version code msg ++ rest ∧
      Message.SP ∉ version ∧ Message.SP ∉ code ∧ cut 13 10 msg = none ∧
      string_to_version version = .ok vers ∧ inp = Istream.new rest ∧
      AfterLine p q (p.exchange_.set_response { p.exchange_.response with
        version_ := vers, status_ := string_to_status code }) := by
  unfold read_response_line at h
  split at h
  rename_i version_buf inp1 hread1
  split at h
  · cases h
  rename_i hfull1
  obtain ⟨version, rest1, rfl, hversion, hs1, rfl⟩ :=
    CountedSegment.read_until_complete ho.response_version hread1 (by simpa using hfull1)
  split at h
  rename_i code_buf inp2 hread2
  split at h
  · cases h
  rename_i hfull2
  obtain ⟨code, rest2, rfl, hcode, hs2, rfl⟩ :=
    CountedSegment.read_until_complete ho.response_code hread2 (by simpa using hfull2)
  split at h
  rename_i msg_buf inp3 hread3
  split at h
  · cases h
  rename_i hfull3
  obtain ⟨msg, rest, hmsg, hs3, rfl⟩ :=
    CountedSegment.read_line_complete ho.response_msg hread3 (by simpa using hfull3)
  obtain ⟨vers, hvers, h⟩ := bind_eq_ok.mp h
  obtain ⟨seg1, hseg1, h⟩ := bind_eq_ok.mp h
  obtain ⟨seg2, hseg2, h⟩ := bind_eq_ok.mp h
  obtain ⟨seg3, hseg3, h⟩ := bind_eq_ok.mp h
  obtain ⟨rfl, rfl⟩ := Prod.mk.inj (Except.ok.inj h)
  rw [hs1.view] at hvers
  refine ⟨version, code, msg, vers, rest, ?_, hversion, hcode, line_of_cut hmsg, hvers, rfl, ?_⟩
  · simp [response_line, Message.CRLF, eq_of_cut hmsg]
  · rw [← hs2.view]
    exact ⟨rfl, { ho with
      response_version := (hs1.reset_ok hseg1).1
      response_code := (hs2.reset_ok hseg2).1
      response_msg := (hs3.reset_ok hseg3).1 }, rfl, rfl⟩

theorem read_response_line_ok (ho : LinesOpen p.lines) {w : Text} {inp : Istream}
    (h : p.read_response_line (Istream.new w) = .ok (q, inp)) :
    ∃ vers status rest, inp = Istream.new rest ∧
      AfterLine p q (p.exchange_.set_response { p.exchange_.response with
        version_ := vers, status_ := status }) := by
  obtain ⟨_, code, _, vers, rest, -, -, -, -, -, hinp, hafter⟩ := read_response_line_parts ho h
  exact ⟨vers, _, rest, hinp, hafter⟩

end

/-! ## The first line that is printed -/

theorem method_to_string_plain (m : Method) :
    Message.SP ∉ method_to_string m ∧ (method_to_string m).length < 2 ^ 31 := by
  cases m <;> decide

theorem version_to_string_plain (v : Version) :
    Message.SP ∉ version_to_string v ∧ cut 13 10 (version_to_string v) = none ∧
      (version_to_string v).length < 2 ^ 31 := by
  cases v <;> decide

theorem decimal_plain (n : Nat) : Message.SP ∉ decimal n := by
  have hdigit : ∀ d < 10, UInt8.ofNat (48 + d) ≠ Message.SP := by decide
  unfold decimal
  simp only [List.mem_map, not_exists, not_and]
  intro d hd
  exact hdigit d (lib.numerals.numeral_lt (by decide) hd)

theorem form_of_with_netloc {str scheme : Text} {pos : Nat} {url : Url}
    (h : Url.parse_with_netloc str scheme pos = .ok url) : url.form = .absolute := by
  unfold Url.parse_with_netloc at h
  obtain ⟨text, -, h⟩ := bind_eq_ok.mp h
  obtain ⟨netloc, -, h⟩ := bind_eq_ok.mp h
  split at h
  · split at h
    · obtain ⟨path, -, h⟩ := bind_eq_ok.mp h
      obtain ⟨search, -, h⟩ := bind_eq_ok.mp h
      obtain rfl := Except.ok.inj h
      rfl
    · obtain ⟨path, -, h⟩ := bind_eq_ok.mp h
      obtain rfl := Except.ok.inj h
      rfl
  · obtain ⟨path, -, h⟩ := bind_eq_ok.mp h
    obtain rfl := Except.ok.inj h
    rfl
  · obtain ⟨search, -, h⟩ := bind_eq_ok.mp h
    obtain rfl := Except.ok.inj h
    rfl
  · obtain rfl := Except.ok.inj h
    rfl

theorem form_of_absolute {str : Text} {url : Url} (h : Url.parse_absolute_form str = .ok url) :
    url.form = .absolute := by
  unfold Url.parse_absolute_form at h
  obtain ⟨⟨scheme, netloc_start⟩, -, h⟩ := bind_eq_ok.mp h
  obtain ⟨slashes, -, h⟩ := bind_eq_ok.mp h
  split at h
  · exact form_of_with_netloc h
  · obtain ⟨c, -, h⟩ := bind_eq_ok.mp h
    split at h
    · simp only at h
      split at h
      · obtain ⟨path, -, h⟩ := bind_eq_ok.mp h
        obtain ⟨search, -, h⟩ := bind_eq_ok.mp h
        obtain rfl := Except.ok.inj h
        rfl
      · obtain ⟨path, -, h⟩ := bind_eq_ok.mp h
        obtain rfl := Except.ok.inj h
        rfl
    · obtain ⟨search, -, h⟩ := bind_eq_ok.mp h
      obtain rfl := Except.ok.inj h
      rfl

/-- A target in origin form is printed as it was read. -/
theorem origin_print {target : Text} {verb : Method} {url : Url}
    (h : Url.parse_target target verb = .ok url) (hform : url.form = .origin) :
    url.print = target := by
  unfold Url.parse_target at h
  split at h
  · obtain rfl := Except.ok.inj h
    cases hform
  · obtain ⟨c, -, h⟩ := bind_eq_ok.mp h
    split at h
    · obtain rfl := Except.ok.inj h
      unfold Url.parse_origin_form
      split
      · exact List.take_append_drop _ _
      · exact List.append_nil _
    · split at h
      · unfold Url.parse_authority_form at h
        split at h
        · cases h
        · generalize Url.parse_port _ = port at h
          cases port with
          | error e => cases h
          | ok port =>
            obtain rfl := Except.ok.inj h
            cases hform
      · rw [form_of_absolute h] at hform
        cases hform

end http1.HttpParser

end proxy.http
