-- Whether the head that is forwarded has the lines of the request, and no others,
-- for every recipient.
import Aether.Http.HeadReading
import Aether.Http.TargetBytes
import Aether.Lib.Rfc7230Lines

open util.string util.buffer lib.lines lib.rfc7230

namespace proxy.http

/-! ## The head that is printed -/

namespace Request

/-- The first line of a request. -/
def first_line (req : Request) : Text :=
  method_to_string req.method_ ++ [Message.SP] ++ req.target_.print ++ [Message.SP] ++
    version_to_string req.version_

def print_head (req : Request) : Text :=
  req.first_line ++ Message.CRLF ++ req.headers_.fields.flatMap Message.print_field ++ Message.CRLF

theorem print_eq (req : Request) : req.print = req.print_head ++ req.print_body := by
  simp [print, print_head, first_line, Message.print]

/-- A field on its line. -/
def field_line (f : Header) : Text := f.1 ++ text ": " ++ f.2

/-- No part of a head ends a line, and every recipient sees the first line, a line for each field
and the empty line. -/
structure Whole (req : Request) : Prop where
  method : OneLine (method_to_string req.method_)
  target : OneLine req.target_.bytes
  version : OneLine (version_to_string req.version_)
  names : ∀ f ∈ req.headers_.fields, OneLine f.1
  values : ∀ f ∈ req.headers_.fields, OneLine f.2
  lines : ∀ bareLf, recipientLines bareLf req.print_head =
    req.first_line :: req.headers_.fields.map field_line ++ [[], []]

theorem oneLine_decimal (n : Nat) : OneLine (decimal n) := by
  have hdigit : ∀ d < 10, UInt8.ofNat (48 + d) ≠ 13 ∧ UInt8.ofNat (48 + d) ≠ 10 := by decide
  unfold OneLine decimal
  simp only [List.mem_map, not_exists, not_and]
  constructor
  · intro d hd
    exact (hdigit d (lib.numerals.numeral_lt (by decide) hd)).1
  · intro d hd
    exact (hdigit d (lib.numerals.numeral_lt (by decide) hd)).2

/-- A target is printed with nothing but its texts and separators. -/
theorem oneLine_print {u : Url} (h : OneLine u.bytes) : OneLine u.print := by
  simp only [Url.bytes, oneLine_append] at h
  obtain ⟨⟨⟨⟨⟨hscheme, husername⟩, hpassword⟩, hhost⟩, hpath⟩, hsearch⟩ := h
  have hcolon {s : Text} (hs : OneLine s) : OneLine (colon :: s) :=
    oneLine_cons.mpr ⟨by decide, by decide, hs⟩
  have hstring : OneLine u.netloc.to_host_string := by
    refine oneLine_append.mpr ⟨hhost, ?_⟩
    cases u.netloc.port with
    | none => exact oneLine_nil
    | some port => exact hcolon (oneLine_decimal _)
  have huser : OneLine (if u.netloc.username = [] then []
      else u.netloc.username ++
        (if u.netloc.password = [] then [] else colon :: u.netloc.password) ++ [64]) := by
    split
    · exact oneLine_nil
    · refine oneLine_append.mpr ⟨oneLine_append.mpr ⟨husername, ?_⟩, by decide⟩
      split
      · exact oneLine_nil
      · exact hcolon hpassword
  have hnetloc : OneLine u.netloc.print := by
    unfold NetworkLocation.print
    split
    · exact oneLine_nil
    · exact oneLine_append.mpr ⟨huser, hstring⟩
  have hfront : OneLine (if u.scheme = [] then []
      else u.scheme ++ [colon] ++ (if u.netloc.empty then [] else text "//")) := by
    split
    · exact oneLine_nil
    · refine oneLine_append.mpr ⟨oneLine_append.mpr ⟨hscheme, by decide⟩, ?_⟩
      split
      · exact oneLine_nil
      · decide
  unfold Url.print
  split
  · decide
  · exact oneLine_append.mpr ⟨hpath, hsearch⟩
  · exact oneLine_append.mpr
      ⟨oneLine_append.mpr ⟨oneLine_append.mpr ⟨hfront, hnetloc⟩, hpath⟩, hsearch⟩

theorem recipientLines_fields {fields : List Header} (hnames : ∀ f ∈ fields, OneLine f.1)
    (hvalues : ∀ f ∈ fields, OneLine f.2) (bareLf : Bool) (rest : Text) :
    recipientLines bareLf (fields.flatMap Message.print_field ++ rest) =
      fields.map field_line ++ recipientLines bareLf rest := by
  induction fields with
  | nil => rfl
  | cons f fields ih =>
    have hline : OneLine (field_line f) := by
      unfold field_line
      rw [oneLine_append, oneLine_append]
      exact ⟨⟨hnames f List.mem_cons_self, by decide⟩, hvalues f List.mem_cons_self⟩
    have hcons : (f :: fields).flatMap Message.print_field ++ rest =
        field_line f ++ 13 :: 10 :: (fields.flatMap Message.print_field ++ rest) := by
      simp [Message.print_field, field_line, Message.CRLF]
    rw [hcons, recipientLines_line hline, ih (fun g hg => hnames g (List.mem_cons_of_mem f hg))
      (fun g hg => hvalues g (List.mem_cons_of_mem f hg))]
    rfl

/-- Where the parts have no breaks, the lines are those of the request. -/
theorem Whole.of_parts {req : Request} (htarget : OneLine req.target_.bytes)
    (hnames : ∀ f ∈ req.headers_.fields, OneLine f.1)
    (hvalues : ∀ f ∈ req.headers_.fields, OneLine f.2) : req.Whole := by
  have hmethod : OneLine (method_to_string req.method_) := by
    cases req.method_ <;> decide
  have hversion : OneLine (version_to_string req.version_) := by
    cases req.version_ <;> decide
  have hfirst : OneLine req.first_line := by
    simp only [first_line, oneLine_append]
    exact ⟨⟨⟨⟨hmethod, by decide⟩, oneLine_print htarget⟩, by decide⟩, hversion⟩
  refine ⟨hmethod, htarget, hversion, hnames, hvalues, fun bareLf => ?_⟩
  have hhead : req.print_head = req.first_line ++ 13 :: 10 ::
      (req.headers_.fields.flatMap Message.print_field ++ Message.CRLF) := by
    simp [print_head, Message.CRLF]
  rw [hhead, recipientLines_line hfirst, recipientLines_fields hnames hvalues]
  cases bareLf <;> rfl

end Request

/-! ## The head that is read -/

/-- The bytes up to the first space, and those behind it. -/
def before_space (s : Text) : Text := s.takeWhile (fun c => c != Message.SP)

def behind_space (s : Text) : Text := (s.dropWhile (fun c => c != Message.SP)).tail

theorem before_space_cut {a b : Text} (h : Message.SP ∉ a) :
    before_space (a ++ Message.SP :: b) = a :=
  takeWhile_cut h

theorem behind_space_cut {a b : Text} (h : Message.SP ∉ a) :
    behind_space (a ++ Message.SP :: b) = b := by
  unfold behind_space
  rw [dropWhile_cut h, List.tail_cons]

/-- The text of the method of a head, of its target, and of what follows the first line. -/
def method_text (head : Text) : Text := before_space head

def target_text (head : Text) : Text := before_space (behind_space head)

def headers_text (head : Text) : Text :=
  ((cut 13 10 (behind_space (behind_space head))).map Prod.snd).getD []

/-- A head without a bare CR or a bare LF in the lines of its headers, and with no CR or LF in its
target, but where the parser leaves them out. -/
structure CleanHead (head : Text) : Prop where
  target : OneLine (kept (method_text head) (target_text head))
  headers : ∀ line ∈ linesBeforeEmpty 13 10 (headers_text head), OneLine line

/-! ## The fields -/

theorem mem_trim_iff {c : UInt8} (hc : whitespace c = false) (s : Text) : c ∈ trim s ↔ c ∈ s := by
  have hdrop (t : Text) : c ∈ t.dropWhile whitespace ↔ c ∈ t := by
    constructor
    · exact fun hmem => (List.dropWhile_sublist _).subset hmem
    · intro hmem
      rw [← List.takeWhile_append_dropWhile (p := whitespace) (l := t), List.mem_append] at hmem
      refine hmem.resolve_left (fun htake => ?_)
      rw [List.mem_takeWhile_imp htake] at hc
      cases hc
  unfold trim
  rw [List.mem_reverse, hdrop, List.mem_reverse, hdrop]

theorem oneLine_trim (s : Text) : OneLine (trim s) ↔ OneLine s := by
  unfold OneLine
  rw [mem_trim_iff rfl, mem_trim_iff rfl]

namespace http1.HttpParser

theorem oneLine_field {line : Text} {f : Header} (h : read_field line = .ok f) :
    OneLine line ↔ OneLine f.1 ∧ OneLine f.2 := by
  unfold read_field at h
  split at h
  · cases h
  · rename_i i hfind
    obtain rfl := Except.ok.inj h
    obtain ⟨a, b, hline, -, rfl⟩ := find_eq_some hfind
    rw [List.drop_zero] at hline
    subst hline
    rw [Nat.zero_add, List.take_left, ← List.drop_drop, List.drop_left, List.drop_one,
      List.tail_cons, oneLine_trim, oneLine_append, oneLine_cons]
    simp [colon]

theorem oneLine_fields {lines : List Text} {fields : List Header} (h : FieldLines lines fields) :
    (∀ line ∈ lines, OneLine line) ↔ (∀ f ∈ fields, OneLine f.1) ∧ ∀ f ∈ fields, OneLine f.2 := by
  have hread := h.read
  clear h
  induction hread with
  | nil => simp
  | cons hline _ ih =>
    simp only [List.forall_mem_cons, ih, oneLine_field hline]
    tauto

theorem mem_add_fields {msg : Message} {fields : List Header} {f : Header} :
    f ∈ (add_fields msg fields).headers_.fields ↔ f ∈ fields ∨ f ∈ msg.headers_.fields := by
  induction fields generalizing msg with
  | nil => simp [add_fields]
  | cons g fields ih =>
    have hstep : add_fields msg (g :: fields) = add_fields (msg.add_header g.1 g.2) fields := rfl
    rw [hstep, ih, Message.add_header, Headers.emplace, mem_emplace, List.mem_cons]
    tauto

theorem linesBeforeEmpty_header_lines {lines : List Text} {fields : List Header}
    (h : FieldLines lines fields) (rest : Text) :
    linesBeforeEmpty 13 10 (header_lines lines ++ rest) = lines := by
  have hsome := h.some_
  have hwhole := h.whole
  clear h
  induction lines with
  | nil =>
    have hend : cut 13 10 (13 :: 10 :: rest) = some ([], rest) := rfl
    exact linesBeforeEmpty_of_cut hend
  | cons line lines ih =>
    rw [List.forall_mem_cons] at hsome hwhole
    rw [header_lines_cons, linesBeforeEmpty_of_cut (cut_end hwhole.1 (by decide) _),
      if_neg hsome.1, ih hsome.2 hwhole.2]

/-! ## The head -/

theorem read_head_ok {limit : Nat} {head : Text} {p : HttpParser}
    (h : (new limit .new).read_head head = .ok p) :
    ∃ method target version lines fields rest req,
      head = request_line method target version ++ (header_lines lines ++ rest) ∧
      Message.SP ∉ method ∧ Message.SP ∉ target ∧ cut 13 10 version = none ∧
      line_of .new method target version = .ok req ∧ FieldLines lines fields ∧
      p.exchange_.req_ = { req with toMessage := add_fields req.toMessage fields } := by
  obtain ⟨⟨q, inp⟩, hline, h⟩ := bind_eq_ok.mp h
  obtain ⟨⟨q', inp'⟩, hheaders, h⟩ := bind_eq_ok.mp h
  obtain rfl := Except.ok.inj h
  obtain ⟨method, target, version, rest, req, rfl, hmethod, htarget, -, hversion, hreq, hexchange,
    hopen, -, -, rfl⟩ := read_request_line_ok linesOpen_new hline
  obtain ⟨lines, fields, rest', rfl, hlines, hexchange', -⟩ :=
    read_request_headers_ok hopen hheaders
  refine ⟨method, target, version, lines, fields, rest', req, rfl, hmethod, htarget, hversion, hreq,
    hlines, ?_⟩
  rw [hexchange', hexchange]
  rfl

theorem line_of_ok {req req' : Request} {method target version : Text}
    (h : line_of req method target version = .ok req') :
    method = method_to_string req'.method_ ∧
      Url.parse_target target req'.method_ = .ok req'.target_ ∧
      req'.toMessage = { req.toMessage with version_ := req'.version_ } := by
  unfold line_of at h
  obtain ⟨verb, hverb, h⟩ := bind_eq_ok.mp h
  obtain ⟨vers, hvers, h⟩ := bind_eq_ok.mp h
  obtain ⟨url, hurl, h⟩ := bind_eq_ok.mp h
  obtain rfl := Except.ok.inj h
  exact ⟨method_to_string_of hverb, hurl, rfl⟩

/-- The head of a request is forwarded with the lines it has for this parser, for every recipient,
exactly if it is clean. -/
theorem a_head_stays_whole_iff {limit : Nat} {head : Text} {p : HttpParser}
    (h : (new limit .new).read_head head = .ok p) :
    p.exchange_.req_.Whole ↔ CleanHead head := by
  obtain ⟨method, target, version, lines, fields, rest, req, rfl, hmethod, htarget, hversion, hreq,
    hlines, hp⟩ := read_head_ok h
  obtain ⟨rfl, htarget', hmsg⟩ := line_of_ok hreq
  generalize hhead : request_line (method_to_string req.method_) target version ++
    (header_lines lines ++ rest) = head
  have hcut : head = method_to_string req.method_ ++ Message.SP :: (target ++ Message.SP ::
      (version ++ 13 :: 10 :: (header_lines lines ++ rest))) := by
    rw [← hhead]
    simp [request_line, Message.CRLF]
  have hmethod' : method_text head = method_to_string req.method_ := by
    rw [method_text, hcut, before_space_cut hmethod]
  have htext : target_text head = target := by
    rw [target_text, hcut, behind_space_cut hmethod, before_space_cut htarget]
  have hheaders : linesBeforeEmpty 13 10 (headers_text head) = lines := by
    rw [headers_text, hcut, behind_space_cut hmethod, behind_space_cut htarget,
      cut_end hversion (by decide)]
    exact linesBeforeEmpty_header_lines hlines rest
  have hbytes : OneLine req.target_.bytes ↔
      OneLine (kept (method_text head) (target_text head)) := by
    rw [hmethod', htext]
    unfold OneLine
    rw [Url.mem_target_iff (.inl rfl) htarget', Url.mem_target_iff (.inr rfl) htarget']
  have hmem (f : Header) : f ∈ p.exchange_.req_.headers_.fields ↔ f ∈ fields := by
    rw [hp, mem_add_fields, hmsg]
    exact or_iff_left List.not_mem_nil
  have hurl : p.exchange_.req_.target_ = req.target_ := by rw [hp]
  constructor
  · intro hwhole
    refine ⟨hbytes.mp (hurl ▸ hwhole.target), ?_⟩
    rw [hheaders, oneLine_fields hlines]
    exact ⟨fun f hf => hwhole.names f ((hmem f).mpr hf),
      fun f hf => hwhole.values f ((hmem f).mpr hf)⟩
  · intro hclean
    have hfields := hclean.headers
    rw [hheaders, oneLine_fields hlines] at hfields
    exact .of_parts (hurl ▸ hbytes.mpr hclean.target) (fun f hf => hfields.1 f ((hmem f).mp hf))
      (fun f hf => hfields.2 f ((hmem f).mp hf))

def an_origin_head : Text := text "GET /a HTTP/1.1\r\nHost: a\r\n\r\n"

/-- A head with a bare LF in its target. -/
def a_head_with_a_break : Text := text "GET /a\nX:y HTTP/1.1\r\nHost: a\r\n\r\n"

theorem a_plain_head_stays_whole_iff :
    ∃ p, (new 4097 .new).read_head an_origin_head = .ok p ∧
      (p.exchange_.req_.Whole ↔ CleanHead an_origin_head) := by
  refine ⟨_, rfl, ?_⟩
  exact a_head_stays_whole_iff rfl

/-- The recipient sees another line in front of the fields. -/
theorem a_head_with_a_break_is_not_whole :
    ∃ p, (new 4097 .new).read_head a_head_with_a_break = .ok p ∧
      ¬ p.exchange_.req_.Whole ∧
      recipientLines true p.exchange_.req_.print_head =
        [text "GET /a", text "X:y HTTP/1.1", text "Host: a", [], []] := by
  refine ⟨_, rfl, fun hwhole => absurd hwhole.target (by decide), by decide⟩

end http1.HttpParser

end proxy.http
