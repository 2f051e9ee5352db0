-- The answers that the service makes of errors, `http_service::send_error_response`: which of them
-- are read as they were made, by a reader that knows the request.
import Aether.Http.HttpService
import Aether.Http.RoundTrip

open util.string util.buffer lib.lines

namespace proxy.http.http1.HttpParser

open HttpService (error_page error_response full_server_name)

/-! ## Fields -/

/-- The parser of the one who made the request, when it has the response. -/
def answering (limit : Nat) (e : Exchange) (res : Response) : HttpParser :=
  { new limit e.make_response with exchange_ := e.make_response.set_response res }

theorem error_response_fields (status : Status) (msg : Text) :
    (error_response status msg).headers_.fields =
      [(text "Connection", text "close"),
        (text "Content-Length", decimal (error_page status msg).length),
        (text "Content-Type", text "text/html"), (text "Server", full_server_name)] := rfl

theorem field_of_number {name : Text} (n : Nat) (hname : colon ∉ name)
    (hline : cut 13 10 (name ++ text ": ") = none) : Field (name, decimal n) := by
  have hdigit : ∀ d < 10, whitespace (UInt8.ofNat (48 + d)) = false := by decide
  have hblank : ∀ c ∈ decimal n, whitespace c = false := by
    intro c hc
    obtain ⟨d, hd, rfl⟩ := List.mem_map.mp hc
    exact hdigit d (lib.numerals.numeral_lt (by decide) hd)
  have htrimmed : Trimmed (decimal n) := by
    constructor
    · cases hc : (decimal n).head? with
      | none => rfl
      | some c => simp [hblank c (List.mem_of_mem_head? hc)]
    · cases hc : (decimal n).getLast? with
      | none => rfl
      | some c => simp [hblank c (List.mem_of_mem_getLast? hc)]
  refine ⟨hname, trim_of_trimmed htrimmed, ?_⟩
  exact cut_append_of_last hline (cut_none_of_notMem (Request.oneLine_decimal n).2) (by simp [text])

theorem error_response_field (status : Status) (msg : Text) :
    ∀ f ∈ (error_response status msg).headers_.fields, Field f := by
  have hplain : ∀ f ∈ [(text "Connection", text "close"), (text "Content-Type", text "text/html"),
      (text "Server", full_server_name)], Field f := by
    have hall : ∀ f ∈ [(text "Connection", text "close"),
        (text "Content-Type", text "text/html"), (text "Server", full_server_name)],
        colon ∉ f.1 ∧ trim f.2 = f.2 ∧ cut 13 10 (Request.field_line f) = none := by decide
    exact fun f hf => ⟨(hall f hf).1, (hall f hf).2.1, (hall f hf).2.2⟩
  rw [error_response_fields]
  simp only [List.forall_mem_cons, List.not_mem_nil, false_imp_iff, implies_true,
    and_true] at hplain ⊢
  exact ⟨hplain.1, field_of_number _ (by decide) (by decide), hplain.2⟩

/-! ## Heads and bodies -/

section

variable (limit : Nat) (e : Exchange) (status : Status) (msg : Text)

theorem error_page_ne_nil : error_page status msg ≠ [] := by
  simp [error_page, text]

variable {res : Response}

/-- The reader has the head of an answer, and nothing of its body. -/
theorem head_of_answering (h : ∀ f ∈ res.headers_.fields, Field f) :
    Head limit e .response (answering limit e { res with body_ := [] }) where
  idle := BodyReader.idle_new
  limit := rfl
  bare := rfl
  request h := nomatch h
  response _ := rfl
  target h := nomatch h
  known := by decide
  fields := h

/-- The framing of an answer that has a length but no coding. -/
theorem framing_of_answering {size : Text} (hchunked : res.chunked = false)
    (hlengths : res.get_all_of_header (text "Content-Length") = [size]) :
    (answering limit e { res with body_ := [] }).expected_body_size .response =
      if (answering limit e res).has_no_body .response then .ok (.none, 0)
      else (content_length [size]).map fun n => (.given, n) := by
  have hheader : res.has_header (text "Content-Length") = true := by
    rw [Message.has_header_iff, hlengths]
    exact List.cons_ne_nil _ _
  have hbody : (answering limit e { res with body_ := [] }).has_no_body .response =
      (answering limit e res).has_no_body .response := rfl
  unfold expected_body_size
  rw [hbody]
  split
  · rfl
  · show (if res.chunked then .ok (BodySizeType.chunked, 0)
      else if res.has_header (text "Content-Length") then
        (content_length (res.get_all_of_header (text "Content-Length"))).bind
          fun n => .ok (BodySizeType.given, n)
      else .ok (BodySizeType.all, 0)) = _
    rw [hchunked, hheader, hlengths]
    cases content_length [size] <;> rfl

theorem error_response_chunked : (error_response status msg).chunked = false := by
  unfold Message.chunked Message.header_has_token Headers.equal_range
  rw [error_response_fields]
  rfl

theorem error_response_lengths :
    (error_response status msg).get_all_of_header (text "Content-Length") =
      [decimal (error_page status msg).length] := by
  have hconnection : iequals_fn (text "Connection") (text "Content-Length") = false := by decide
  have htype : iequals_fn (text "Content-Type") (text "Content-Length") = false := by decide
  have hserver : iequals_fn (text "Server") (text "Content-Length") = false := by decide
  have hlength : iequals_fn (text "Content-Length") (text "Content-Length") = true := by decide
  unfold Message.get_all_of_header Headers.equal_range
  rw [error_response_fields]
  simp only [List.filter_cons, hconnection, htype, hserver, hlength, Bool.false_eq_true, if_true,
    if_false]
  simp only [List.filter_nil, List.map_cons, List.map_nil]

theorem content_length_decimal (n : Nat) : content_length [decimal n] =
    if n < 2 ^ 63 then .ok n
    else .error (proxy_error .invalid_body_size "Invalid Content-Length value") := by
  have hcast : lexical_cast_long_long (decimal n) = if n < 2 ^ 63 then some (n : Int) else none :=
    lexical_cast_digits (digits_decimal n)
  unfold content_length
  rw [List.headD_cons, hcast]
  by_cases hn : n < 2 ^ 63
  · rw [if_pos hn, if_pos hn]
    rfl
  · rw [if_neg hn, if_neg hn]
    rfl

/-- The lines of the fields are short, if the page is not longer than a string can be. -/
theorem error_response_lines (h : (error_page status msg).length < 2 ^ 63) :
    ∀ f ∈ (error_response status msg).headers_.fields, (Request.field_line f).length < 2 ^ 31 := by
  have hdigits : (decimal (error_page status msg).length).length ≤ 20 := by
    unfold decimal
    rw [List.length_map]
    refine lib.numerals.length_numeral_le (by decide) (by decide) (Nat.lt_of_lt_of_le h ?_)
    norm_num
  have hline (size : Text) :
      (Request.field_line (text "Content-Length", size)).length = 16 + size.length := by
    rw [Request.field_line, List.length_append,
      show (text "Content-Length" ++ text ": ").length = 16 from by decide]
  have hplain : ∀ f ∈ [(text "Connection", text "close"), (text "Content-Type", text "text/html"),
      (text "Server", full_server_name)], (Request.field_line f).length < 2 ^ 31 := by decide
  rw [error_response_fields]
  simp only [List.forall_mem_cons, List.not_mem_nil, false_imp_iff, implies_true,
    and_true] at hplain ⊢
  refine ⟨hplain.1, ?_, hplain.2⟩
  rw [hline]
  omega

theorem read_pieces_of_error {p : HttpParser} {mode : MessageMode} {err : Error}
    (hidle : p.body.Idle) (h : p.expected_body_size mode = .error err) (piece : Text)
    (pieces : List Text) : p.read_pieces mode [] (piece :: pieces) = .error err := by
  have hcall : p.read_body (Istream.new piece) mode = .error err := by
    unfold read_body
    rw [if_pos (by rw [hidle.state]; rfl), h]
    rfl
  rw [read_pieces, List.nil_append, hcall]
  rfl

/-- A page in a body of its length is there again exactly if it may be, and is not too long. -/
theorem page_again_iff {q : HttpParser} {page : Text} (h : Head limit e .response q)
    (hne : page ≠ []) {bodiless : Bool}
    (hframing : q.expected_body_size .response =
      if bodiless then .ok (.none, 0)
      else (content_length [decimal page.length]).map fun n => (.given, n)) :
    q.DeliversWithLast .response [] page [] page [] ↔
      bodiless = false ∧ page.length ≤ limit ∧ page.length < 2 ^ 31 := by
  cases bodiless with
  | true =>
    refine iff_of_false ?_ (fun hand => nomatch hand.1)
    rintro ⟨r, hrun, -⟩
    rw [List.nil_append, h.read_no_body hframing] at hrun
    exact hne (Progress.complete.inj (Except.ok.inj hrun)).2.1
  | false =>
    rw [if_neg (by decide), content_length_decimal] at hframing
    by_cases hlong : page.length < 2 ^ 63
    · rw [if_pos hlong] at hframing
      by_cases hlimit : page.length ≤ limit
      · rw [sized_delivers_iff h.idle hframing (by rw [h.limit]; exact hlimit) (.inl rfl)
          (List.append_nil page).symm]
        simp [hlimit]
      · refine iff_of_false ?_ (fun hand => hlimit hand.2.1)
        rintro ⟨r, hrun, -⟩
        obtain ⟨_, -, -, -, hgiven⟩ := accepted_body h.idle hframing (by decide) (by decide) hrun
        exact hlimit (h.limit ▸ (hgiven rfl).1)
    · rw [if_neg hlong] at hframing
      refine iff_of_false ?_ (fun hand => hlong (by omega))
      rintro ⟨r, hrun, -⟩
      rw [List.nil_append, read_pieces_of_error h.idle hframing] at hrun
      cases hrun

/-- The answer that the service makes of an error is read as it was made, to its last byte, exactly
if the request and the status let it have a body, and its page fits the limit and an `int`. -/
theorem an_error_page_is_read_iff :
    ReadsBack limit e .response (answering limit e (error_response status msg)) ↔
      (answering limit e (error_response status msg)).has_no_body .response = false ∧
        (error_page status msg).length ≤ limit ∧ (error_page status msg).length < 2 ^ 31 := by
  have hhead := head_of_answering limit e (error_response_field status msg)
  have hframing := framing_of_answering limit e (error_response_chunked status msg)
    (error_response_lengths status msg)
  have hshort := error_response_lines status msg
  have hchunked := error_response_chunked status msg
  have hne := error_page_ne_nil status msg
  have hsets : SetsBody (answering limit e { error_response status msg with body_ := [] })
      .response (error_page status msg) (answering limit e (error_response status msg)) := rfl
  generalize error_response status msg = res at *
  generalize error_page status msg = page at *
  have hfields : ((answering limit e res).message .response).headers_ = res.headers_ := rfl
  have hprint : (answering limit e res).print .response =
      (answering limit e { res with body_ := [] }).print_line .response ++
        (res.headers_.fields.flatMap Message.print_field ++ (Message.CRLF ++ page)) := by
    rw [print_eq, print_line_of_sets hsets, hfields, print_plain hsets hchunked]
  have hagain := head_again hhead (fun h => nomatch h)
  have hlong := head_long hhead (fun h => nomatch h)
  have hfields' : ((answering limit e { res with body_ := [] }).message .response).headers_ =
      res.headers_ := rfl
  simp only [hfields'] at hagain hlong
  unfold ReadsBack
  rw [hprint]
  by_cases hlines : ∀ f ∈ res.headers_.fields, (Request.field_line f).length < 2 ^ 31
  · obtain ⟨q, hhead', hsame, hread⟩ := hagain hlines page []
    rw [hread, delivers_again hhead' (hsets.of_exchange hsame)]
    refine page_again_iff limit e hhead' hne ?_
    rw [expected_body_size_of_exchange hsame]
    exact hframing
  · rw [hlong hlines page []]
    refine iff_of_false ?_ (fun hand => hlines (hshort (by omega)))
    rintro ⟨r, hrun, -⟩
    cases hrun

end

end proxy.http.http1.HttpParser
