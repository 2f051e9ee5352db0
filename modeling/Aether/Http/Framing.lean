-- How the body of a request is framed, against the rules of RFC 7230.
import Aether.Http.HttpParser
import Aether.Lib.Rfc7230Length

open util.string util.buffer lib.rfc7230

namespace proxy.http.http1

/-! ## What the fields of the two headers say -/

namespace HttpParser

def codings (msg : Message) : List Text := msg.get_all_of_header (text "Transfer-Encoding")

def lengths (msg : Message) : List Text := msg.get_all_of_header (text "Content-Length")

/-- The framing of a length of the RFC. -/
def framing : BodyLength → BodySizeType × Nat
  | .chunked => (.chunked, 0)
  | .sized n => (.given, n)
  | .empty => (.none, 0)

/-- `boost::lexical_cast` makes a size of a value. -/
def Readable (v : Text) : Prop := ∃ x, lexical_cast_long_long v = some x ∧ 0 ≤ x

/-- What the code does right. With a `Transfer-Encoding`, some token is spelled `chunked` exactly
where the last coding is it, and otherwise the `Content-Length` is refused as well. Without one, a
`Content-Length` that is the same in all fields is below 2^63 if it is all digits, and no number
to the code if it is not. -/
structure Conforms (msg : Message) : Prop where
  last : codings msg ≠ [] → LastChunked (codings msg) → msg.chunked = true
  other : codings msg ≠ [] → ¬ LastChunked (codings msg) → msg.chunked = false ∧
    lengths msg ≠ [] ∧ (Same (lengths msg) → ¬ Readable ((lengths msg).headD []))
  digits : codings msg = [] → lengths msg ≠ [] → Same (lengths msg) →
    ∀ n, decimalNumber ((lengths msg).headD []) = some n → n < 2 ^ 63
  others : codings msg = [] → lengths msg ≠ [] → Same (lengths msg) →
    decimalNumber ((lengths msg).headD []) = none → ¬ Readable ((lengths msg).headD [])

/-! ## The size of `Content-Length` -/

theorem same_cons_cons {v w : Text} {sizes : List Text} :
    Same (v :: w :: sizes) ↔ v = w ∧ Same (w :: sizes) := by
  unfold Same
  simp only [List.headD_cons, List.forall_mem_cons, true_and]
  constructor
  · rintro ⟨rfl, h⟩
    exact ⟨rfl, h⟩
  · rintro ⟨rfl, h⟩
    exact ⟨rfl, h⟩

theorem adjacent_same {sizes : List Text} :
    (sizes.zip sizes.tail).any (fun s => s.1 != s.2) = false ↔ Same sizes := by
  induction sizes with
  | nil => simp [Same]
  | cons v sizes ih =>
    cases sizes with
    | nil => simp [Same]
    | cons w sizes =>
      rw [same_cons_cons, ← ih]
      simp

theorem content_length_eq (sizes : List Text) :
    (content_length sizes).toOption =
      if Same sizes then
        (lexical_cast_long_long (sizes.headD [])).bind
          (fun x => if x < 0 then none else some x.toNat)
      else none := by
  unfold content_length
  by_cases hsame : Same sizes
  · rw [adjacent_same.mpr hsame, if_pos hsame]
    simp only [Bool.false_eq_true, if_false]
    cases lexical_cast_long_long (sizes.headD []) with
    | none => rfl
    | some x =>
      simp only [Option.bind_some]
      split <;> rfl
  · have hany : (sizes.zip sizes.tail).any (fun s => s.1 != s.2) = true := by
      rw [← Bool.not_eq_false, adjacent_same]
      exact hsame
    rw [hany, if_neg hsame]
    rfl

/-- The sizes are refused where they differ, or are no numbers. -/
theorem content_length_eq_none {sizes : List Text} :
    (content_length sizes).toOption = none ↔ (Same sizes → ¬ Readable (sizes.headD [])) := by
  rw [content_length_eq]
  by_cases hsame : Same sizes
  · rw [if_pos hsame, Option.bind_eq_none_iff]
    simp only [hsame, true_imp_iff, Readable]
    constructor
    · rintro h ⟨x, hx, hle⟩
      have hx' := h x hx
      rw [if_neg (by omega)] at hx'
      cases hx'
    · intro h x hx
      rw [if_pos]
      by_contra hlt
      exact h ⟨x, hx, by omega⟩
  · simp [hsame]

/-- Digits are read as their number, if it is a `long long`. -/
theorem lexical_cast_digits {v : Text} {n : Nat} (h : decimalNumber v = some n) :
    lexical_cast_long_long v = if n < 2 ^ 63 then some (n : Int) else none := by
  have hdigits : digits v = some n := h
  unfold lexical_cast_long_long
  rw [sign_of_digits hdigits]
  simp only [hdigits, Option.bind_some, Bool.false_eq_true, if_false]

/-! ## The framing of a request -/

/-- A message without the header has no token of it. -/
theorem not_chunked_of_no_codings {msg : Message} (h : codings msg = []) : msg.chunked = false := by
  have hrange : msg.headers_.equal_range (text "Transfer-Encoding") = [] :=
    List.map_eq_nil_iff.mp h
  unfold Message.chunked Message.header_has_token
  rw [hrange]
  rfl

/-- The framing that the code finds in the headers of a request. -/
def framed (msg : Message) : Option (BodySizeType × Nat) :=
  if msg.chunked then some (.chunked, 0)
  else if lengths msg ≠ [] then
    (content_length (lengths msg)).toOption.map (fun n => (.given, n))
  else some (.none, 0)

section

variable {msg : Message}

theorem framed_empty (hcodings : codings msg = []) (hlengths : lengths msg = []) :
    framed msg = some (.none, 0) := by
  unfold framed
  rw [not_chunked_of_no_codings hcodings, hlengths]
  rfl

theorem last_conforms_iff :
    framed msg = (some BodyLength.chunked).map framing ↔ msg.chunked = true := by
  unfold framed
  by_cases hchunked : msg.chunked = true
  · rw [if_pos hchunked]
    exact ⟨fun _ => hchunked, fun _ => rfl⟩
  · rw [if_neg hchunked]
    refine ⟨fun h => ?_, fun h => absurd h hchunked⟩
    split at h
    · obtain ⟨n, -, hn⟩ := Option.map_eq_some_iff.mp h
      cases hn
    · cases h

theorem other_conforms_iff :
    framed msg = (none : Option BodyLength).map framing ↔ msg.chunked = false ∧
      lengths msg ≠ [] ∧ (Same (lengths msg) → ¬ Readable ((lengths msg).headD [])) := by
  unfold framed
  rw [← content_length_eq_none]
  by_cases hchunked : msg.chunked = true
  · simp [hchunked]
  · by_cases hlengths : lengths msg ≠ []
    · rw [if_neg hchunked, if_pos hlengths]
      simp [hchunked, hlengths]
    · rw [if_neg hchunked, if_neg hlengths]
      simp [hlengths]

theorem sized_conforms_iff (hcodings : codings msg = []) (hlengths : lengths msg ≠ []) :
    framed msg = (requestLength [] (lengths msg)).map framing ↔
      (Same (lengths msg) → ∀ n, decimalNumber ((lengths msg).headD []) = some n → n < 2 ^ 63) ∧
      (Same (lengths msg) → decimalNumber ((lengths msg).headD []) = none →
        ¬ Readable ((lengths msg).headD [])) := by
  unfold framed
  rw [not_chunked_of_no_codings hcodings, if_neg (by decide), if_pos hlengths,
    requestLength_sized hlengths]
  by_cases hsame : Same (lengths msg)
  · rw [if_pos hsame]
    cases hnumber : decimalNumber ((lengths msg).headD []) with
    | none =>
      have hnone := @content_length_eq_none (lengths msg)
      simp only [hsame, true_imp_iff] at hnone
      simp [hsame, hnone]
    | some n =>
      rw [content_length_eq, if_pos hsame, lexical_cast_digits hnumber]
      have hsize : ((some (n : Int)).bind fun x => if x < 0 then none else some x.toNat) =
          some n := by
        rw [Option.bind_some, if_neg (by omega), Int.toNat_natCast]
      by_cases hlt : n < 2 ^ 63
      · rw [if_pos hlt, hsize]
        refine ⟨fun _ => ⟨fun _ m hm => ?_, fun _ hnone => by cases hnone⟩, fun _ => rfl⟩
        obtain rfl := Option.some.inj hm
        exact hlt
      · rw [if_neg hlt]
        exact ⟨fun h => (by cases h), fun h => absurd (h.1 hsame n rfl) hlt⟩
  · rw [if_neg hsame, content_length_eq_none.mpr (fun h => absurd h hsame)]
    exact ⟨fun _ => ⟨fun h => absurd h hsame, fun h => absurd h hsame⟩, fun _ => rfl⟩

end

section

variable {p : HttpParser} (hexpect : p.exchange_.req_.has_header (text "Expect") = false)

include hexpect

theorem has_no_body_request : p.has_no_body .request = false := by
  have hfind : p.exchange_.req_.headers_.find (text "Expect") = none :=
    Option.isSome_eq_false_iff.mp hexpect |> Option.isNone_iff_eq_none.mp
  unfold has_no_body
  simp only [if_true, Message.get_header, hfind]

/-- The request as the code frames it. -/
theorem expected_body_size_request :
    (p.expected_body_size .request).toOption = framed p.exchange_.req_.toMessage := by
  have hget : p.get_data_for_mode .request = .ok p.exchange_.req_.toMessage := rfl
  unfold expected_body_size framed
  rw [has_no_body_request hexpect, hget]
  simp only [Bool.false_eq_true, if_false, bind, Except.bind]
  split
  · rfl
  · by_cases hlengths : lengths p.exchange_.req_.toMessage ≠ []
    · rw [if_pos hlengths, if_pos ((Message.has_header_iff _ _).mpr hlengths)]
      unfold lengths
      cases content_length (p.exchange_.req_.get_all_of_header (text "Content-Length")) <;> rfl
    · rw [if_neg hlengths, if_neg (fun h => hlengths ((Message.has_header_iff _ _).mp h))]
      rfl

/-- The body of a request without `Expect` is framed as RFC 7230 prescribes exactly if its framing
headers are such that the code does the right thing. -/
theorem the_framing_is_that_of_the_rfc_iff :
    (p.expected_body_size .request).toOption =
        (requestLength (codings p.exchange_.req_.toMessage)
          (lengths p.exchange_.req_.toMessage)).map framing ↔
      Conforms p.exchange_.req_.toMessage := by
  rw [expected_body_size_request hexpect]
  generalize p.exchange_.req_.toMessage = msg
  by_cases hcodings : codings msg = []
  · by_cases hlengths : lengths msg = []
    · rw [hcodings, hlengths, requestLength_empty, framed_empty hcodings hlengths]
      refine ⟨fun _ => ⟨?_, ?_, ?_, ?_⟩, fun _ => rfl⟩
      · exact fun h => absurd hcodings h
      · exact fun h => absurd hcodings h
      · exact fun _ h => absurd hlengths h
      · exact fun _ h => absurd hlengths h
    · rw [hcodings, sized_conforms_iff hcodings hlengths]
      refine ⟨fun h => ⟨?_, ?_, ?_, ?_⟩, fun h => ⟨h.digits hcodings hlengths, h.others hcodings
        hlengths⟩⟩
      · exact fun h => absurd hcodings h
      · exact fun h => absurd hcodings h
      · exact fun _ _ => h.1
      · exact fun _ _ => h.2
  · rw [requestLength_coded hcodings]
    by_cases hlast : LastChunked (codings msg)
    · rw [if_pos hlast, last_conforms_iff]
      refine ⟨fun h => ⟨fun _ _ => h, ?_, ?_, ?_⟩, fun h => h.last hcodings hlast⟩
      · exact fun _ hnot => absurd hlast hnot
      · exact fun hnil => absurd hnil hcodings
      · exact fun hnil => absurd hnil hcodings
    · rw [if_neg hlast, other_conforms_iff]
      refine ⟨fun h => ⟨?_, fun _ _ => h, ?_, ?_⟩, fun h => h.other hcodings hlast⟩
      · exact fun _ hyes => absurd hyes hlast
      · exact fun hnil => absurd hnil hcodings
      · exact fun hnil => absurd hnil hcodings

end

def a_sized_head : Text :=
  text "POST / HTTP/1.1\r\nHost: a\r\nContent-Length: 5\r\nContent-Length: 5\r\n\r\n"

/-- Two framings in one head. -/
def a_smuggling_head : Text :=
  text "POST / HTTP/1.1\r\nHost: a\r\nTransfer-Encoding: Chunked\r\nContent-Length: 5\r\n\r\n"

theorem the_framing_of_a_sized_head :
    ∃ p, (new 4097 .new).read_head a_sized_head = .ok p ∧
      ((p.expected_body_size .request).toOption =
        (requestLength (codings p.exchange_.req_.toMessage)
          (lengths p.exchange_.req_.toMessage)).map framing ↔
        Conforms p.exchange_.req_.toMessage) := by
  refine ⟨_, rfl, ?_⟩
  exact the_framing_is_that_of_the_rfc_iff (by decide)

/-- The code takes five bytes for the body, and a recipient takes chunks. -/
theorem the_framing_of_a_smuggling_head :
    ∃ p, (new 4097 .new).read_head a_smuggling_head = .ok p ∧
      p.exchange_.req_.has_header (text "Expect") = false ∧
      (p.expected_body_size .request).toOption ≠
        (requestLength (codings p.exchange_.req_.toMessage)
          (lengths p.exchange_.req_.toMessage)).map framing := by
  refine ⟨_, rfl, ?_, ?_⟩
  · decide
  · decide

end HttpParser

end proxy.http.http1
