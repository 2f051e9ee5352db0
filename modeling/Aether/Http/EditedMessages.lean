-- Messages that an interceptor has changed between the reading and the writing: when
-- what is written is read as the changed message.
import Aether.Http.ErrorPages
import Aether.Http.HeaderEdits

open util.string util.buffer

namespace proxy.http

namespace Message

/-- The calls of `message.hpp` that change a message. -/
inductive Call where
  | edit (e : Edit)
  | set_body (body : Text)
  | set_version (version : Version)
  deriving DecidableEq, Repr

/-- The message after a call. -/
def call (msg : Message) : Call → Message
  | .edit e => msg.edit e
  | .set_body body => { msg with body_ := body }
  | .set_version version => { msg with version_ := version }

/-- What a call adds is a field: the name ends at the colon, and the value is trimmed and has no
line of its own. -/
def Call.Clean : Call → Prop
  | .edit (.add_header name value) => Field (name, value)
  | .edit (.set_header_to_value name value) => Field (name, value)
  | _ => True

theorem fields_of_added {msg : Message} {name value : Text} (hfield : Field (name, value))
    (h : ∀ f ∈ msg.headers_.fields, Field f) :
    ∀ f ∈ (msg.add_header name value).headers_.fields, Field f := by
  intro f hf
  rcases mem_emplace.mp hf with rfl | hf
  · exact hfield
  · exact h f hf

theorem fields_of_removed {msg : Message} {name : Text} (h : ∀ f ∈ msg.headers_.fields, Field f) :
    ∀ f ∈ (msg.remove_header name).headers_.fields, Field f :=
  fun f hf => h f (List.mem_of_mem_eraseP hf)

theorem fields_of_call {msg : Message} {c : Call} (hclean : c.Clean)
    (h : ∀ f ∈ msg.headers_.fields, Field f) : ∀ f ∈ (msg.call c).headers_.fields, Field f := by
  cases c with
  | edit e =>
    cases e with
    | add_header name value => exact fields_of_added hclean h
    | remove_header name => exact fields_of_removed h
    | set_header_to_value name value => exact fields_of_added hclean (fields_of_removed h)
    | set_content_length =>
      exact fields_of_added (http1.HttpParser.field_of_number _ (by decide) (by decide)) h
  | set_body body => exact h
  | set_version version => exact h

/-- Clean calls keep the headers fields. -/
theorem fields_of_calls {msg : Message} {cs : List Call} (hclean : ∀ c ∈ cs, c.Clean)
    (h : ∀ f ∈ msg.headers_.fields, Field f) :
    ∀ f ∈ (cs.foldl call msg).headers_.fields, Field f := by
  induction cs generalizing msg with
  | nil => exact h
  | cons c cs ih =>
    rw [List.forall_mem_cons] at hclean
    exact ih hclean.2 (fields_of_call hclean.1 h)

end Message

namespace http1.HttpParser

/-- The parser when the message of its mode was changed. -/
def edited (p : HttpParser) (mode : MessageMode) (cs : List Message.Call) : HttpParser :=
  p.set_data_for_mode mode (cs.foldl Message.call (p.message mode))

/-- The framing that a reader finds is the one of the body that is printed. -/
def Frames (limit : Nat) (msg : Message) : BodySizeType × Nat → Prop
  | (.none, _) => msg.body_ = [] ∧ msg.chunked = false
  | (.given, size) => msg.body_.length = size ∧ size ≤ limit ∧ size < 2 ^ 31
  | (.chunked, _) => msg.body_ ≠ [] ∧ msg.body_.length ≤ limit ∧ msg.body_.length < 2 ^ 31
  | (.all, _) => False

section

variable {limit : Nat} {e : Exchange} {p q : HttpParser} {mode : MessageMode}

/-! ## Heads -/

/-- A message that was read is a head with a body. -/
theorem head_of_accepted {first : Text} {reads : List Text} {left : Text} {ahead : List Text}
    (h : (fresh limit e mode).read_message mode first reads = .ok (.complete p left ahead)) :
    ∃ q body, Head limit e mode q ∧ SetsBody q mode body p := by
  obtain ⟨⟨p₁, inp⟩, hline, h⟩ := bind_eq_ok.mp h
  obtain ⟨⟨q, out⟩, hheaders, h⟩ := bind_eq_ok.mp h
  obtain ⟨hhead, rest, rfl⟩ := head_of_fresh hline hheaders
  have hrun : q.read_pieces mode [] (rest :: reads) = .ok (.complete p left ahead) := by
    have h : q.read_pieces mode rest ([] :: reads) = .ok (.complete p left ahead) := h
    rw [read_pieces, List.append_nil] at h
    rw [read_pieces, List.nil_append]
    exact h
  obtain ⟨body, hsets, -⟩ := hhead.sets hrun
  exact ⟨q, body, hhead, hsets⟩

/-- A changed message is a head with a body as well. -/
theorem head_of_edited {body : Text} (h : Head limit e mode q) (hsets : SetsBody q mode body p)
    {cs : List Message.Call} (hclean : ∀ c ∈ cs, c.Clean) :
    ∃ q', Head limit e mode q' ∧
      SetsBody q' mode ((p.edited mode cs).message mode).body_ (p.edited mode cs) ∧
      q'.exchange_.req_.target_ = p.exchange_.req_.target_ := by
  have hmessage : p.message mode = { q.message mode with body_ := body } := by
    rw [message_of_exchange hsets, message_set_data]
  have hp : ∀ f ∈ (p.message mode).headers_.fields, Field f := by
    rw [hmessage]
    exact h.fields
  have hfields := Message.fields_of_calls hclean hp
  unfold edited
  rw [message_set_data]
  generalize cs.foldl Message.call (p.message mode) = msg at hfields ⊢
  have hbegun : Begun limit e mode (q.set_data_for_mode mode { msg with body_ := [] }) := by
    refine h.toBegun.set_data rfl ?_ (set_data_limit _) rfl
    rw [set_data_body]
    exact h.idle
  have hhead : ∀ f ∈ ((q.set_data_for_mode mode { msg with body_ := [] }).message mode
      ).headers_.fields, Field f := by
    rw [message_set_data]
    exact hfields
  refine ⟨q.set_data_for_mode mode { msg with body_ := [] }, ⟨hbegun, h.known, hhead⟩, ?_, ?_⟩
  · unfold SetsBody
    rw [message_set_data, exchange_set_data hsets]
    exact (exchange_set_data rfl).symm
  · rw [hsets]
    unfold set_data_for_mode
    split <;> rfl

/-! ## Bodies -/

/-- A body of a given size is there again exactly if it has that size, and may have it. -/
theorem given_edited_iff (h : Head limit e mode q) {body : Text} {size : Nat}
    (hframing : q.expected_body_size mode = .ok (.given, size)) (hsets : SetsBody q mode body p) :
    q.DeliversWithLast mode [] (p.message mode).print_body [] body [] ↔
      body.length = size ∧ size ≤ limit ∧ size < 2 ^ 31 := by
  rw [print_plain hsets ((chunked_of_framing h hframing).1 rfl)]
  constructor
  · rintro ⟨r, hrun, hof⟩
    obtain ⟨body', hof', hshort, -, hgiven⟩ :=
      accepted_body h.idle hframing (by decide) (by decide) hrun
    obtain rfl : body' = body := Except.ok.inj (hof'.symm.trans hof)
    obtain ⟨hlimit, hfew, hlen⟩ := hgiven rfl
    have hle : size ≤ body'.length := by simpa using hfew
    rw [h.limit] at hlimit
    have hsmall : size < 2 ^ 31 := by omega
    exact ⟨hlen hsmall, hlimit, hsmall⟩
  · rintro ⟨rfl, hlimit, hsmall⟩
    refine (sized_delivers_iff h.idle hframing ?_ (.inl rfl) ?_).mpr hsmall
    · rw [h.limit]
      exact hlimit
    · exact (List.append_nil body).symm

/-- A body in chunks is there again exactly if it is not empty, and may have its size. -/
theorem chunked_edited_iff (h : Head limit e mode q) {body : Text} {size : Nat}
    (hframing : q.expected_body_size mode = .ok (.chunked, size))
    (hsets : SetsBody q mode body p) :
    q.DeliversWithLast mode [] (p.message mode).print_body [] body [] ↔
      body ≠ [] ∧ body.length ≤ limit ∧ body.length < 2 ^ 31 := by
  constructor
  · intro hagain
    obtain ⟨r, hrun, hof⟩ := hagain
    obtain ⟨body', hof', hshort, hlimit, -⟩ :=
      accepted_body h.idle hframing (by decide) (by decide) hrun
    obtain rfl : body' = body := Except.ok.inj (hof'.symm.trans hof)
    rw [h.limit] at hlimit
    exact ⟨(chunked_again_iff h hframing hsets hshort hlimit).mp ⟨r, hrun, hof⟩, hlimit, hshort⟩
  · rintro ⟨hne, hlimit, hshort⟩
    exact (chunked_again_iff h hframing hsets hshort hlimit).mpr hne

/-- Without a body nothing else than nothing is there again. -/
theorem none_edited_iff (h : Head limit e mode q) {body : Text} {size : Nat}
    (hframing : q.expected_body_size mode = .ok (.none, size)) (hsets : SetsBody q mode body p) :
    q.DeliversWithLast mode [] (p.message mode).print_body [] body [] ↔
      body = [] ∧ (q.message mode).chunked = false := by
  by_cases hempty : body = []
  · subst hempty
    rw [none_again_iff h hframing hsets]
    simp
  · refine iff_of_false ?_ fun hand => hempty hand.1
    rintro ⟨r, hrun, hof⟩
    rw [List.nil_append, h.read_no_body hframing] at hrun
    obtain ⟨rfl, -, -⟩ := Progress.complete.inj (Except.ok.inj hrun)
    have hnone : q.body_of mode = .ok (q.message mode).body_ := by
      unfold body_of
      rw [get_data_message h.known]
      rfl
    rw [hnone, h.bare] at hof
    exact hempty (Except.ok.inj hof).symm

/-- What is printed of a body is that body for a reader of the head exactly if the framing is there
and is its own. -/
theorem body_edited_iff (h : Head limit e mode q) {body : Text} (hsets : SetsBody q mode body p)
    (hall : ∀ size, q.expected_body_size mode ≠ .ok (.all, size)) :
    q.DeliversWithLast mode [] (p.message mode).print_body [] body [] ↔
      ∃ framing, q.expected_body_size mode = .ok framing ∧
        Frames limit (p.message mode) framing := by
  have hmessage : p.message mode = { q.message mode with body_ := body } := by
    rw [message_of_exchange hsets, message_set_data]
  have hbody : (p.message mode).body_ = body := by rw [hmessage]
  have htoken : (p.message mode).chunked = (q.message mode).chunked := by
    rw [hmessage]
    rfl
  cases hframing : q.expected_body_size mode with
  | error err =>
    refine iff_of_false ?_ ?_
    · rintro ⟨r, hrun, -⟩
      rw [List.nil_append, read_pieces_of_error h.idle hframing] at hrun
      cases hrun
    · rintro ⟨framing, hok, -⟩
      cases hok
  | ok framing =>
    have hone : (∃ found, (Except.ok framing : Except Error (BodySizeType × Nat)) = .ok found ∧
        Frames limit (p.message mode) found) ↔ Frames limit (p.message mode) framing := by
      simp only [Except.ok.injEq, exists_eq_left']
    rw [hone]
    obtain ⟨type, size⟩ := framing
    cases type with
    | none =>
      rw [none_edited_iff h hframing hsets, ← hbody, ← htoken]
      rfl
    | given =>
      rw [given_edited_iff h hframing hsets, ← hbody]
      rfl
    | chunked =>
      rw [chunked_edited_iff h hframing hsets, ← hbody]
      rfl
    | all => exact absurd hframing (hall size)

/-! ## Messages -/

/-- An accepted message that clean calls have changed, a request with a target in `origin` form or a
response to any request, is printed as itself exactly if its fields fit their lines and the framing
that its headers have by then is that of its body. -/
theorem an_edited_message_reads_back_iff {first : Text} {reads : List Text} {left : Text}
    {ahead : List Text} {cs : List Message.Call}
    (haccepted : (fresh limit e mode).read_message mode first reads =
      .ok (.complete p left ahead))
    (hform : mode = .request → p.exchange_.req_.target_.form = .origin)
    (hclean : ∀ c ∈ cs, c.Clean)
    (hall : ∀ size, (p.edited mode cs).expected_body_size mode ≠ .ok (.all, size)) :
    ReadsBack limit e mode (p.edited mode cs) ↔
      (∀ f ∈ ((p.edited mode cs).message mode).headers_.fields,
        (Request.field_line f).length < 2 ^ 31) ∧
      ∃ framing, (p.edited mode cs).expected_body_size mode = .ok framing ∧
        Frames limit ((p.edited mode cs).message mode) framing := by
  obtain ⟨q₀, body₀, hhead₀, hsets₀⟩ := head_of_accepted haccepted
  obtain ⟨q, hhead, hsets, htarget⟩ := head_of_edited hhead₀ hsets₀ hclean
  generalize p.edited mode cs = p' at *
  have hmessage : p'.message mode = { q.message mode with body_ := (p'.message mode).body_ } := by
    conv_lhs => rw [message_of_exchange hsets, message_set_data]
  have hfields : (p'.message mode).headers_ = (q.message mode).headers_ := by rw [hmessage]
  have hform' : mode = .request → q.exchange_.req_.target_.form = .origin := by
    intro hmode
    rw [htarget]
    exact hform hmode
  have hframing : p'.expected_body_size mode = q.expected_body_size mode :=
    expected_body_size_of_sets hhead.toBegun hsets
  have hprint : p'.print mode = q.print_line mode ++
      ((q.message mode).headers_.fields.flatMap Message.print_field ++
        (Message.CRLF ++ (p'.message mode).print_body)) := by
    rw [print_eq, print_line_of_sets hsets, hfields]
  unfold ReadsBack
  rw [hprint, hfields, hframing]
  rw [hframing] at hall
  by_cases hlines : ∀ f ∈ (q.message mode).headers_.fields, (Request.field_line f).length < 2 ^ 31
  · obtain ⟨q', hhead', hsame, hagain⟩ :=
      head_again hhead hform' hlines (p'.message mode).print_body []
    have hsets' := hsets.of_exchange hsame
    have hframing' : q'.expected_body_size mode = q.expected_body_size mode :=
      expected_body_size_of_exchange hsame
    have hall' : ∀ size, q'.expected_body_size mode ≠ .ok (.all, size) := by
      rw [hframing']
      exact hall
    rw [hagain, delivers_again hhead' hsets', body_edited_iff hhead' hsets' hall', hframing']
    exact (and_iff_right hlines).symm
  · rw [head_long hhead hform' hlines]
    refine iff_of_false ?_ fun hand => hlines hand.1
    rintro ⟨r, hrun, -⟩
    cases hrun

end

/-- `set_content_length` leaves the length that was there: a new body has to take it away. -/
theorem a_length_is_to_be_taken_away :
    ∃ p, (fresh 4097 .new .request).read_message .request a_post [] = .ok (.complete p [] []) ∧
      ¬ ReadsBack 4097 .new .request
        (p.edited .request [.set_body (text "hi"), .edit .set_content_length]) ∧
      ReadsBack 4097 .new .request (p.edited .request [.set_body (text "hi"),
        .edit (.remove_header (text "Content-Length")), .edit .set_content_length]) := by
  refine ⟨_, rfl, ?_⟩
  have haccepted : (fresh 4097 .new .request).read_message .request a_post [] =
      .ok (.complete _ [] []) := rfl
  have hclean : ∀ c ∈ [Message.Call.set_body (text "hi"), .edit .set_content_length], c.Clean := by
    simp [Message.Call.Clean]
  have hclean' : ∀ c ∈ [Message.Call.set_body (text "hi"),
      .edit (.remove_header (text "Content-Length")), .edit .set_content_length], c.Clean := by
    simp [Message.Call.Clean]
  have hadded := an_edited_message_reads_back_iff haccepted (by decide) hclean
    (fun size h => by cases h)
  have htaken := an_edited_message_reads_back_iff haccepted (by decide) hclean'
    (fun size h => by cases h)
  refine ⟨?_, htaken.mpr ⟨by decide, (.given, 2), by decide, by decide, by decide, by decide⟩⟩
  rw [hadded]
  rintro ⟨-, framing, hframing, -⟩
  cases hframing

end http1.HttpParser

end proxy.http
