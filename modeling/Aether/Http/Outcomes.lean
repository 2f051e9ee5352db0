-- What a handler of the service for HTTP can end with: said once for each, and then
-- for all of them.
import Aether.Http.HttpService

open util.string util.buffer

namespace proxy.http.http1.HttpService

/-- Within a handler: nothing is left yet, no request is written, and of the connection to the
server only bytes are taken. -/
structure Within (s s₁ : HttpService) : Prop where
  outstanding : s₁.outstanding = s.outstanding
  forwarded : s₁.forwarded = s.forwarded
  server : ∃ n, s₁.flow_.server = s.flow_.server.consume n

/-- One continuation is left, that is no connect. -/
def Leaves (s s' : HttpService) : Prop :=
  ∃ s₁ k, Within s s₁ ∧ k ≠ .on_connect_server ∧ s' = s₁.leave k

/-- The server is that of the request. -/
def aimed (s : HttpService) (c : Components) : HttpService :=
  (s.set_server c s.request.host_name s.request.host_port).1

/-- The ends of a handler that starts something. -/
inductive Proceeds (c : Components) (t : Completion) (s : HttpService) : HttpService → Prop
  | leaves {s'} (h : Leaves s s') : Proceeds c t s s'
  /-- A response is there for a request that has its server. -/
  | answers {s₁ s'} (event : HttpEvent) (h : Within s s₁)
      (hs : Leaves ((s₁.intercept t event).aimed c) s') : Proceeds c t s s'
  | connects {s₁ s₂} (h : Within s s₁)
      (hs : s₂ = (s₁.intercept t .request).aimed c ∨
        s₂ = ((s₁.intercept t .request).aimed c).intercept t .websocket_handshake) :
      Proceeds c t s (s₂.connect_server t)

namespace Within

variable {s s₁ : HttpService}

theorem refl (s : HttpService) : Within s s := ⟨rfl, rfl, 0, rfl⟩

theorem set_exchange (h : Within s s₁) (exchange : Exchange) :
    Within s (s₁.set_exchange exchange) :=
  ⟨h.outstanding, h.forwarded, h.server⟩

theorem set_response (h : Within s s₁) (res : Response) : Within s (s₁.set_response res) :=
  h.set_exchange _

theorem set_request (h : Within s s₁) (req : Request) : Within s (s₁.set_request req) :=
  h.set_exchange _

theorem set_error (h : Within s s₁) (error : ErrorState) : Within s (s₁.set_error error) :=
  ⟨h.outstanding, h.forwarded, h.server⟩

theorem intercept (h : Within s s₁) (t : Completion) (event : HttpEvent) :
    Within s (s₁.intercept t event) :=
  ⟨h.outstanding, h.forwarded, h.server⟩

theorem deliver (h : Within s s₁) (received : Option Response) (res : Response) :
    Within s (s₁.deliver received res) :=
  ⟨h.outstanding, h.forwarded, h.server⟩

theorem client_read (h : Within s s₁) (p : HttpParser) (inp : Istream) :
    Within s (s₁.client_read p inp) :=
  ⟨h.outstanding, h.forwarded, h.server⟩

theorem server_read (h : Within s s₁) (p : HttpParser) (inp : Istream) :
    Within s (s₁.server_read p inp) := by
  obtain ⟨n, hn⟩ := h.server
  refine ⟨h.outstanding, h.forwarded, n + (s₁.server_input.length - inp.rdbuf.length), ?_⟩
  simp [HttpService.server_read, set_server_connection, hn, connection.System.consume]

theorem intercept_request (h : Within s s₁) (t : Completion) (req : Request) :
    Within s (s₁.intercept_request t req) :=
  ((h.set_request req).intercept t .any_request).set_request _

/-- The continuation that is left. -/
theorem leaves (h : Within s s₁) {k : Continuation} (hk : k ≠ .on_connect_server) :
    Leaves s (s₁.leave k) :=
  ⟨s₁, k, h, hk, rfl⟩

theorem send_error_response (h : Within s s₁) (status : Status) (msg : Text) :
    Leaves s (s₁.send_error_response status msg) :=
  ((h.set_response _).deliver _ _).leaves nofun

theorem fail_operation (h : Within s s₁) (c : Components) (aborted other : Status)
    (error : ErrorCode) : Leaves s (s₁.fail_operation c aborted other error) :=
  (h.set_error _).send_error_response _ _

theorem fail {s' : HttpService} {status : Status} {e : Error} (h : Within s s₁)
    (hs : s₁.fail status e = .ok s') : Leaves s s' := by
  cases e with
  | state code message =>
    obtain rfl := Except.ok.inj hs
    exact (h.set_error _).send_error_response _ _
  | undefined => cases hs
  | terminated => cases hs

end Within

variable {c : Components} {s s' : HttpService} {t : Completion}

/-! ## The response -/

theorem leaves_modify_response {s₁ : HttpService} (h : Within s s₁) :
    Leaves s (s₁.modify_response c t) :=
  (((h.set_response _).intercept t .response).deliver _ _).leaves nofun

theorem leaves_read_response_body {s₁ : HttpService} {eof : Bool} (h : Within s s₁)
    (hs : s₁.read_response_body c t eof = .ok s') : Leaves s s' := by
  unfold read_response_body at hs
  split at hs
  · exact h.fail hs
  · simp only at hs
    split at hs
    · obtain rfl := Except.ok.inj hs
      exact leaves_modify_response (h.server_read _ _)
    · split at hs
      · obtain rfl := Except.ok.inj hs
        exact ((h.server_read _ _).set_error _).send_error_response _ _
      · obtain rfl := Except.ok.inj hs
        exact (h.server_read _ _).leaves nofun

theorem leaves_on_read_response_body (hs : s.on_read_response_body c t = .ok s') :
    Leaves s s' := by
  unfold on_read_response_body at hs
  split at hs
  · split at hs
    · exact leaves_read_response_body (.refl s) hs
    · obtain rfl := Except.ok.inj hs
      exact (Within.refl s).fail_operation _ _ _ _
  · exact leaves_read_response_body (.refl s) hs

theorem leaves_on_read_response_head (hs : s.on_read_response_head c t = .ok s') :
    Leaves s s' := by
  unfold on_read_response_head at hs
  split at hs
  · obtain rfl := Except.ok.inj hs
    exact (Within.refl s).fail_operation _ _ _ _
  · have h := (Within.refl s).set_exchange s.exchange_.make_response
    simp only at hs
    split at hs
    · exact h.fail hs
    · split at hs
      · exact (h.server_read _ _).fail hs
      · exact leaves_read_response_body (h.server_read _ _) hs

theorem leaves_on_forward_request : Leaves s (s.on_forward_request c t) := by
  unfold on_forward_request
  split
  · exact (Within.refl s).fail_operation _ _ _ _
  · exact (Within.refl s).leaves nofun

theorem leaves_handle_response : Leaves s (s.handle_response c) := by
  have h := Within.refl s
  unfold handle_response
  split
  · exact h.leaves nofun
  · split
    · split
      · exact h.leaves nofun
      · exact h.leaves nofun
    · exact h.leaves nofun

theorem leaves_on_forward_response : Leaves s (s.on_forward_response c t) := by
  unfold on_forward_response
  split
  · exact ((Within.refl s).set_error _).leaves nofun
  · exact leaves_handle_response

theorem leaves_on_send_connect_response : Leaves s (s.on_send_connect_response c) := by
  have h := Within.refl s
  unfold on_send_connect_response
  split
  · split
    · exact h.leaves nofun
    · split
      · exact h.leaves nofun
      · exact h.leaves nofun
  · split
    · exact h.leaves nofun
    · exact h.leaves nofun

theorem leaves_on_write_error_response : Leaves s (s.on_write_error_response t) :=
  ((Within.refl s).intercept t .error).leaves nofun

theorem leaves_start : Leaves s (s.start c) := by
  have h : Within s { s with parser_ := HttpParser.new c.body_size_limit .new } :=
    ⟨rfl, rfl, 0, rfl⟩
  unfold start
  simp only
  split
  · exact h.send_error_response _ _
  · exact h.leaves nofun

/-! ## The request -/

theorem proceeds_handle_connect {s₁ : HttpService} (h : Within s s₁)
    (hs : s₁.handle_connect c t = .ok s') : Proceeds c t s s' := by
  have hrefl := Within.refl ((s₁.intercept t .connect).aimed c)
  refine .answers .connect h ?_
  unfold aimed at hrefl ⊢
  unfold handle_connect at hs
  simp only at hs
  split at hs
  · rename_i heq
    rw [heq] at hrefl ⊢
    exact hrefl.fail hs
  · rename_i heq
    rw [heq] at hrefl ⊢
    obtain rfl := Except.ok.inj hs
    split
    · exact (hrefl.deliver _ _).leaves nofun
    · exact ((hrefl.set_response _).deliver _ _).leaves nofun

theorem proceeds_handle_other {s₁ : HttpService} (h : Within s s₁)
    (hs : s₁.handle_other c t = .ok s') : Proceeds c t s s' := by
  have hrefl := Within.refl ((s₁.intercept t .request).aimed c)
  have hanswers : Leaves ((s₁.intercept t .request).aimed c) s' → Proceeds c t s s' :=
    .answers .request h
  have hconnects : ∀ s₂, s₂ = (s₁.intercept t .request).aimed c ∨
      s₂ = ((s₁.intercept t .request).aimed c).intercept t .websocket_handshake →
      Proceeds c t s (s₂.connect_server t) := fun _ => .connects h
  unfold aimed at hrefl hanswers hconnects
  unfold handle_other at hs
  simp only at hs
  split at hs
  · rename_i heq
    rw [heq] at hrefl hanswers
    exact hanswers (hrefl.fail hs)
  · rename_i heq
    rw [heq] at hrefl hanswers hconnects
    split at hs
    · obtain rfl := Except.ok.inj hs
      exact hanswers ((hrefl.deliver _ _).leaves nofun)
    · obtain rfl := Except.ok.inj hs
      split
      · exact hconnects _ (.inr rfl)
      · exact hconnects _ (.inl rfl)

/-- A response to `Expect` is written, and nothing is started. -/
def Continues (s : HttpService) (t : Completion) : Prop :=
  ∃ req, validate_target s.flow_.server.server.secured s.request = .ok req ∧
    (s.intercept_request t req).request.target_.form ≠ .authority ∧
    (s.intercept_request t req).request.header_has_value (text "Expect") (text "100-continue")
      false = true ∧
    t.write_err = .success

theorem within_handle_expect {s₁ : HttpService} (h : Within s s₁) (hw : t.write_err = .success) :
    Within s (s₁.handle_expect t) := by
  unfold handle_expect
  rw [if_neg (not_not_intro hw)]
  exact (h.deliver none continue_response).set_request _

theorem leaves_handle_expect {s₁ : HttpService} (h : Within s s₁) (hw : t.write_err ≠ .success) :
    Leaves s (s₁.handle_expect t) := by
  unfold handle_expect
  rw [if_pos hw]
  exact (h.deliver none continue_response).leaves nofun

/-- A request that is complete. -/
theorem handle_request_cases {s₀ : HttpService} (h₀ : Within s₀ s)
    (hs : s.handle_request c t = .ok s') :
    (Continues s t ∧ Within s₀ s') ∨ (¬ Continues s t ∧ Proceeds c t s₀ s') := by
  unfold handle_request at hs
  split at hs
  · rename_i e heq
    refine .inr ⟨?_, .leaves (h₀.fail hs)⟩
    rintro ⟨req, hreq, -⟩
    rw [heq] at hreq
    cases hreq
  · rename_i req heq
    -- The request that is found is the one that is handled.
    have hreq : ∀ req', validate_target s.flow_.server.server.secured s.request = .ok req' →
        req' = req := by
      intro req' h
      rw [heq] at h
      exact (Except.ok.inj h).symm
    have h := h₀.intercept_request t req
    simp only at hs
    split at hs
    · rename_i hform
      refine .inr ⟨?_, proceeds_handle_connect h hs⟩
      rintro ⟨req', hreq', hother, -⟩
      obtain rfl := hreq req' hreq'
      exact hother hform
    · rename_i hform
      split at hs
      · rename_i hexpect
        obtain rfl := Except.ok.inj hs
        by_cases hw : t.write_err = .success
        · exact .inl ⟨⟨req, heq, hform, hexpect, hw⟩, within_handle_expect h hw⟩
        · refine .inr ⟨?_, .leaves (leaves_handle_expect h hw)⟩
          rintro ⟨-, -, -, -, hother⟩
          exact hw hother
      · rename_i hexpect
        refine .inr ⟨?_, proceeds_handle_other h hs⟩
        rintro ⟨req', hreq', -, hother, -⟩
        obtain rfl := hreq req' hreq'
        exact hexpect hother

/-! ## The completion of a request -/

/-- The state in which the bytes of the client have all of the body. -/
def body_completed (s : HttpService) : Option HttpService :=
  match s.parser_.read_body s.client_stream .request with
  | .ok (true, p, inp) => some (s.client_read p inp)
  | _ => none

/-- The state in which a request is complete, if the end of an operation completes one. -/
def completed_request (s : HttpService) (t : Completion) : Continuation → Option HttpService
  | .on_read_request_head =>
    if t.error ≠ .success then none
    else
      match s.parser_.read_request_line s.client_stream with
      | .error _ => none
      | .ok (p, inp) =>
        match p.read_headers inp .request with
        | .error _ => none
        | .ok (p, inp) => (s.client_read p inp).body_completed
  | .on_read_request_body => if t.error ≠ .success then none else s.body_completed
  | _ => none

/-- A request is complete in this state, and a response to its `Expect` is written. -/
def CompletesTo (t : Completion) (completed : Option HttpService) : Prop :=
  ∃ s₁, completed = some s₁ ∧ Continues s₁ t

theorem not_completesTo_none : ¬ CompletesTo t none := by
  rintro ⟨s₁, h, -⟩
  cases h

theorem read_request_body_cases {s₀ : HttpService} (h₀ : Within s₀ s)
    (hs : s.read_request_body c t = .ok s') :
    (CompletesTo t s.body_completed ∧ Within s₀ s') ∨
      (¬ CompletesTo t s.body_completed ∧ Proceeds c t s₀ s') := by
  unfold read_request_body at hs
  unfold body_completed
  split at hs
  · rename_i e heq
    rw [heq]
    exact .inr ⟨not_completesTo_none, .leaves (h₀.fail hs)⟩
  · rename_i done p inp heq
    rw [heq]
    cases done with
    | true =>
      have h := handle_request_cases (h₀.client_read p inp) hs
      simpa [CompletesTo] using h
    | false =>
      obtain rfl := Except.ok.inj hs
      exact .inr ⟨not_completesTo_none, .leaves ((h₀.client_read p inp).leaves nofun)⟩

/-- Each handler starts something, but where it completes a request that expects a response. The
handler of a connect that succeeded writes the request. -/
theorem handle_cases {k : Continuation} (hs : s.handle c t k = .ok s') :
    (CompletesTo t (s.completed_request t k) ∧ Within s s') ∨
      (¬ CompletesTo t (s.completed_request t k) ∧
        (Proceeds c t s s' ∨
          k = .on_connect_server ∧ t.error = .success ∧ s' = s.forward_request)) := by
  have hleaves (h : Leaves s s') (hk : s.completed_request t k = none) :
      ¬ CompletesTo t (s.completed_request t k) ∧ (Proceeds c t s s' ∨
        k = .on_connect_server ∧ t.error = .success ∧ s' = s.forward_request) := by
    rw [hk]
    exact ⟨not_completesTo_none, .inl (.leaves h)⟩
  cases k with
  | on_read_request_head =>
    simp only [handle, on_read_request_head] at hs
    unfold completed_request
    split at hs
    · rename_i herr
      rw [if_pos herr]
      refine .inr ⟨not_completesTo_none, .inl (.leaves ?_)⟩
      split at hs
      · obtain rfl := Except.ok.inj hs
        exact (Within.refl s).leaves (by simp)
      · obtain rfl := Except.ok.inj hs
        exact (Within.refl s).fail_operation _ _ _ _
    · rename_i herr
      rw [if_neg herr]
      cases hline : s.parser_.read_request_line s.client_stream with
      | error e =>
        rw [hline] at hs
        exact .inr ⟨not_completesTo_none, .inl (.leaves ((Within.refl s).fail hs))⟩
      | ok line =>
        obtain ⟨p, inp⟩ := line
        rw [hline] at hs
        simp only at hs ⊢
        cases hheaders : p.read_headers inp .request with
        | error e =>
          rw [hheaders] at hs
          have hfail := ((Within.refl s).client_read _ _).fail hs
          exact .inr ⟨not_completesTo_none, .inl (.leaves hfail)⟩
        | ok head =>
          rw [hheaders] at hs
          exact (read_request_body_cases ((Within.refl s).client_read _ _) hs).imp_right
            (And.imp_right .inl)
  | on_read_request_body =>
    simp only [handle, on_read_request_body] at hs
    split at hs
    · rename_i herr
      obtain rfl := Except.ok.inj hs
      exact .inr (hleaves ((Within.refl s).fail_operation _ _ _ _) (if_pos herr))
    · rename_i herr
      have hcompleted : s.completed_request t .on_read_request_body = s.body_completed :=
        if_neg herr
      rw [hcompleted]
      exact (read_request_body_cases (.refl s) hs).imp_right (And.imp_right .inl)
  | on_connect_server =>
    obtain rfl := Except.ok.inj hs
    refine .inr ⟨not_completesTo_none, ?_⟩
    unfold on_connect_server
    split
    · exact .inl (.leaves ((Within.refl s).fail_operation _ _ _ _))
    · rename_i herr
      exact .inr ⟨rfl, not_not.mp herr, rfl⟩
  | on_forward_request =>
    obtain rfl := Except.ok.inj hs
    exact .inr (hleaves leaves_on_forward_request rfl)
  | on_read_response_head => exact .inr (hleaves (leaves_on_read_response_head hs) rfl)
  | on_read_response_body => exact .inr (hleaves (leaves_on_read_response_body hs) rfl)
  | on_forward_response =>
    obtain rfl := Except.ok.inj hs
    exact .inr (hleaves leaves_on_forward_response rfl)
  | on_send_connect_response =>
    obtain rfl := Except.ok.inj hs
    exact .inr (hleaves leaves_on_send_connect_response rfl)
  | on_write_error_response =>
    obtain rfl := Except.ok.inj hs
    exact .inr (hleaves leaves_on_write_error_response rfl)
  | switch_service next =>
    cases hs
    exact .inr (hleaves ((Within.refl s).leaves (by simp)) rfl)
  | stop =>
    cases hs
    exact .inr (hleaves ((Within.refl s).leaves (by simp)) rfl)

/-! ## The end of an operation -/

/-- An operation has ended: of the connection to the server only a read or a write has. -/
structure Arrives (s s₁ : HttpService) : Prop where
  outstanding : s₁.outstanding = s.outstanding
  forwarded : s₁.forwarded = s.forwarded
  parser : s₁.parser_ = s.parser_
  server : s₁.flow_.server = s.flow_.server ∨
    ∃ e, ((∃ error, e = .on_write error) ∨ ∃ bytes error, e = .on_read bytes error) ∧
      connection.step s.flow_.server e = some s₁.flow_.server

theorem arrives_of_arrive {k : Continuation} (hs : s.arrive t k = some s') : Arrives s s' := by
  have hserver (e) (he : (∃ error, e = .on_write error) ∨ ∃ bytes error, e = .on_read bytes error)
      (h : (connection.step s.flow_.server e).map s.set_server_connection = some s') :
      Arrives s s' := by
    obtain ⟨server, hstep, rfl⟩ := Option.map_eq_some_iff.mp h
    exact ⟨rfl, rfl, rfl, .inr ⟨e, he, hstep⟩⟩
  cases k with
  | on_read_request_head =>
    obtain rfl := Option.some.inj hs
    exact ⟨rfl, rfl, rfl, .inl rfl⟩
  | on_read_request_body =>
    obtain rfl := Option.some.inj hs
    exact ⟨rfl, rfl, rfl, .inl rfl⟩
  | on_connect_server =>
    simp only [arrive] at hs
    split at hs
    · obtain rfl := Option.some.inj hs
      exact ⟨rfl, rfl, rfl, .inl rfl⟩
    · cases hs
  | on_forward_request => exact hserver _ (.inl ⟨_, rfl⟩) hs
  | on_read_response_head => exact hserver _ (.inr ⟨_, _, rfl⟩) hs
  | on_read_response_body => exact hserver _ (.inr ⟨_, _, rfl⟩) hs
  | on_forward_response =>
    obtain rfl := Option.some.inj hs
    exact ⟨rfl, rfl, rfl, .inl rfl⟩
  | on_send_connect_response =>
    obtain rfl := Option.some.inj hs
    exact ⟨rfl, rfl, rfl, .inl rfl⟩
  | on_write_error_response =>
    obtain rfl := Option.some.inj hs
    exact ⟨rfl, rfl, rfl, .inl rfl⟩
  | switch_service next => cases hs
  | stop => cases hs

/-- The end of an operation, and the handler. -/
theorem step_complete {k : Continuation} (hs : step c s (.complete k t) = some s') :
    k ∈ s.outstanding ∧ ∃ s₁, { s with outstanding := s.outstanding.erase k }.arrive t k = some s₁ ∧
      s₁.handle c t k = .ok s' := by
  simp only [step] at hs
  split at hs
  · rename_i hk
    obtain ⟨s₁, hs₁, hhandle⟩ := Option.bind_eq_some_iff.mp hs
    refine ⟨hk, s₁, hs₁, ?_⟩
    rcases hr : s₁.handle c t k with e | s₂
    · rw [hr] at hhandle
      cases hhandle
    · rw [hr] at hhandle
      rw [Option.some.inj hhandle]
  · cases hs

theorem step_start (hs : step c s .start = some s') :
    s.starts = true ∧ s' = { s with outstanding := [] }.start c := by
  simp only [step] at hs
  split at hs
  · rename_i h
    exact ⟨h, (Option.some.inj hs).symm⟩
  · cases hs

/-- A callback of the connection, and what it posts. -/
theorem step_callback {e : connection.Event} {err : ErrorCode}
    (hs : step c s (.callback e err) = some s') :
    is_callback e = true ∧ ∃ server, connection.step s.flow_.server e = some server ∧
      ((s.flow_.server.connecting ≠ .idle ∧ server.connecting = .idle ∧
          ∃ code, (code = .success → e = .on_connect true) ∧
            s' = { s.set_server_connection server with posted := some code }) ∨
        (¬ (s.flow_.server.connecting ≠ .idle ∧ server.connecting = .idle) ∧
          s' = s.set_server_connection server)) := by
  simp only [step] at hs
  split at hs
  · rename_i hcallback
    obtain ⟨server, hstep, h⟩ := Option.bind_eq_some_iff.mp hs
    refine ⟨hcallback, server, hstep, ?_⟩
    simp only at h
    generalize (if e = .on_connect true then ErrorCode.success else err) = code at h
    by_cases hended : s.flow_.server.connecting ≠ .idle ∧ server.connecting = .idle
    · refine .inl ⟨hended.1, hended.2, code, ?_⟩
      have hb : (s.flow_.server.connecting != .idle && server.connecting == .idle) = true := by
        simp [hended.1, hended.2]
      rw [hb] at h
      split at h
      · cases h
      · rename_i hcode
        refine ⟨?_, (Option.some.inj h).symm⟩
        intro hsuccess
        simpa [hsuccess] using hcode
    · refine .inr ⟨hended, ?_⟩
      have hb : (s.flow_.server.connecting != .idle && server.connecting == .idle) = false := by
        rw [Bool.eq_false_iff]
        simpa using hended
      rw [hb] at h
      exact (Option.some.inj h).symm
  · cases hs

theorem step_other_server {e : connection.Event} (hs : step c s (.other_server e) = some s') :
    s.left_to_other = true ∧ of_other_service s.flow_.server e = true ∧
      ∃ server, connection.step s.flow_.server e = some server ∧
        s' = s.set_server_connection server := by
  simp only [step] at hs
  split at hs
  · rename_i h
    obtain ⟨hleft, hof⟩ := Bool.and_eq_true_iff.mp h
    obtain ⟨server, hstep, rfl⟩ := Option.map_eq_some_iff.mp hs
    exact ⟨hleft, hof, server, hstep, rfl⟩
  · cases hs

theorem step_other_flow {client_input : Text} {error : ErrorState}
    {intercept_tls intercept_websocket : Bool}
    (hs : step c s (.other_flow client_input error intercept_tls intercept_websocket) = some s') :
    s.left_to_other = true ∧
      s' = { s with flow_ := ⟨client_input, s.flow_.server, intercept_tls, intercept_websocket,
        error⟩ } := by
  simp only [step] at hs
  split at hs
  · rename_i hleft
    exact ⟨hleft, (Option.some.inj hs).symm⟩
  · cases hs

end proxy.http.http1.HttpService
