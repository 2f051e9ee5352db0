-- What the handlers of the service for HTTP do in an exchange with the server: those
-- that come before a request is written and after a response is passed on take nothing
-- of the server, and those between them take one answer.
import Aether.Http.AnswerBodies
import Aether.Http.Outcomes

open util.string util.buffer lib.rfc7230

namespace proxy.http.http1

open HttpParser

/-- A parser between two messages. -/
structure Fresh (limit : Nat) (p : HttpParser) : Prop where
  lines : LinesOpen p.lines
  idle : p.body.Idle
  limit : p.body_size_limit = limit

namespace HttpService

/-- The responses of the server that were written for the client. -/
def received (s : HttpService) : List Response := s.delivered.filterMap Delivered.received

/-- Within a handler: nothing is left yet, and the server is not concerned. -/
structure Untouched (s s₁ : HttpService) : Prop where
  outstanding : s₁.outstanding = s.outstanding
  forwarded : s₁.forwarded = s.forwarded
  received : s₁.received = s.received
  server_input : s₁.server_input = s.server_input
  lines : s₁.parser_.lines = s.parser_.lines
  body : s₁.parser_.body = s.parser_.body
  limit : s₁.parser_.body_size_limit = s.parser_.body_size_limit

/-- What the parser is ready for, by the continuation that is left on the side of the client. -/
def ReadyFor (limit : Nat) (p : HttpParser) : Continuation → Prop
  | .on_read_request_head | .on_connect_server => Fresh limit p
  | .on_read_request_body =>
    LinesOpen p.lines ∧ p.Underway .request ∧ p.body_size_limit = limit
  | .on_forward_request | .on_read_response_head | .on_read_response_body => False
  | _ => True

/-- The end of a handler that the server is not concerned with. -/
structure Rests (limit : Nat) (s s' : HttpService) : Prop where
  forwarded : s'.forwarded = s.forwarded
  received : s'.received = s.received
  server_input : s'.server_input = s.server_input
  left : s'.outstanding = [] ∨ ∃ k, s'.outstanding = [k] ∧ ReadyFor limit s'.parser_ k

/-! ## The input of the server -/

/-- The bytes in the input buffer of a connection. -/
def input_of (server : connection.System) : Text := server.server.input_.map connection.From.value

theorem input_disconnect (server : connection.System) :
    input_of server.disconnect = input_of server := by
  unfold connection.System.disconnect connection.System.shutdown
  split <;> rfl

theorem input_set_server (server : connection.System) (host : connection.Host)
    (port : connection.Port) : input_of (server.set_server host port) = input_of server := by
  unfold connection.System.set_server
  split
  · rfl
  · simp only
    split
    · exact input_disconnect server
    · rfl

theorem input_connect_async (server : connection.System) (has_been_closed : Bool) :
    input_of (server.connect_async has_been_closed) = input_of server := by
  unfold connection.System.connect_async
  simp only
  split
  · rfl
  · split
    · exact input_disconnect server
    · rfl

/-- The bytes that a step brings. -/
def brought : connection.Event → Text
  | .on_read bytes _ => bytes
  | _ => []

/-- A step adds what it brings, or it takes some bytes. -/
theorem input_step {server server' : connection.System} {e : connection.Event}
    (h : connection.step server e = some server') :
    input_of server' = input_of server ++ brought e ∨
      ∃ n, e = .consume n ∧ input_of server' = (input_of server).drop n := by
  have hsame (heq : input_of server' = input_of server) (he : brought e = []) :
      input_of server' = input_of server ++ brought e ∨
        ∃ n, e = .consume n ∧ input_of server' = (input_of server).drop n := by
    rw [he, List.append_nil]
    exact .inl heq
  have hread (origin : Nat) (bytes : Text) (error : Bool) :
      input_of (server.on_read origin bytes error) = input_of server ++ bytes := by
    unfold connection.System.on_read input_of
    cases error <;>
      simp [connection.ServerConnection.set_connected, List.map_map, Function.comp_def]
  cases e with
  | set_server host port =>
    obtain rfl := Option.some.inj h
    exact hsame (input_set_server server host port) rfl
  | connect_async has_been_closed =>
    obtain rfl := Option.some.inj h
    exact hsame (input_connect_async server has_been_closed) rfl
  | on_resolve endpoints =>
    simp only [connection.step] at h
    split at h
    · obtain rfl := Option.some.inj h
      refine hsame ?_ rfl
      rcases endpoints with _ | _ | more <;> rfl
    · cases h
  | on_connect success =>
    simp only [connection.step] at h
    split at h
    · rename_i more _
      obtain rfl := Option.some.inj h
      refine hsame ?_ rfl
      cases success with
      | true => rfl
      | false => cases more <;> rfl
    · cases h
  | on_read bytes error =>
    simp only [connection.step] at h
    split at h
    · obtain rfl := Option.some.inj h
      exact .inl (hread _ bytes error)
    · split at h
      · obtain rfl := Option.some.inj h
        exact .inl (hread _ bytes error)
      · cases h
  | consume n =>
    obtain rfl := Option.some.inj h
    exact .inr ⟨n, rfl, List.map_drop⟩
  | on_write error =>
    obtain rfl := Option.some.inj h
    refine hsame ?_ rfl
    cases error <;> rfl
  | on_timeout =>
    obtain rfl := Option.some.inj h
    refine hsame ?_ rfl
    unfold connection.System.shutdown
    split <;> rfl
  | establish_tls_async =>
    obtain rfl := Option.some.inj h
    exact hsame rfl rfl
  | on_handshake result =>
    cases result with
    | none =>
      simp only [connection.step] at h
      split at h
      · obtain rfl := Option.some.inj h
        exact hsame rfl rfl
      · cases h
    | some handshake =>
      simp only [connection.step] at h
      split at h
      · split at h
        · obtain rfl := Option.some.inj h
          exact hsame rfl rfl
        · cases h
      · cases h
  | disconnect =>
    obtain rfl := Option.some.inj h
    exact hsame (input_disconnect server) rfl

/-! ## The side of the client -/

namespace Untouched

variable {s s₁ : HttpService} {limit : Nat}

theorem refl (s : HttpService) : Untouched s s := ⟨rfl, rfl, rfl, rfl, rfl, rfl, rfl⟩

theorem set_exchange (h : Untouched s s₁) (exchange : Exchange) :
    Untouched s (s₁.set_exchange exchange) :=
  ⟨h.outstanding, h.forwarded, h.received, h.server_input, h.lines, h.body, h.limit⟩

theorem set_response (h : Untouched s s₁) (res : Response) : Untouched s (s₁.set_response res) :=
  h.set_exchange _

theorem set_request (h : Untouched s s₁) (req : Request) : Untouched s (s₁.set_request req) :=
  h.set_exchange _

theorem set_error (h : Untouched s s₁) (error : ErrorState) : Untouched s (s₁.set_error error) :=
  ⟨h.outstanding, h.forwarded, h.received, h.server_input, h.lines, h.body, h.limit⟩

theorem intercept (h : Untouched s s₁) (t : Completion) (event : HttpEvent) :
    Untouched s (s₁.intercept t event) :=
  ⟨h.outstanding, h.forwarded, h.received, h.server_input, h.lines, h.body, h.limit⟩

/-- A response that is not of the server. -/
theorem deliver (h : Untouched s s₁) (res : Response) : Untouched s (s₁.deliver none res) := by
  refine ⟨h.outstanding, h.forwarded, ?_, h.server_input, h.lines, h.body, h.limit⟩
  rw [← h.received]
  simp [HttpService.received, HttpService.deliver]

theorem set_server_connection (h : Untouched s s₁) {server : connection.System}
    (hserver : input_of server = s₁.server_input) :
    Untouched s (s₁.set_server_connection server) :=
  ⟨h.outstanding, h.forwarded, h.received, hserver.trans h.server_input, h.lines, h.body, h.limit⟩

theorem aimed (h : Untouched s s₁) (c : Components) (host : connection.Host)
    (port : connection.Port) : Untouched s (s₁.set_server c host port).1 := by
  unfold HttpService.set_server
  split
  · exact h
  · simp only
    split
    · exact h.set_server_connection (input_set_server _ _ _)
    · exact h.set_server_connection (input_set_server _ _ _)

theorem intercept_request (h : Untouched s s₁) (t : Completion) (req : Request) :
    Untouched s (s₁.intercept_request t req) :=
  ((h.set_request req).intercept t .any_request).set_request _

theorem ready (h : Untouched s s₁) (hs : Fresh limit s.parser_) : Fresh limit s₁.parser_ :=
  ⟨h.lines ▸ hs.lines, h.body ▸ hs.idle, h.limit.trans hs.limit⟩

theorem rests (h : Untouched s s₁) (ho : s.outstanding = []) {k : Continuation}
    (hk : ReadyFor limit s₁.parser_ k) : Rests limit s (s₁.leave k) := by
  refine ⟨h.forwarded, h.received, h.server_input, .inr ⟨k, ?_, hk⟩⟩
  rw [leave, h.outstanding, ho]
  rfl

theorem send_error_response (h : Untouched s s₁) (ho : s.outstanding = []) (status : Status)
    (msg : Text) : Rests limit s (s₁.send_error_response status msg) :=
  ((h.set_response _).deliver _).rests ho trivial

theorem fail_operation (h : Untouched s s₁) (ho : s.outstanding = []) (c : Components)
    (aborted other : Status) (error : ErrorCode) :
    Rests limit s (s₁.fail_operation c aborted other error) :=
  (h.set_error _).send_error_response ho _ _

theorem fail {s' : HttpService} {status : Status} {e : Error} (h : Untouched s s₁)
    (ho : s.outstanding = []) (hs : s₁.fail status e = .ok s') : Rests limit s s' := by
  cases e with
  | state code message =>
    obtain rfl := Except.ok.inj hs
    exact (h.set_error _).send_error_response ho _ _
  | undefined => cases hs
  | terminated => cases hs

end Untouched

/-- What came before in the handler has not concerned the server. -/
theorem Rests.of_same {limit : Nat} {s s₁ s' : HttpService} (h : Rests limit s₁ s')
    (hforwarded : s₁.forwarded = s.forwarded) (hreceived : s₁.received = s.received)
    (hinput : s₁.server_input = s.server_input) : Rests limit s s' :=
  ⟨h.forwarded.trans hforwarded, h.received.trans hreceived, h.server_input.trans hinput, h.left⟩

section

variable {c : Components} {t : Completion} {limit : Nat} {s s' : HttpService}
  (ho : s.outstanding = [])

include ho

theorem rests_handle_connect {s₁ : HttpService} (h : Untouched s s₁)
    (hs : s₁.handle_connect c t = .ok s') : Rests limit s s' := by
  have haimed := (h.intercept t .connect).aimed c (s₁.intercept t .connect).request.host_name
    (s₁.intercept t .connect).request.host_port
  unfold handle_connect at hs
  simp only at hs
  split at hs
  · rename_i heq
    rw [heq] at haimed
    exact haimed.fail ho hs
  · rename_i heq
    rw [heq] at haimed
    obtain rfl := Except.ok.inj hs
    split
    · exact (haimed.deliver _).rests ho trivial
    · exact ((haimed.set_response _).deliver _).rests ho trivial

theorem rests_connect_server {s₁ : HttpService} (h : Untouched s s₁)
    (hp : Fresh limit s.parser_) : Rests limit s (s₁.connect_server t) := by
  have hposted (posted : Option ErrorCode) : Untouched s { s₁ with posted := posted } :=
    ⟨h.outstanding, h.forwarded, h.received, h.server_input, h.lines, h.body, h.limit⟩
  exact ((hposted _).set_server_connection (input_connect_async _ _)).rests ho
    (k := .on_connect_server) (h.ready hp)

theorem rests_handle_other {s₁ : HttpService} (h : Untouched s s₁) (hp : Fresh limit s.parser_)
    (hs : s₁.handle_other c t = .ok s') : Rests limit s s' := by
  have haimed := (h.intercept t .request).aimed c (s₁.intercept t .request).request.host_name
    (s₁.intercept t .request).request.host_port
  unfold handle_other at hs
  simp only at hs
  split at hs
  · rename_i heq
    rw [heq] at haimed
    exact haimed.fail ho hs
  · rename_i heq
    rw [heq] at haimed
    split at hs
    · obtain rfl := Except.ok.inj hs
      exact (haimed.deliver _).rests ho trivial
    · obtain rfl := Except.ok.inj hs
      split
      · exact rests_connect_server ho (haimed.intercept t .websocket_handshake) hp
      · exact rests_connect_server ho haimed hp

theorem rests_handle_expect {s₁ : HttpService} (h : Untouched s s₁) :
    Rests limit s (s₁.handle_expect t) := by
  have hdelivered := h.deliver continue_response
  unfold handle_expect
  simp only
  split
  · exact hdelivered.rests ho trivial
  · have hlast := hdelivered.set_request { (s₁.deliver none continue_response).request with
      toMessage := (s₁.deliver none continue_response).request.remove_header (text "Expect") }
    exact ⟨hlast.forwarded, hlast.received, hlast.server_input, .inl (hlast.outstanding.trans ho)⟩

theorem rests_handle_request (hp : Fresh limit s.parser_) (hs : s.handle_request c t = .ok s') :
    Rests limit s s' := by
  unfold handle_request at hs
  split at hs
  · exact (Untouched.refl s).fail ho hs
  · rename_i req _
    have h := (Untouched.refl s).intercept_request t req
    simp only at hs
    split at hs
    · exact rests_handle_connect ho h hs
    · split at hs
      · obtain rfl := Except.ok.inj hs
        exact rests_handle_expect ho h
      · exact rests_handle_other ho h hp hs

theorem rests_read_request_body (hlines : LinesOpen s.parser_.lines)
    (hlimit : s.parser_.body_size_limit = limit)
    (hbody : s.parser_.body.Idle ∨ s.parser_.Underway .request)
    (hs : s.read_request_body c t = .ok s') : Rests limit s s' := by
  unfold read_request_body at hs
  split at hs
  · exact (Untouched.refl s).fail ho hs
  · rename_i done p inp hread
    obtain ⟨hplines, hplimit⟩ := rest_of_read_body hread
    have hnext : done = false ∧ p.Underway .request ∨ done = true ∧ p.body.Idle :=
      hbody.elim (fun hidle => request_body_begins hidle hread) (fun h => h.read_body hread)
    suffices h : Rests limit (s.client_read p inp) s' from h.of_same rfl rfl rfl
    rcases hnext with ⟨rfl, hunder⟩ | ⟨rfl, hidle⟩
    · obtain rfl := Except.ok.inj hs
      exact (Untouched.refl (s.client_read p inp)).rests ho (k := .on_read_request_body)
        ⟨hplines ▸ hlines, hunder, hplimit.trans hlimit⟩
    · exact rests_handle_request (s := s.client_read p inp) ho
        ⟨hplines ▸ hlines, hidle, hplimit.trans hlimit⟩ hs

theorem rests_on_read_request_head (hp : Fresh limit s.parser_)
    (hs : s.on_read_request_head c t = .ok s') : Rests limit s s' := by
  unfold on_read_request_head at hs
  split at hs
  · split at hs
    · obtain rfl := Except.ok.inj hs
      exact (Untouched.refl s).rests ho trivial
    · obtain rfl := Except.ok.inj hs
      exact (Untouched.refl s).fail_operation ho _ _ _ _
  · split at hs
    · exact (Untouched.refl s).fail ho hs
    · rename_i p inp hline
      obtain ⟨-, -, -, w, -, -, -, -, -, -, -, -, hopen, hbody, hlimit, rfl⟩ :=
        read_request_line_ok hp.lines hline
      split at hs
      · have hrefl := Untouched.refl (s.client_read p (Istream.new w))
        exact (hrefl.fail ho hs).of_same rfl rfl rfl
      · rename_i q out hheaders
        obtain ⟨-, -, -, -, -, -, hopen', hbody', hlimit', -⟩ :=
          read_request_headers_ok hopen hheaders
        refine Rests.of_same (rests_read_request_body (s := s.client_read q out) ho hopen'
          (hlimit'.trans (hlimit.trans hp.limit)) (.inl ?_) hs) rfl rfl rfl
        show q.body.Idle
        rw [hbody', hbody]
        exact hp.idle

theorem rests_on_read_request_body (hlines : LinesOpen s.parser_.lines)
    (hunder : s.parser_.Underway .request) (hlimit : s.parser_.body_size_limit = limit)
    (hs : s.on_read_request_body c t = .ok s') : Rests limit s s' := by
  unfold on_read_request_body at hs
  split at hs
  · obtain rfl := Except.ok.inj hs
    exact (Untouched.refl s).fail_operation ho _ _ _ _
  · exact rests_read_request_body ho hlines hlimit (.inr hunder) hs

theorem rests_on_forward_response : Rests limit s (s.on_forward_response c t) := by
  have h := Untouched.refl s
  unfold on_forward_response
  split
  · exact (h.set_error _).rests ho trivial
  · unfold handle_response
    split
    · exact h.rests ho trivial
    · split
      · split
        · exact h.rests ho trivial
        · exact h.rests ho trivial
      · exact h.rests ho trivial

theorem rests_on_send_connect_response : Rests limit s (s.on_send_connect_response c) := by
  have h := Untouched.refl s
  unfold on_send_connect_response
  split
  · split
    · exact h.rests ho trivial
    · split
      · exact h.rests ho trivial
      · exact h.rests ho trivial
  · split
    · exact h.rests ho trivial
    · exact h.rests ho trivial

omit ho in
theorem rests_start (s : HttpService) :
    Rests c.body_size_limit s ({ s with outstanding := [] }.start c) := by
  have h := Untouched.refl { s with outstanding := [], parser_ := .new c.body_size_limit .new }
  have hrests : Rests c.body_size_limit
      { s with outstanding := [], parser_ := .new c.body_size_limit .new }
      ({ s with outstanding := [] }.start c) := by
    unfold start
    simp only
    split
    · exact h.send_error_response rfl _ _
    · exact h.rests rfl (k := .on_read_request_head)
        ⟨linesOpen_new, BodyReader.idle_new, rfl⟩
  exact hrests.of_same rfl rfl rfl

/-- The handlers on the side of the client. One of them writes a request. -/
theorem rests_handle {k : Continuation} (hk : ReadyFor limit s.parser_ k)
    (hs : s.handle c t k = .ok s') :
    Rests limit s s' ∨ k = .on_connect_server ∧ s' = s.forward_request := by
  have h := Untouched.refl s
  cases k with
  | on_read_request_head => exact .inl (rests_on_read_request_head ho hk hs)
  | on_read_request_body => exact .inl (rests_on_read_request_body ho hk.1 hk.2.1 hk.2.2 hs)
  | on_connect_server =>
    obtain rfl := Except.ok.inj hs
    unfold on_connect_server
    split
    · exact .inl (h.fail_operation ho _ _ _ _)
    · exact .inr ⟨rfl, rfl⟩
  | on_forward_request => exact hk.elim
  | on_read_response_head => exact hk.elim
  | on_read_response_body => exact hk.elim
  | on_forward_response =>
    obtain rfl := Except.ok.inj hs
    exact .inl (rests_on_forward_response ho)
  | on_send_connect_response =>
    obtain rfl := Except.ok.inj hs
    exact .inl (rests_on_send_connect_response ho)
  | on_write_error_response =>
    obtain rfl := Except.ok.inj hs
    exact .inl ((h.intercept t .error).rests ho trivial)
  | switch_service next =>
    obtain rfl := Except.ok.inj hs
    exact .inl (h.rests ho trivial)
  | stop =>
    obtain rfl := Except.ok.inj hs
    exact .inl (h.rests ho trivial)

end

/-! ## The side of the server -/

/-- The parser is in the body of an answer that ends with the bytes that are left. -/
structure InBody (s : HttpService) (a : Answer) (left : Text) : Prop where
  ends : s.parser_.EndsOn .response a.body.content left
  response : s.response = a.final.response

/-- The end of a handler with an error. -/
structure Fails (s s' : HttpService) : Prop where
  received : s'.received = s.received
  outstanding : s'.outstanding = [.on_write_error_response]

/-- The end of a handler that reads of an answer, with the bytes that are still to come. -/
inductive Responds (a : Answer) (left : Text) (s s' : HttpService) : Prop where
  | fails (h : Fails s s')
  | waits (forwarded : s'.forwarded = s.forwarded) (received : s'.received = s.received)
      (outstanding : s'.outstanding = [.on_read_response_body]) (input : s'.server_input = [])
      (body : s'.InBody a left)
  | passes (forwarded : s'.forwarded = s.forwarded)
      (received : s'.received = s.received ++ [a.response])
      (outstanding : s'.outstanding = [.on_forward_response]) (input : s'.server_input = [])
      (all : left = [])

section

variable {c : Components} {t : Completion} {a : Answer} {left : Text} {s s₁ s' : HttpService}

/-- What came before in the handler has written nothing. -/
theorem Responds.of_same (h : Responds a left s₁ s') (hforwarded : s₁.forwarded = s.forwarded)
    (hreceived : s₁.received = s.received) : Responds a left s s' := by
  cases h with
  | fails h => exact .fails ⟨h.received.trans hreceived, h.outstanding⟩
  | waits forwarded received outstanding input body =>
    exact .waits (forwarded.trans hforwarded) (received.trans hreceived) outstanding input body
  | passes forwarded received outstanding input all =>
    exact .passes (forwarded.trans hforwarded) (hreceived ▸ received) outstanding input all

theorem server_input_read {p : HttpParser} {inp : Istream} (h : inp.rdbuf = []) :
    (s.server_read p inp).server_input = [] := by
  have hdrop : (s.server_read p inp).server_input =
      s.server_input.drop (s.server_input.length - inp.rdbuf.length) := List.map_drop
  rw [hdrop, h, List.length_nil, Nat.sub_zero, List.drop_length]

theorem Untouched.fails_error (h : Untouched s s₁) (ho : s.outstanding = []) (status : Status)
    (msg : Text) : Fails s (s₁.send_error_response status msg) := by
  have hd := (h.set_response (error_response status msg)).deliver
    (s₁.set_response (error_response status msg)).response
  refine ⟨hd.received, ?_⟩
  have houtstanding := hd.outstanding
  rw [ho] at houtstanding
  exact congrArg (· ++ [Continuation.on_write_error_response]) houtstanding

theorem Untouched.fails (h : Untouched s s₁) (ho : s.outstanding = []) {status : Status}
    {e : Error} (hs : s₁.fail status e = .ok s') : Fails s s' := by
  cases e with
  | state code message =>
    obtain rfl := Except.ok.inj hs
    exact (h.set_error _).fails_error ho _ _
  | undefined => cases hs
  | terminated => cases hs

theorem Untouched.fails_operation (h : Untouched s s₁) (ho : s.outstanding = [])
    (aborted other : Status) (error : ErrorCode) :
    Fails s (s₁.fail_operation c aborted other error) :=
  (h.set_error _).fails_error ho _ _

/-- The response that is passed on is counted as it was before it is modified. -/
theorem received_modify_response :
    (s.modify_response c t).received = s.received ++ [s.response] := by
  simp [received, modify_response, forward_response, deliver, leave, intercept, set_response,
    set_exchange]

theorem responds_modify_response (ho : s.outstanding = []) (hresponse : s.response = a.response)
    (hinput : s.server_input = []) (hleft : left = []) :
    Responds a left s (s.modify_response c t) := by
  refine .passes rfl ?_ ?_ hinput hleft
  · rw [received_modify_response, hresponse]
  · show s.outstanding ++ [.on_forward_response] = [.on_forward_response]
    rw [ho]
    rfl

/-- A call for the body, which fails, waits or finds the last byte. -/
theorem responds_read_response_body {eof : Bool} (ho : s.outstanding = [])
    (hresponse : s.response = a.final.response)
    (hcall : ∀ done q out, s.parser_.read_body s.server_stream .response = .ok (done, q, out) →
      out.rdbuf = [] ∧ (done = false ∧ q.EndsOn .response a.body.content left ∨
        done = true ∧ left = [] ∧ q.body_of .response = .ok a.body.content))
    (hs : s.read_response_body c t eof = .ok s') : Responds a left s s' := by
  unfold read_response_body at hs
  split at hs
  · exact .fails ((Untouched.refl s).fails ho hs)
  · rename_i done q out hread
    obtain ⟨hspent, hcases⟩ := hcall done q out hread
    have hinput := server_input_read (s := s) (p := q) hspent
    have hexchange := exchange_of_read_body hread
    suffices h : Responds a left (s.server_read q out) s' from h.of_same rfl rfl
    rcases hcases with ⟨rfl, hends⟩ | ⟨rfl, hleft, hof⟩
    · simp only [Bool.false_eq_true, if_false] at hs
      have hsame : q.exchange_ = s.parser_.exchange_ :=
        hexchange.resolve_right (fun h => Bool.false_ne_true h.1)
      have hq : (s.server_read q out).response = a.final.response := by
        rw [← hresponse]
        exact congrArg Exchange.response hsame
      split at hs
      · obtain rfl := Except.ok.inj hs
        have herror := ((Untouched.refl (s.server_read q out)).set_error
          ⟨.eof, some .malformed_response_body, []⟩)
        exact .fails (herror.fails_error ho _ _)
      · obtain rfl := Except.ok.inj hs
        refine .waits rfl rfl ?_ hinput ⟨hends, hq⟩
        show s.outstanding ++ [.on_read_response_body] = [.on_read_response_body]
        rw [ho]
        rfl
    · simp only [if_true] at hs
      obtain rfl := Except.ok.inj hs
      refine responds_modify_response (s := s.server_read q out) ho ?_ hinput hleft
      have hbody : q.exchange_.response.body_ = a.body.content := Except.ok.inj hof
      show q.exchange_.response = a.response
      have hfinal : s.parser_.exchange_.response = a.final.response := hresponse
      rcases hexchange with hsame | ⟨-, body, hsets⟩
      · rw [hsame, hfinal] at hbody ⊢
        rw [Answer.response, ← hbody]
      · have hset : q.exchange_.response =
            { s.parser_.exchange_.response with body_ := body } := by
          rw [hsets]
          rfl
        rw [hset, hfinal] at hbody ⊢
        rw [Answer.response, ← hbody]

/-- More of the body has come. -/
theorem responds_on_read_response_body (ho : s.outstanding = [])
    (h : s.InBody a (s.server_input ++ left)) (hs : s.on_read_response_body c t = .ok s') :
    Responds a left s s' := by
  have hcall (done : Bool) (q : HttpParser) (out : Istream)
      (hread : s.parser_.read_body s.server_stream .response = .ok (done, q, out)) :=
    h.ends.read_body hread
  unfold on_read_response_body at hs
  split at hs
  · split at hs
    · exact responds_read_response_body ho h.response hcall hs
    · obtain rfl := Except.ok.inj hs
      exact .fails ((Untouched.refl s).fails_operation ho _ _ _)
  · exact responds_read_response_body ho h.response hcall hs

/-- Without a byte of an answer there is no head. -/
theorem fails_no_head (ho : s.outstanding = []) (hp : LinesOpen s.parser_.lines)
    (hinput : s.server_input = []) (hs : s.on_read_response_head c t = .ok s') :
    Fails s s' := by
  have h := (Untouched.refl s).set_exchange s.exchange_.make_response
  unfold on_read_response_head at hs
  split at hs
  · obtain rfl := Except.ok.inj hs
    exact (Untouched.refl s).fails_operation ho _ _ _
  · simp only at hs
    split at hs
    · exact h.fails ho hs
    · rename_i p inp hline
      have hempty : (s.set_exchange s.exchange_.make_response).server_stream = Istream.new [] :=
        congrArg Istream.new hinput
      have hopen : LinesOpen (s.set_exchange s.exchange_.make_response).parser_.lines := hp
      rw [hempty] at hline
      obtain ⟨version, code, msg, -, rest, hw, -⟩ := read_response_line_parts hopen hline
      simp [response_line] at hw

/-- The first bytes of an answer have come. -/
theorem responds_on_read_response_head (ho : s.outstanding = []) {limit : Nat}
    (hp : Fresh limit s.parser_) (hplain : a.Plain limit)
    (hmethod : s.request.method_ = a.method) (hw : s.server_input ++ left = a.encode)
    (hs : s.on_read_response_head c t = .ok s') : Responds a left s s' := by
  have h := (Untouched.refl s).set_exchange s.exchange_.make_response
  have hencode : s.server_input ++ left = a.final.encode ++ a.body.encode := by
    rw [hw, Answer.encode, hplain.no_interims]
    rfl
  unfold on_read_response_head at hs
  split at hs
  · obtain rfl := Except.ok.inj hs
    exact .fails ((Untouched.refl s).fails_operation ho _ _ _)
  · simp only at hs
    split at hs
    · exact .fails (h.fails ho hs)
    · rename_i p inp hline
      split at hs
      · have hread : Untouched ((s.set_exchange s.exchange_.make_response).server_read p inp)
            ((s.set_exchange s.exchange_.make_response).server_read p inp) := .refl _
        exact .of_same (.fails (hread.fails ho hs)) rfl rfl
      · rename_i q out hheaders
        obtain ⟨behind, rfl, hbehind, hexchange, -, hbody, hlimit⟩ :=
          read_head_of_answer (p := (s.set_exchange s.exchange_.make_response).parser_) (q := p)
            hp.lines rfl hencode hline hheaders
        -- What the read leaves in the buffer is what stands behind the head.
        have hhead : s.server_input = a.final.encode ++ behind := by
          rw [← hbehind, ← List.append_assoc] at hencode
          exact List.append_cancel_right hencode
        have hstream : ((s.set_exchange s.exchange_.make_response).server_read q
            (Istream.new behind)).server_stream = Istream.new behind := by
          have hdrop : ((s.set_exchange s.exchange_.make_response).server_read q
              (Istream.new behind)).server_input =
              s.server_input.drop (s.server_input.length - behind.length) := List.map_drop
          rw [server_stream, hdrop, hhead, List.length_append, Nat.add_sub_cancel, List.drop_left]
        have hout : ((s.set_exchange s.exchange_.make_response).server_read q
            (Istream.new behind)).outstanding = [] := ho
        refine Responds.of_same (responds_read_response_body hout ?_ ?_ hs) rfl rfl
        · exact congrArg Exchange.response hexchange
        · intro done r out' hread
          rw [hstream] at hread
          have hresponse : q.exchange_.res_ = some a.final.response := by
            rw [hexchange]
            rfl
          have hrequest : q.exchange_.req_.method_ = a.method := by
            rw [hexchange]
            exact hmethod
          refine answer_body_begins (p := q) hrequest hresponse ?_ ?_ hbehind hread
          · rw [hlimit]
            exact hp.limit ▸ hplain
          · rw [hbody]
            exact hp.idle

end

end HttpService

end proxy.http.http1
