-- The service for HTTP with one server, which answers the requests in their order:
-- when the response that the client gets for a request is the final one for it.
import Aether.Http.Continuations
import Aether.Http.ExchangeTurns

open util.string util.buffer lib.rfc7230 lib.runs

namespace proxy.http.http1

open HttpParser HttpService

/-! ## The service and the server -/

/-- The service, the bytes of the server that are not read yet, and what the server has answered.
The log has the responses of the server that were written for the client, each with the number of
the request that was written last. -/
structure Session where
  service : HttpService
  in_flight : Text
  answers : List Answer
  log : List (Response × Nat)

namespace Session

inductive Event where
  | service (e : HttpService.Event)
  /-- The server answers the next request. -/
  | answer (a : Answer)

/-- The bytes that an event brings from the server. -/
def arriving : HttpService.Event → Text
  | .complete .on_read_response_head t => t.data
  | .complete .on_read_response_body t => t.data
  | .other_server e => brought e
  | _ => []

/-- A connection is made. -/
def connects : HttpService.Event → Bool
  | .callback (.on_connect true) _ => true
  | .other_server (.on_connect true) => true
  | _ => false

def new (c : Components) : Session := ⟨.new c, [], [], []⟩

/-- The session after a step of the service. -/
def moved (s : Session) (service : HttpService) (in_flight : Text) : Session :=
  { s with
    service := service
    in_flight := in_flight
    log := s.log ++ (service.received.drop s.service.received.length).map
      (fun res => (res, s.service.forwarded.length - 1)) }

/-- A step of the service, with bytes that the server has sent, or an answer. No other connection is
made than the first. The server answers a request once it is written, and nothing comes behind an
answer that ends with the connection. -/
def step (c : Components) (s : Session) : Event → Option Session
  | .service e =>
    if arriving e <+: s.in_flight ∧
        (connects e = true → s.service.flow_.server.endpoint = none) then
      (HttpService.step c s.service e).map
        (s.moved · (s.in_flight.drop (arriving e).length))
    else none
  | .answer a =>
    match s.service.forwarded[s.answers.length]? with
    | none => none
    | some f =>
      if f.request.method_ = a.method ∧ ∀ b ∈ s.answers, b.body.length ≠ .untilClose then
        some { s with in_flight := s.in_flight ++ a.encode, answers := s.answers ++ [a] }
      else none

/-- The final responses, each with the number of its request. -/
def finals (answers : List Answer) : List (Response × Nat) :=
  (answers.map Answer.response).zipIdx

/-- The responses that the client got are the final ones for the same requests. -/
def Paired (s : Session) : Prop := s.log <+: finals s.answers

theorem finals_append (answers : List Answer) (a : Answer) :
    finals (answers ++ [a]) = finals answers ++ [(a.response, answers.length)] := by
  simp [finals, List.zipIdx_append]

/-! ## The phases of an exchange -/

/-- One request more is written than was answered, and all the answers before are passed on. -/
structure Asked (s : Session) (done : List Answer) : Prop where
  forwarded : s.service.forwarded.length = done.length + 1
  log : s.log = finals done

/-- The service writes a request, or it waits for the head of the response. -/
structure Awaits (limit : Nat) (s : Session) : Prop where
  outstanding : s.service.outstanding = [.on_forward_request] ∨
    s.service.outstanding = [.on_read_response_head]
  fresh : Fresh limit s.service.parser_
  last : s.service.forwarded.getLast?.map Forwarded.request = some s.service.request

/-- Where the service and the server are. -/
inductive Phase (limit : Nat) (s : Session) : Prop where
  | rests (answered : s.answers.length = s.service.forwarded.length)
      (log : s.log = finals s.answers) (input : s.service.server_input = [])
      (flight : s.in_flight = [])
      (left : s.service.outstanding = [] ∨
        ∃ k, s.service.outstanding = [k] ∧ ReadyFor limit s.service.parser_ k)
  | asks (asked : s.Asked s.answers) (awaits : s.Awaits limit) (input : s.service.server_input = [])
      (flight : s.in_flight = [])
  | answered (done : List Answer) (a : Answer) (answers : s.answers = done ++ [a])
      (asked : s.Asked done) (awaits : s.Awaits limit) (plain : a.Plain limit)
      (method : s.service.request.method_ = a.method)
      (wire : s.service.server_input ++ s.in_flight = a.encode)
  | reads (done : List Answer) (a : Answer) (answers : s.answers = done ++ [a])
      (asked : s.Asked done) (outstanding : s.service.outstanding = [.on_read_response_body])
      (input : s.service.server_input = []) (body : s.service.InBody a s.in_flight)
  | ends (log : s.log <+: finals s.answers)
      (stopped : ∀ k ∈ s.service.outstanding, k = .on_write_error_response ∨ k = .stop)

theorem Phase.paired {limit : Nat} {s : Session} (h : Phase limit s) : s.Paired := by
  have hall (log : s.log = finals s.answers) : s.Paired := by
    rw [Paired, log]
  have hdone {done : List Answer} {a : Answer} (answers : s.answers = done ++ [a])
      (log : s.log = finals done) : s.Paired := by
    rw [Paired, log, answers, finals_append]
    exact List.prefix_append _ _
  cases h with
  | rests answered log => exact hall log
  | asks asked => exact hall asked.log
  | answered done a answers asked => exact hdone answers asked.log
  | reads done a answers asked => exact hdone answers asked.log
  | ends log stopped => exact log

theorem phase_new (c : Components) : Phase c.body_size_limit (new c) :=
  .rests rfl rfl rfl rfl (.inr ⟨_, rfl, trivial⟩)

section

variable {c : Components} {limit : Nat} {s s' : Session}

/-- What the phases are about stays as it is. -/
theorem Phase.of_same (h : Phase limit s) (hanswers : s'.answers = s.answers)
    (hflight : s'.in_flight = s.in_flight) (hlog : s'.log = s.log)
    (houtstanding : s'.service.outstanding = s.service.outstanding)
    (hparser : s'.service.parser_ = s.service.parser_)
    (hforwarded : s'.service.forwarded = s.service.forwarded)
    (hinput : s'.service.server_input = s.service.server_input) : Phase limit s' := by
  have hrequest : s'.service.request = s.service.request := by
    unfold HttpService.request HttpService.exchange_
    rw [hparser]
  have hasked {done : List Answer} (asked : s.Asked done) : s'.Asked done :=
    ⟨hforwarded ▸ asked.forwarded, hlog ▸ asked.log⟩
  have hawaits (awaits : s.Awaits limit) : s'.Awaits limit := by
    refine ⟨houtstanding ▸ awaits.outstanding, hparser ▸ awaits.fresh, ?_⟩
    rw [hforwarded, hrequest]
    exact awaits.last
  cases h with
  | rests answered log input flight left =>
    refine .rests ?_ ?_ (hinput.trans input) (hflight.trans flight) ?_
    · rw [hanswers, hforwarded, answered]
    · rw [hlog, hanswers, log]
    · rw [houtstanding, hparser]
      exact left
  | asks asked awaits input flight =>
    exact .asks (hanswers ▸ hasked asked) (hawaits awaits) (hinput.trans input)
      (hflight.trans flight)
  | answered done a answers asked awaits plain method wire =>
    refine .answered done a (hanswers.trans answers) (hasked asked) (hawaits awaits) plain ?_ ?_
    · rw [hrequest, method]
    · rw [hinput, hflight, wire]
  | reads done a answers asked outstanding input body =>
    refine .reads done a (hanswers.trans answers) (hasked asked) (houtstanding.trans outstanding)
      (hinput.trans input) ?_
    rw [hflight]
    refine ⟨hparser ▸ body.ends, ?_⟩
    rw [← body.response]
    unfold HttpService.response HttpService.exchange_
    rw [hparser]
  | ends log stopped =>
    refine .ends ?_ ?_
    · rw [hlog, hanswers]
      exact log
    · rw [houtstanding]
      exact stopped

/-- While another service is at work or is to come, the session rests. -/
theorem Phase.resting (h : Phase limit s) {next : ServiceKind}
    (hnext : s.service.outstanding = [.switch_service next]) :
    s.answers.length = s.service.forwarded.length ∧ s.log = finals s.answers ∧
      s.service.server_input = [] ∧ s.in_flight = [] := by
  have hawaits (awaits : s.Awaits limit) : False := by
    have houtstanding := awaits.outstanding
    rw [hnext] at houtstanding
    simp at houtstanding
  cases h with
  | rests answered log input flight => exact ⟨answered, log, input, flight⟩
  | asks asked awaits => exact (hawaits awaits).elim
  | answered done a answers asked awaits => exact (hawaits awaits).elim
  | reads done a answers asked outstanding =>
    rw [hnext] at outstanding
    simp at outstanding
  | ends log stopped =>
    have hstopped := stopped (.switch_service next) (by simp [hnext])
    simp at hstopped

/-! ## The server -/

theorem getElem?_last {α : Type} {l : List α} {n : Nat} (h : l.length = n + 1) :
    l[n]? = l.getLast? := by
  rw [List.getLast?_eq_getElem?, h]
  rfl

/-- An answer comes to a service that waits for it, or to one that has stopped. -/
theorem phase_answer {a : Answer} (hplain : a.Plain limit) (h : Phase limit s)
    (hs : step c s (.answer a) = some s') : Phase limit s' := by
  simp only [step] at hs
  split at hs
  · cases hs
  · rename_i f hf
    split at hs
    · rename_i hof
      obtain rfl := Option.some.inj hs
      have hlen : s.answers.length < s.service.forwarded.length :=
        (List.getElem?_eq_some_iff.mp hf).1
      cases h with
      | rests answered =>
        rw [answered] at hlen
        exact absurd hlen (Nat.lt_irrefl _)
      | asks asked awaits input flight =>
        refine .answered s.answers a rfl ⟨asked.forwarded, asked.log⟩
          ⟨awaits.outstanding, awaits.fresh, awaits.last⟩ hplain ?_ ?_
        · have hlast := awaits.last
          rw [← getElem?_last asked.forwarded, hf] at hlast
          rw [← Option.some.inj hlast]
          exact hof.1
        · show s.service.server_input ++ (s.in_flight ++ a.encode) = a.encode
          rw [input, flight]
          rfl
      | answered done b answers asked =>
        rw [answers, asked.forwarded, List.length_append] at hlen
        exact absurd hlen (Nat.lt_irrefl _)
      | reads done b answers asked =>
        rw [answers, asked.forwarded, List.length_append] at hlen
        exact absurd hlen (Nat.lt_irrefl _)
      | ends log stopped =>
        refine .ends ?_ stopped
        rw [finals_append]
        exact log.trans (List.prefix_append _ _)
    · cases hs

/-! ## The service -/

theorem step_service {e : HttpService.Event} (hs : step c s (.service e) = some s') :
    ∃ service rest, HttpService.step c s.service e = some service ∧
      s.in_flight = arriving e ++ rest ∧ s' = s.moved service rest := by
  simp only [step] at hs
  split at hs
  · rename_i h
    obtain ⟨rest, hrest⟩ := h.1
    obtain ⟨service, hstep, rfl⟩ := Option.map_eq_some_iff.mp hs
    refine ⟨service, rest, hstep, hrest.symm, ?_⟩
    rw [← hrest, List.drop_left]
  · cases hs

/-- A service that has written no response of the server leaves the log. -/
theorem log_moved {service : HttpService} (h : service.received = s.service.received)
    (flight : Text) : (s.moved service flight).log = s.log := by
  unfold moved
  rw [h, List.drop_length]
  exact List.append_nil _

/-- The end of an operation of the service leaves the rest, but for the bytes that came. -/
theorem arrive_keeps {service service' : HttpService} {t : Completion} {k : Continuation}
    (h : service.arrive t k = some service') :
    service'.outstanding = service.outstanding ∧ service'.forwarded = service.forwarded ∧
      service'.received = service.received ∧ service'.parser_ = service.parser_ ∧
      service'.server_input = service.server_input ++ arriving (.complete k t) := by
  have hnone (hinput : service'.server_input = service.server_input)
      (hk : arriving (.complete k t) = []) :
      service'.server_input = service.server_input ++ arriving (.complete k t) := by
    rw [hk, List.append_nil]
    exact hinput
  have hserver (e : connection.Event) (he : arriving (.complete k t) = brought e)
      (hconsume : ∀ n, e ≠ .consume n)
      (h : (connection.step service.flow_.server e).map service.set_server_connection =
        some service') :
      service'.outstanding = service.outstanding ∧ service'.forwarded = service.forwarded ∧
        service'.received = service.received ∧ service'.parser_ = service.parser_ ∧
        service'.server_input = service.server_input ++ arriving (.complete k t) := by
    obtain ⟨server, hstep, rfl⟩ := Option.map_eq_some_iff.mp h
    refine ⟨rfl, rfl, rfl, rfl, ?_⟩
    rcases input_step hstep with hinput | ⟨n, rfl, -⟩
    · rw [he]
      exact hinput
    · exact absurd rfl (hconsume n)
  cases k with
  | on_read_request_head =>
    obtain rfl := Option.some.inj h
    exact ⟨rfl, rfl, rfl, rfl, hnone rfl rfl⟩
  | on_read_request_body =>
    obtain rfl := Option.some.inj h
    exact ⟨rfl, rfl, rfl, rfl, hnone rfl rfl⟩
  | on_connect_server =>
    simp only [arrive] at h
    split at h
    · obtain rfl := Option.some.inj h
      exact ⟨rfl, rfl, rfl, rfl, hnone rfl rfl⟩
    · cases h
  | on_forward_request => exact hserver (.on_write (t.error != .success)) rfl (by simp) h
  | on_read_response_head => exact hserver (.on_read t.data (t.error != .success)) rfl (by simp) h
  | on_read_response_body => exact hserver (.on_read t.data (t.error != .success)) rfl (by simp) h
  | on_forward_response =>
    obtain rfl := Option.some.inj h
    exact ⟨rfl, rfl, rfl, rfl, hnone rfl rfl⟩
  | on_send_connect_response =>
    obtain rfl := Option.some.inj h
    exact ⟨rfl, rfl, rfl, rfl, hnone rfl rfl⟩
  | on_write_error_response =>
    obtain rfl := Option.some.inj h
    exact ⟨rfl, rfl, rfl, rfl, hnone rfl rfl⟩
  | switch_service next => cases h
  | stop => cases h

/-- A handler that the server is not concerned with, in a session that rests. -/
theorem phase_of_rests {service : HttpService}
    (answered : s.answers.length = s.service.forwarded.length) (log : s.log = finals s.answers)
    (input : s.service.server_input = []) (h : Rests limit s.service service) :
    Phase limit (s.moved service []) :=
  .rests (answered.trans (congrArg List.length h.forwarded).symm)
    ((log_moved h.received []).trans log) (h.server_input.trans input) rfl h.left

/-- A handler that ends with an error. -/
theorem phase_of_fails {service : HttpService} (h : Phase limit s)
    (hfails : Fails s.service service) (flight : Text) : Phase limit (s.moved service flight) := by
  refine .ends ?_ ?_
  · rw [log_moved hfails.received]
    exact h.paired
  · intro k hk
    have hk' : k ∈ service.outstanding := hk
    rw [hfails.outstanding] at hk'
    exact .inl (List.mem_singleton.mp hk')

/-- A handler that reads of the answer to the last request. -/
theorem phase_of_responds {done : List Answer} {a : Answer} {service : HttpService} {flight : Text}
    (h : Phase limit s) (answers : s.answers = done ++ [a]) (asked : s.Asked done)
    (hresponds : Responds a flight s.service service) : Phase limit (s.moved service flight) := by
  cases hresponds with
  | fails hfails => exact phase_of_fails h hfails flight
  | waits forwarded received outstanding input body =>
    refine .reads done a answers ⟨?_, ?_⟩ outstanding input body
    · exact (congrArg List.length forwarded).trans asked.forwarded
    · rw [log_moved received, asked.log]
  | passes forwarded received outstanding input all =>
    refine .rests ?_ ?_ input all (.inr ⟨_, outstanding, trivial⟩)
    · show s.answers.length = service.forwarded.length
      rw [forwarded, asked.forwarded, answers, List.length_append]
      rfl
    · show s.log ++ _ = finals s.answers
      rw [received, List.drop_left, asked.log, answers, finals_append, asked.forwarded]
      rfl

/-- The service as an operation that has ended leaves it to the handler. -/
structure Arrived (s : Session) (k : Continuation) (t : Completion) (s₁ : HttpService) : Prop where
  outstanding : s₁.outstanding = []
  forwarded : s₁.forwarded = s.service.forwarded
  received : s₁.received = s.service.received
  parser : s₁.parser_ = s.service.parser_
  input : s₁.server_input = s.service.server_input ++ arriving (.complete k t)

section

variable {k : Continuation} {t : Completion} {s₁ service : HttpService} {rest : Text}
  (hs₁ : s.Arrived k t s₁) (hhandle : s₁.handle c t k = .ok service)
  (hflight : s.in_flight = arriving (.complete k t) ++ rest)

include hs₁ hhandle hflight

theorem complete_rests (answered : s.answers.length = s.service.forwarded.length)
    (log : s.log = finals s.answers) (input : s.service.server_input = [])
    (flight : s.in_flight = []) (hready : ReadyFor limit s.service.parser_ k) :
    Phase limit (s.moved service rest) := by
  rw [flight] at hflight
  obtain ⟨harriving, rfl⟩ := List.append_eq_nil_iff.mp hflight.symm
  have hinput : s₁.server_input = s.service.server_input := by
    rw [hs₁.input, harriving, List.append_nil]
  rw [← hs₁.parser] at hready
  rcases rests_handle hs₁.outstanding hready hhandle with hrests | ⟨rfl, rfl⟩
  · exact phase_of_rests answered log input (hrests.of_same hs₁.forwarded hs₁.received hinput)
  · refine .asks ⟨?_, (log_moved hs₁.received []).trans log⟩ ⟨.inl ?_, hready, ?_⟩
      (hinput.trans input) rfl
    · show (s₁.forwarded ++ _).length = s.answers.length + 1
      rw [List.length_append, hs₁.forwarded, answered]
      rfl
    · show s₁.outstanding ++ [.on_forward_request] = [.on_forward_request]
      rw [hs₁.outstanding]
      rfl
    · show (s₁.forwarded ++ [_]).getLast?.map Forwarded.request = some s₁.request
      rw [List.getLast?_concat]
      rfl

omit hflight in
/-- The end of the write of a request. -/
theorem awaits_written (awaits : s.Awaits limit) (hk : k = .on_forward_request) :
    Fails s.service service ∨ service.received = s.service.received ∧
      service.forwarded = s.service.forwarded ∧ service.request = s.service.request ∧
      service.server_input = s.service.server_input ∧ (s.moved service rest).Awaits limit := by
  subst hk
  obtain rfl := Except.ok.inj hhandle
  have hrefl := Untouched.refl s₁
  have hrequest : s₁.request = s.service.request := by
    unfold HttpService.request HttpService.exchange_
    rw [hs₁.parser]
  unfold on_forward_request
  split
  · have hfails := hrefl.fails_operation (c := c) hs₁.outstanding .gateway_timeout
      .internal_server_error t.error
    exact .inl ⟨hfails.received.trans hs₁.received, hfails.outstanding⟩
  · refine .inr ⟨hs₁.received, hs₁.forwarded, hrequest, ?_, .inr ?_, ?_, ?_⟩
    · exact hs₁.input.trans (List.append_nil _)
    · show s₁.outstanding ++ [.on_read_response_head] = [.on_read_response_head]
      rw [hs₁.outstanding]
      rfl
    · show Fresh limit s₁.parser_
      rw [hs₁.parser]
      exact awaits.fresh
    · show s₁.forwarded.getLast?.map Forwarded.request = some s₁.request
      rw [hs₁.forwarded, hrequest]
      exact awaits.last

theorem complete_asks (h : Phase limit s) (asked : s.Asked s.answers) (awaits : s.Awaits limit)
    (input : s.service.server_input = []) (flight : s.in_flight = [])
    (hk : k = .on_forward_request ∨ k = .on_read_response_head) :
    Phase limit (s.moved service rest) := by
  rw [flight] at hflight
  obtain ⟨harriving, rfl⟩ := List.append_eq_nil_iff.mp hflight.symm
  rcases hk with hk | rfl
  · rcases awaits_written hs₁ hhandle awaits hk with
      hfails | ⟨hreceived, hforwarded, -, hinput, hawaits⟩
    · exact phase_of_fails h hfails []
    · refine .asks ⟨?_, ?_⟩ hawaits (hinput.trans input) rfl
      · exact (congrArg List.length hforwarded).trans asked.forwarded
      · exact (log_moved hreceived []).trans asked.log
  · have hinput : s₁.server_input = [] := by
      rw [hs₁.input, harriving, input]
      rfl
    have hlines : LinesOpen s₁.parser_.lines := by
      rw [hs₁.parser]
      exact awaits.fresh.lines
    have hfails := fails_no_head hs₁.outstanding hlines hinput hhandle
    exact phase_of_fails h ⟨hfails.received.trans hs₁.received, hfails.outstanding⟩ []

theorem complete_answered (h : Phase limit s) {done : List Answer} {a : Answer}
    (answers : s.answers = done ++ [a]) (asked : s.Asked done) (awaits : s.Awaits limit)
    (plain : a.Plain limit) (method : s.service.request.method_ = a.method)
    (wire : s.service.server_input ++ s.in_flight = a.encode)
    (hk : k = .on_forward_request ∨ k = .on_read_response_head) :
    Phase limit (s.moved service rest) := by
  rcases hk with hk | rfl
  · rcases awaits_written hs₁ hhandle awaits hk with
      hfails | ⟨hreceived, hforwarded, hrequest, hinput, hawaits⟩
    · exact phase_of_fails h hfails rest
    · have hrest : s.in_flight = rest := by
        rw [hflight, hk]
        rfl
      refine .answered done a answers ⟨?_, ?_⟩ hawaits plain ?_ ?_
      · exact (congrArg List.length hforwarded).trans asked.forwarded
      · exact (log_moved hreceived _).trans asked.log
      · exact (congrArg Request.method_ hrequest).trans method
      · show service.server_input ++ rest = a.encode
        rw [hinput, ← hrest, wire]
  · have hfresh : Fresh limit s₁.parser_ := by
      rw [hs₁.parser]
      exact awaits.fresh
    have hmethod : s₁.request.method_ = a.method := by
      rw [← method]
      unfold HttpService.request HttpService.exchange_
      rw [hs₁.parser]
    have hwire : s₁.server_input ++ rest = a.encode := by
      rw [hs₁.input, List.append_assoc, ← hflight, wire]
    have hresponds := responds_on_read_response_head hs₁.outstanding hfresh plain hmethod hwire
      hhandle
    exact phase_of_responds h answers asked (hresponds.of_same hs₁.forwarded hs₁.received)

theorem complete_reads (h : Phase limit s) {done : List Answer} {a : Answer}
    (answers : s.answers = done ++ [a]) (asked : s.Asked done)
    (input : s.service.server_input = []) (body : s.service.InBody a s.in_flight)
    (hk : k = .on_read_response_body) : Phase limit (s.moved service rest) := by
  subst hk
  have hbody : s₁.InBody a (s₁.server_input ++ rest) := by
    rw [hs₁.input, input, List.nil_append, ← hflight]
    refine ⟨?_, ?_⟩
    · rw [hs₁.parser]
      exact body.ends
    · rw [← body.response]
      unfold HttpService.response HttpService.exchange_
      rw [hs₁.parser]
  have hresponds := responds_on_read_response_body hs₁.outstanding hbody hhandle
  exact phase_of_responds h answers asked (hresponds.of_same hs₁.forwarded hs₁.received)

end

/-- The end of an operation of the service. -/
theorem phase_complete {k : Continuation} {t : Completion} {service : HttpService} {rest : Text}
    (h : Phase limit s) (hstep : HttpService.step c s.service (.complete k t) = some service)
    (hflight : s.in_flight = arriving (.complete k t) ++ rest) :
    Phase limit (s.moved service rest) := by
  obtain ⟨hk, s₁, harrive, hhandle⟩ := step_complete hstep
  obtain ⟨hout, hforwarded, hreceived, hparser, hinput⟩ := arrive_keeps harrive
  have hone {k' : Continuation} (hleft : s.service.outstanding = [k']) :
      k = k' ∧ s.Arrived k t s₁ := by
    rw [hleft] at hk
    obtain rfl := List.mem_singleton.mp hk
    refine ⟨rfl, ?_, hforwarded, hreceived, hparser, hinput⟩
    rw [hout, hleft]
    simp
  have htwo {k' k'' : Continuation}
      (hleft : s.service.outstanding = [k'] ∨ s.service.outstanding = [k'']) :
      (k = k' ∨ k = k'') ∧ s.Arrived k t s₁ := by
    rcases hleft with hleft | hleft
    · exact (hone hleft).imp_left .inl
    · exact (hone hleft).imp_left .inr
  have hphase := h
  cases hphase with
  | rests answered log input flight left =>
    rcases left with hnil | ⟨k', hleft, hready⟩
    · rw [hnil] at hk
      cases hk
    · obtain ⟨rfl, hs₁⟩ := hone hleft
      exact complete_rests hs₁ hhandle hflight answered log input flight hready
  | asks asked awaits input flight =>
    obtain ⟨hk', hs₁⟩ := htwo awaits.outstanding
    exact complete_asks hs₁ hhandle hflight h asked awaits input flight hk'
  | answered done a answers asked awaits plain method wire =>
    obtain ⟨hk', hs₁⟩ := htwo awaits.outstanding
    exact complete_answered hs₁ hhandle hflight h answers asked awaits plain method wire hk'
  | reads done a answers asked outstanding input body =>
    obtain ⟨hk', hs₁⟩ := hone outstanding
    exact complete_reads hs₁ hhandle hflight h answers asked input body hk'
  | ends log stopped =>
    rcases stopped k hk with rfl | rfl
    · obtain rfl := Except.ok.inj hhandle
      refine .ends ?_ ?_
      · have hreceived' : (s₁.on_write_error_response t).received = s.service.received := hreceived
        rw [log_moved hreceived']
        exact log
      · intro k' hk'
        have hmem : k' ∈ s₁.outstanding ++ [.stop] := hk'
        rw [hout] at hmem
        rcases List.mem_append.mp hmem with hmem | hmem
        · exact stopped k' (List.mem_of_mem_erase hmem)
        · exact .inr (List.mem_singleton.mp hmem)
    · cases harrive

theorem brought_callback {e : connection.Event} (h : is_callback e = true) : brought e = [] := by
  cases e with
  | on_read bytes error => cases h
  | _ => rfl

/-- A step of the service. -/
theorem phase_service {e : HttpService.Event} (h : Phase c.body_size_limit s)
    (hs : step c s (.service e) = some s') : Phase c.body_size_limit s' := by
  obtain ⟨service, rest, hstep, hflight, rfl⟩ := step_service hs
  cases e with
  | start =>
    obtain ⟨hstarts, rfl⟩ := step_start hstep
    obtain ⟨next, hnext⟩ : ∃ next, s.service.outstanding = [.switch_service next] := by
      simp only [starts, Bool.and_eq_true, Bool.or_eq_true, beq_iff_eq] at hstarts
      exact hstarts.1.elim (⟨_, ·⟩) (⟨_, ·⟩)
    obtain ⟨answered, log, input, flight⟩ := h.resting hnext
    rw [flight] at hflight
    obtain ⟨-, rfl⟩ := List.append_eq_nil_iff.mp hflight.symm
    exact phase_of_rests answered log input (rests_start s.service)
  | complete k t => exact phase_complete h hstep hflight
  | callback e err =>
    obtain ⟨hcallback, server, hserver, hcases⟩ := step_callback hstep
    have hinput : input_of server = s.service.server_input := by
      rcases input_step hserver with hinput | ⟨n, rfl, -⟩
      · rw [hinput, brought_callback hcallback]
        exact List.append_nil _
      · cases hcallback
    rcases hcases with ⟨-, -, code, -, rfl⟩ | ⟨-, rfl⟩
    · exact h.of_same rfl hflight.symm (log_moved rfl rest) rfl rfl rfl hinput
    · exact h.of_same rfl hflight.symm (log_moved rfl rest) rfl rfl rfl hinput
  | other_server e =>
    obtain ⟨hleft, -, server, hserver, rfl⟩ := step_other_server hstep
    obtain ⟨next, hnext⟩ : ∃ next, s.service.outstanding = [.switch_service next] := by
      simp only [left_to_other, Bool.or_eq_true, beq_iff_eq] at hleft
      exact hleft.elim (·.elim (⟨_, ·⟩) (⟨_, ·⟩)) (⟨_, ·⟩)
    obtain ⟨-, -, input, flight⟩ := h.resting hnext
    rw [flight] at hflight
    obtain ⟨harriving, rfl⟩ := List.append_eq_nil_iff.mp hflight.symm
    have hbrought : brought e = [] := harriving
    have hinput : input_of server = s.service.server_input := by
      have hempty : input_of s.service.flow_.server = [] := input
      rw [input]
      rcases input_step hserver with hinput | ⟨n, -, hinput⟩
      · rw [hinput, hempty, hbrought]
        rfl
      · rw [hinput, hempty, List.drop_nil]
    exact h.of_same rfl flight.symm (log_moved rfl []) rfl rfl rfl hinput
  | other_flow client_input error intercept_tls intercept_websocket =>
    obtain ⟨-, rfl⟩ := step_other_flow hstep
    exact h.of_same rfl hflight.symm (log_moved rfl rest) rfl rfl rfl rfl

end

/-! ## Runs -/

/-- An answer is plain. -/
def PlainEvent (c : Components) : Event → Prop
  | .service _ => True
  | .answer a => a.Plain c.body_size_limit

/-- With plain answers the client gets, for its requests one after the other, the final responses of
the server to them, however the bytes arrive and the steps follow one another. -/
theorem responses_are_paired (c : Components) (es : List Event) (h : ∀ e ∈ es, PlainEvent c e) :
    Throughout (step c) Paired (new c) es := by
  have hphases : Throughout (step c) (Phase c.body_size_limit) (new c) es := by
    refine throughout_of_events (R := PlainEvent c) ?_ (phase_new c) h
    intro s e s' hplain hphase hs
    cases e with
    | service e => exact phase_service hphase hs
    | answer a => exact phase_answer hplain hphase hs
  exact hphases.mono (fun _ => Phase.paired)

/-! ## A request and its answer -/

/-- `HTTP/1.1 200 OK`, with a body of two bytes. -/
def an_ok : ResponseHead where
  version := .http1_1
  code := 200
  reason := text "OK"
  fields :=
    [⟨text "Content-Length", [32], text "2", [], by decide, by simp [optionalSpace], by decide,
      by simp⟩]
  code_ := by decide
  reason_ := by decide

/-- `HTTP/1.1 100 Continue`. -/
def a_continue : ResponseHead := ⟨.http1_1, 100, text "Continue", [], by decide, by decide⟩

def a_plain_answer : Answer where
  method := .GET
  interims := []
  final := an_ok
  body := .sized (text "hi")
  interims_ := by simp
  final_ := by decide
  framed := by decide

/-- The server has sent an interim response before. -/
def an_early_answer : Answer where
  method := .GET
  interims := [a_continue]
  final := an_ok
  body := .sized (text "hi")
  interims_ := by decide
  final_ := by decide
  framed := by decide

/-- A request is written for the server, which answers it. -/
def asked_and_answered (a : Answer) : List Event :=
  [.service .start,
    .service (.complete .on_read_request_head
      (succeeded (text "GET / HTTP/1.1\r\nHost: a\r\n\r\n"))),
    .service (.callback (.on_resolve (some 1)) .success),
    .service (.callback (.on_connect true) .success),
    .service (.complete .on_connect_server (succeeded [])),
    .service (.complete .on_forward_request (succeeded [])),
    .answer a]

/-- The first bytes of the answer are read. -/
def read_first (a : Answer) (first : Text) : List Event :=
  asked_and_answered a ++ [.service (.complete .on_read_response_head (succeeded first))]

theorem a_plain_answer_is_plain : a_plain_answer.Plain defaults.body_size_limit :=
  ⟨rfl, by decide, by decide, by decide, .inl (by decide)⟩

theorem responses_are_paired_after_a_plain_answer :
    Throughout (step defaults) Paired (new defaults)
        (read_first a_plain_answer a_plain_answer.encode) ∧
      ∃ s, run (step defaults) (new defaults) (read_first a_plain_answer a_plain_answer.encode) =
        some s ∧ s.log = [(a_plain_answer.response, 0)] := by
  refine ⟨responses_are_paired defaults _ ?_, _, rfl, by decide⟩
  intro e he
  simp only [read_first, asked_and_answered, List.cons_append, List.nil_append, List.mem_cons,
    List.not_mem_nil, or_false] at he
  rcases he with rfl | rfl | rfl | rfl | rfl | rfl | rfl | rfl
  all_goals first | trivial | exact a_plain_answer_is_plain

/-- The client gets the interim response for the final one. -/
theorem an_interim_response_is_taken_for_the_final_one :
    (∃ s, run (step defaults) (new defaults) (read_first an_early_answer a_continue.encode) =
        some s ∧ s.log = [(a_continue.response, 0)] ∧
        finals s.answers = [(an_early_answer.response, 0)]) ∧
      ¬ Throughout (step defaults) Paired (new defaults)
        (read_first an_early_answer a_continue.encode) := by
  refine ⟨⟨_, rfl, by decide, by decide⟩, ?_⟩
  intro h
  rw [← List.append_nil (read_first an_early_answer a_continue.encode)] at h
  have hpaired := h.run rfl
  unfold Paired at hpaired
  revert hpaired
  decide

end Session

end proxy.http.http1
