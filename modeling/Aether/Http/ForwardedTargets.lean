-- Each request is written while the connection to the server is to the host and the
-- port of that request, whatever the client asks for and the network does.
import Aether.Connection.Targets
import Aether.Http.Continuations

open util.string util.buffer lib.runs proxy.connection

namespace proxy.http.http1

/-- The connection had last been connected to the host and the port of the request. -/
def Forwarded.ToItsHost (f : Forwarded) : Prop :=
  f.endpoint = some (f.request.host_name, f.request.host_port)

/-- The interceptors do not change the target. -/
def Completion.KeepsTarget (t : Completion) : Prop :=
  ∀ event i, (t.intercept event i).exchange_.req_.target_ = i.exchange_.req_.target_

namespace HttpService

/-- The target is the host and the port of the request. -/
def Aimed (s : HttpService) : Prop :=
  (s.flow_.server.target_host_, s.flow_.server.target_port_) =
    (s.request.host_name, s.request.host_port)

/-- The state in a handler: no connect is going on. -/
structure Ready (s : HttpService) : Prop where
  server : Aligned s.flow_.server
  idle : s.flow_.server.connecting = .idle
  nothing_left : s.outstanding = []
  forwarded : ∀ f ∈ s.forwarded, f.ToItsHost

/-- The state between two steps. A connect is going on only for the handler that waits for it, or
for another service. -/
structure Settled (s : HttpService) : Prop where
  server : Aligned s.flow_.server
  one : s.outstanding.length ≤ 1
  idle : s.flow_.server.connecting ≠ .idle →
    s.outstanding = [.on_connect_server] ∨ s.left_to_other = true
  aimed : s.outstanding = [.on_connect_server] → s.Aimed
  posted : s.outstanding = [.on_connect_server] → ∀ code, s.posted = some code →
    s.flow_.server.connecting = .idle ∧
      (code = .success →
        s.flow_.server.endpoint = some (s.request.host_name, s.request.host_port))
  forwarded : ∀ f ∈ s.forwarded, f.ToItsHost

variable {c : Components} {s s' : HttpService} {t : Completion}

theorem is_callback_cases {e : connection.Event} (h : is_callback e = true) :
    (∃ endpoints, e = .on_resolve endpoints) ∨ (∃ success, e = .on_connect success) ∨
      e = .on_timeout := by
  cases e with
  | on_resolve endpoints => exact .inl ⟨endpoints, rfl⟩
  | on_connect success => exact .inr (.inl ⟨success, rfl⟩)
  | on_timeout => exact .inr (.inr rfl)
  | _ => cases h

theorem outstanding_of_mem {k : Continuation} (h : s.outstanding.length ≤ 1)
    (hk : k ∈ s.outstanding) : s.outstanding = [k] := by
  obtain ⟨k', hk'⟩ := List.length_eq_one_iff.mp
    (Nat.le_antisymm h (List.length_pos_of_mem hk))
  rw [hk'] at hk ⊢
  rw [List.mem_singleton.mp hk]

/-! ## Connects -/

/-- A connect is going on only for the handler that waits for it. -/
structure Resting (s : HttpService) : Prop where
  one : s.outstanding.length ≤ 1
  idle : s.flow_.server.connecting ≠ .idle → s.outstanding = [.on_connect_server]
  posted : s.outstanding = [.on_connect_server] → s.posted ≠ none →
    s.flow_.server.connecting = .idle

/-- The state between two steps, if another service may be at work. -/
def RestingOrLeft (s : HttpService) : Prop := s.Resting ∨ s.left_to_other = true

theorem resting_of_idle (hidle : s.flow_.server.connecting = .idle)
    (hone : s.outstanding.length ≤ 1) : s.Resting :=
  ⟨hone, fun hbusy => absurd hidle hbusy, fun _ _ => hidle⟩

theorem Within.idle {s₁ : HttpService} (hs : Within s s₁)
    (hidle : s.flow_.server.connecting = .idle) : s₁.flow_.server.connecting = .idle := by
  obtain ⟨n, hn⟩ := hs.server
  rw [hn]
  exact hidle

/-- What an operation leaves begins no connect. -/
theorem Arrives.idle {s₁ : HttpService} (h : Arrives s s₁)
    (hidle : s.flow_.server.connecting = .idle) : s₁.flow_.server.connecting = .idle := by
  rcases h.server with hsame | ⟨e, he, hstep⟩
  · rw [hsame]
    exact hidle
  · exact (step_io he hstep).1.trans hidle

theorem aimed_idle (hidle : s.flow_.server.connecting = .idle) :
    (s.aimed c).flow_.server.connecting = .idle ∧ (s.aimed c).outstanding = s.outstanding := by
  have hset := Aligned.connecting_set_server s.flow_.server s.request.host_name s.request.host_port
  unfold aimed HttpService.set_server
  split
  · exact ⟨hidle, rfl⟩
  · simp only
    split
    · exact ⟨hset.trans hidle, rfl⟩
    · exact ⟨hset.trans hidle, rfl⟩

section

variable (hidle : s.flow_.server.connecting = .idle) (hnil : s.outstanding = [])

include hidle hnil

theorem Leaves.resting (hs : Leaves s s') : s'.Resting := by
  obtain ⟨s₁, k, hwithin, -, rfl⟩ := hs
  refine resting_of_idle (hwithin.idle hidle) ?_
  show (s₁.outstanding ++ [k]).length ≤ 1
  rw [hwithin.outstanding, hnil]
  exact Nat.le_refl 1

theorem connect_server_resting : (s.connect_server t).Resting := by
  have hout : (s.connect_server t).outstanding = [.on_connect_server] := by
    show s.outstanding ++ [.on_connect_server] = _
    rw [hnil]
    rfl
  refine ⟨Nat.le_of_eq (congrArg List.length hout), fun _ => hout, fun _ hposted => ?_⟩
  -- The handler is posted at once only where the connection is open.
  show (s.flow_.server.connect_async t.has_been_closed).connecting = .idle
  unfold System.connect_async
  simp only
  split
  · exact hidle
  · rename_i hclosed
    exact absurd (if_neg hclosed) hposted

theorem Proceeds.resting (hs : Proceeds c t s s') : s'.Resting := by
  cases hs with
  | leaves hs => exact hs.resting hidle hnil
  | answers event hwithin hs =>
    have hafter := hwithin.intercept t event
    have haimed := aimed_idle (c := c) (hafter.idle hidle)
    exact hs.resting haimed.1 (haimed.2.trans (hafter.outstanding.trans hnil))
  | connects hwithin hs =>
    have hafter := hwithin.intercept t .request
    have haimed := aimed_idle (c := c) (hafter.idle hidle)
    have hnone := haimed.2.trans (hafter.outstanding.trans hnil)
    rcases hs with rfl | rfl
    · exact connect_server_resting haimed.1 hnone
    · exact connect_server_resting haimed.1 hnone

theorem handle_resting {k : Continuation} (hs : s.handle c t k = .ok s') : s'.Resting := by
  rcases handle_cases hs with ⟨-, hwithin⟩ | ⟨-, hproceeds | ⟨-, -, rfl⟩⟩
  · refine resting_of_idle (hwithin.idle hidle) ?_
    rw [hwithin.outstanding, hnil]
    exact Nat.zero_le 1
  · exact hproceeds.resting hidle hnil
  · refine resting_of_idle hidle (Nat.le_of_eq ?_)
    exact congrArg (fun rest => (rest ++ [Continuation.on_forward_request]).length) hnil

end

/-- Where an operation is over, no connect is going on. -/
theorem RestingOrLeft.idle_of_arrive {k : Continuation} {s₁ : HttpService} (h : s.RestingOrLeft)
    (hk : k ∈ s.outstanding)
    (harrive : { s with outstanding := s.outstanding.erase k }.arrive t k = some s₁) :
    s.outstanding = [k] ∧ s.flow_.server.connecting = .idle := by
  rcases h with hrest | hleft
  · have hout := outstanding_of_mem hrest.one hk
    refine ⟨hout, ?_⟩
    by_contra hbusy
    have hconnect := hrest.idle hbusy
    obtain rfl : k = .on_connect_server := List.singleton_inj.mp (hout.symm.trans hconnect)
    simp only [arrive] at harrive
    split at harrive
    · rename_i hposted
      exact hbusy (hrest.posted hconnect (by rw [hposted]; exact Option.some_ne_none _))
    · cases harrive
  · have hswitch : ∃ next, s.outstanding = [.switch_service next] := by
      simp only [left_to_other, Bool.or_eq_true, beq_iff_eq] at hleft
      rcases hleft with (hnext | hnext) | hnext <;> exact ⟨_, hnext⟩
    obtain ⟨next, hnext⟩ := hswitch
    rw [hnext] at hk
    obtain rfl := List.mem_singleton.mp hk
    cases harrive

theorem RestingOrLeft.complete {k : Continuation} (h : s.RestingOrLeft)
    (hs : step c s (.complete k t) = some s') : s'.Resting := by
  obtain ⟨hk, s₁, harrive, hhandle⟩ := step_complete hs
  obtain ⟨hout, hidle⟩ := h.idle_of_arrive hk harrive
  have h₁ := arrives_of_arrive harrive
  have hnil : s₁.outstanding = [] := by
    rw [h₁.outstanding, hout]
    exact List.erase_cons_head _ _
  exact handle_resting (h₁.idle hidle) hnil hhandle

theorem RestingOrLeft.step {e : Event} (h : s.RestingOrLeft)
    (hs : HttpService.step c s e = some s') : s'.RestingOrLeft := by
  cases e with
  | start =>
    obtain ⟨hstarts, rfl⟩ := step_start hs
    have hidle := of_decide_eq_true (Bool.and_eq_true_iff.mp hstarts).2
    exact .inl (Leaves.resting (s := { s with outstanding := [] }) hidle rfl leaves_start)
  | complete k t => exact .inl (h.complete hs)
  | callback e err =>
    obtain ⟨hcallback, server, hstep, hs⟩ := step_callback hs
    have he := is_callback_cases hcallback
    rcases hs with ⟨-, hended, code, -, rfl⟩ | ⟨-, rfl⟩
    · exact h.imp (fun hrest => resting_of_idle hended hrest.one) id
    · refine h.imp (fun hrest => ⟨hrest.one, ?_, ?_⟩) id
      · intro hbusy
        exact hrest.idle fun hidle => hbusy (step_idle hidle he hstep).1
      · intro hconnect hposted
        exact (step_idle (hrest.posted hconnect hposted) he hstep).1
  | other_server e =>
    obtain ⟨hleft, -, server, -, rfl⟩ := step_other_server hs
    exact .inr hleft
  | other_flow client_input error intercept_tls intercept_websocket =>
    obtain ⟨hleft, rfl⟩ := step_other_flow hs
    exact .inr hleft

/-- In a run, no connect is going on where the service leaves the flow to another one. -/
theorem idle_where_it_is_left {es : List Event} {k : Continuation} {next : ServiceKind}
    (hrun : run (step c) (new c) es = some s) (hs : step c s (.complete k t) = some s')
    (hnext : s'.outstanding = [.switch_service next]) : s'.flow_.server.connecting = .idle := by
  have hnew : (new c).RestingOrLeft := .inl (resting_of_idle rfl (Nat.le_refl 1))
  have hrests : s.RestingOrLeft :=
    (throughout_of_step (fun _ _ _ h hs => RestingOrLeft.step h hs) hnew (es ++ [])).run hrun
  by_contra hbusy
  rw [(hrests.complete hs).idle hbusy] at hnext
  cases List.singleton_inj.mp hnext

/-! ## Handlers -/

namespace Ready

theorem within {s₁ : HttpService} (h : Ready s) (hs : Within s s₁) : Ready s₁ := by
  obtain ⟨n, hn⟩ := hs.server
  refine ⟨?_, hs.idle h.idle, hs.outstanding.trans h.nothing_left, ?_⟩
  · rw [hn]
    exact h.server.consume n
  · rw [hs.forwarded]
    exact h.forwarded

theorem settled (h : Ready s) : Settled s := by
  have hout := h.nothing_left
  refine ⟨h.server, ?_, fun hc => absurd h.idle hc, ?_, ?_, h.forwarded⟩ <;> simp [hout]

theorem leaves (h : Ready s) (hs : Leaves s s') : Settled s' := by
  obtain ⟨s₁, k, hwithin, hk, rfl⟩ := hs
  have h₁ := h.within hwithin
  have hout : (s₁.leave k).outstanding = [k] := by
    rw [leave, h₁.nothing_left]
    rfl
  have hother : (s₁.leave k).outstanding ≠ [.on_connect_server] := by
    rw [hout]
    intro hc
    exact hk (List.singleton_inj.mp hc)
  refine ⟨h₁.server, ?_, fun hc => absurd h₁.idle hc, fun hc => absurd hc hother,
    fun hc => absurd hc hother, h₁.forwarded⟩
  rw [hout]
  exact Nat.le_refl 1

/-- After `set_server`, whether or not there was a connection to reuse. -/
theorem aimed (h : Ready s) : Ready (s.aimed c) ∧ (s.aimed c).Aimed := by
  obtain ⟨haligned, hidle, htarget⟩ :=
    h.server.set_server h.idle s.request.host_name s.request.host_port
  unfold HttpService.aimed HttpService.set_server
  split
  · rename_i hc
    obtain ⟨hconnected, hhost⟩ := Aligned.is_connected_to_iff.mp hc
    exact ⟨h, (h.server.target (.inl hconnected)).symm.trans hhost⟩
  · simp only
    split
    · exact ⟨⟨haligned, hidle, h.nothing_left, h.forwarded⟩, htarget⟩
    · exact ⟨⟨haligned, hidle, h.nothing_left, h.forwarded⟩, htarget⟩

/-- A connection is only reused for the host and the port that it is connected to. -/
theorem connect_server (h : Ready s) (haimed : s.Aimed) : Settled (s.connect_server t) := by
  have hout : (s.connect_server t).outstanding = [.on_connect_server] := by
    show s.outstanding ++ [.on_connect_server] = _
    rw [h.nothing_left]
    rfl
  have htarget := step_target (s := s.flow_.server) (e := .connect_async t.has_been_closed)
    (fun _ _ => nofun) rfl
  refine ⟨h.server.connect_async t.has_been_closed, ?_, fun _ => .inl hout,
    fun _ => htarget.trans haimed, ?_, h.forwarded⟩
  · rw [hout]
    exact Nat.le_refl 1
  · intro _ code hcode
    have hposted : (s.connect_server t).posted =
        if s.flow_.server.server.is_connected_to s.flow_.server.target_host_
          s.flow_.server.target_port_ && !t.has_been_closed then some .success else none := rfl
    have hserver : (s.connect_server t).flow_.server =
        s.flow_.server.connect_async t.has_been_closed := rfl
    have hrequest : (s.connect_server t).request = s.request := rfl
    rw [hposted] at hcode
    rw [hserver, hrequest]
    unfold System.connect_async
    simp only
    split at hcode
    · rename_i hopen
      rw [if_pos hopen]
      obtain ⟨hconnected, hhost⟩ :=
        Aligned.is_connected_to_iff.mp (Bool.and_eq_true_iff.mp hopen).1
      refine ⟨h.idle, fun _ => ?_⟩
      rw [h.server.endpoint hconnected, hhost]
      exact congrArg some haimed
    · cases hcode

theorem forward_request (h : Ready s)
    (hendpoint : s.flow_.server.endpoint = some (s.request.host_name, s.request.host_port)) :
    Settled s.forward_request := by
  have hsent : Ready s.send := by
    refine ⟨h.server, h.idle, h.nothing_left, ?_⟩
    intro f hf
    rcases List.mem_append.mp hf with hold | hnew
    · exact h.forwarded f hold
    · obtain rfl := List.mem_singleton.mp hnew
      exact hendpoint
  exact hsent.leaves ((Within.refl s.send).leaves nofun)

theorem proceeds (h : Ready s) (ht : t.KeepsTarget) (hs : Proceeds c t s s') : Settled s' := by
  cases hs with
  | leaves hs => exact h.leaves hs
  | answers event hwithin hs => exact (h.within (hwithin.intercept t event)).aimed.1.leaves hs
  | @connects s₁ s₂ hwithin hs =>
    have haimed := (h.within (hwithin.intercept t .request)).aimed (c := c)
    rcases hs with rfl | rfl
    · exact haimed.1.connect_server haimed.2
    · refine (haimed.1.within ((Within.refl _).intercept t .websocket_handshake)).connect_server ?_
      -- The request has the target that it had.
      have hkept : ∀ s₁ : HttpService,
          (s₁.intercept t .websocket_handshake).request.target_ = s₁.request.target_ :=
        fun s₁ => ht .websocket_handshake _
      have hwas := haimed.2
      unfold Aimed Request.host_name Request.host_port at hwas ⊢
      rw [hkept]
      exact hwas

/-- A handler, which for a connect that succeeded is called with the endpoint of the request. -/
theorem handle {k : Continuation} (h : Ready s) (ht : t.KeepsTarget)
    (hendpoint : k = .on_connect_server → t.error = .success →
      s.flow_.server.endpoint = some (s.request.host_name, s.request.host_port))
    (hs : s.handle c t k = .ok s') : Settled s' := by
  rcases handle_cases hs with ⟨-, hwithin⟩ | ⟨-, hproceeds | ⟨hk, herr, rfl⟩⟩
  · exact (h.within hwithin).settled
  · exact h.proceeds ht hproceeds
  · exact h.forward_request (hendpoint hk herr)

end Ready

/-! ## Steps -/

namespace Settled

theorem new (c : Components) : Settled (new c) := by
  refine ⟨Aligned.new, Nat.le_refl 1, fun hc => absurd rfl hc, ?_, ?_, ?_⟩
  · intro hc
    cases hc
  · intro hc
    cases hc
  · intro f hf
    cases hf

theorem start (h : Settled s) (hs : s.starts = true) :
    Settled ({ s with outstanding := [] }.start c) := by
  obtain ⟨-, hidle⟩ := Bool.and_eq_true_iff.mp hs
  have hready : Ready { s with outstanding := [] } :=
    ⟨h.server, of_decide_eq_true hidle, rfl, h.forwarded⟩
  exact hready.leaves leaves_start

theorem resting_or_left (h : Settled s) : s.RestingOrLeft := by
  cases hleft : s.left_to_other with
  | true => exact .inr hleft
  | false =>
    refine .inl ⟨h.one, fun hbusy => ?_, fun hconnect hposted => ?_⟩
    · exact (h.idle hbusy).resolve_right (by rw [hleft]; exact Bool.false_ne_true)
    · obtain ⟨code, hcode⟩ := Option.ne_none_iff_exists'.mp hposted
      exact (h.posted hconnect code hcode).1

theorem complete {k : Continuation} (h : Settled s) (ht : t.KeepsTarget)
    (hs : step c s (.complete k t) = some s') : Settled s' := by
  obtain ⟨hk, s₁, harrive, hhandle⟩ := step_complete hs
  obtain ⟨hout, hidle⟩ := h.resting_or_left.idle_of_arrive hk harrive
  have h₁ := arrives_of_arrive harrive
  have herase : s.outstanding.erase k = [] := by
    rw [hout]
    simp
  -- Where it was waited for, the connect is over.
  have hposted : k = .on_connect_server → s.posted = some t.error ∧
      s₁.flow_.server = s.flow_.server := by
    rintro rfl
    simp only [arrive] at harrive
    split at harrive
    · rename_i hposted
      obtain rfl := Option.some.inj harrive
      exact ⟨hposted, rfl⟩
    · cases harrive
  have hready : Ready s₁ := by
    refine ⟨?_, h₁.idle hidle, h₁.outstanding.trans herase, ?_⟩
    · rcases h₁.server with hsame | ⟨e, he, hstep⟩
      · rw [hsame]
        exact h.server
      · refine h.server.step ?_ hstep
        rintro -
        exact hidle
    · rw [h₁.forwarded]
      exact h.forwarded
  refine hready.handle ht ?_ hhandle
  intro hk' herr
  obtain ⟨hcode, hserver⟩ := hposted hk'
  have hrequest : s₁.request = s.request := by
    unfold HttpService.request exchange_
    rw [h₁.parser]
  rw [hserver, hrequest]
  exact (h.posted (hout.trans (congrArg (fun k => [k]) hk')) _ hcode).2 herr

theorem callback {e : connection.Event} {err : ErrorCode} (h : Settled s)
    (hs : step c s (.callback e err) = some s') : Settled s' := by
  obtain ⟨hcallback, server, hstep, hs⟩ := step_callback hs
  have he := is_callback_cases hcallback
  have hnot : ∀ host port, e ≠ .set_server host port := by
    rintro host port rfl
    cases hcallback
  have haligned : Aligned server := by
    refine h.server.step ?_ hstep
    rintro (⟨host, port, hset⟩ | rfl)
    · exact absurd hset (hnot host port)
    · cases hcallback
  have htarget := step_target hnot hstep
  rcases hs with ⟨hbusy, hended, code, hcode, rfl⟩ | ⟨hgoes, rfl⟩
  · refine ⟨haligned, h.one, fun hc => absurd hended hc,
      fun hc => htarget.trans (h.aimed hc), ?_, h.forwarded⟩
    intro hc code' hcode'
    obtain rfl := Option.some.inj hcode'
    refine ⟨hended, ?_⟩
    intro hsuccess
    obtain rfl := hcode hsuccess
    have hconnected := step_connected hstep
    show server.endpoint = _
    rw [haligned.endpoint hconnected, haligned.target (.inl hconnected), htarget]
    exact congrArg some (h.aimed hc)
  · refine ⟨haligned, h.one, ?_, fun hc => htarget.trans (h.aimed hc), ?_, h.forwarded⟩
    · intro hbusy
      refine h.idle ?_
      intro hidle
      exact hbusy (step_idle hidle he hstep).1
    · intro hc code hcode
      obtain ⟨hidle, hendpoint⟩ := h.posted hc code hcode
      obtain ⟨hidle', hendpoint'⟩ := step_idle hidle he hstep
      exact ⟨hidle', fun hsuccess => hendpoint'.trans (hendpoint hsuccess)⟩

theorem other_server {e : connection.Event} (h : Settled s)
    (hs : step c s (.other_server e) = some s') : Settled s' := by
  obtain ⟨hleft, hof, server, hstep, rfl⟩ := step_other_server hs
  have hother : s.outstanding ≠ [.on_connect_server] := by
    intro hc
    unfold left_to_other at hleft
    rw [hc] at hleft
    cases hleft
  refine ⟨?_, h.one, fun _ => .inr hleft, fun hc => absurd hc hother,
    fun hc => absurd hc hother, h.forwarded⟩
  refine h.server.step ?_ hstep
  rintro (⟨host, port, rfl⟩ | rfl)
  · cases hof
  · cases hof

/-- A step of the service, or of what it works with. -/
theorem step {e : Event} (h : Settled s) (ht : ∀ k t, e = .complete k t → t.KeepsTarget)
    (hs : HttpService.step c s e = some s') : Settled s' := by
  cases e with
  | start =>
    obtain ⟨hstarts, rfl⟩ := step_start hs
    exact h.start hstarts
  | complete k t => exact h.complete (ht k t rfl) hs
  | callback e err => exact h.callback hs
  | other_server e => exact h.other_server hs
  | other_flow client_input error intercept_tls intercept_websocket =>
    obtain ⟨-, rfl⟩ := step_other_flow hs
    exact ⟨h.server, h.one, h.idle, h.aimed, h.posted, h.forwarded⟩

end Settled

/-! ## Runs -/

/-- In every run whose interceptors do not change the target, every request is written while the
last connect that succeeded was to its own host and port. -/
theorem every_request_goes_to_its_host (c : Components) (es : List Event)
    (ht : ∀ k t, .complete k t ∈ es → t.KeepsTarget) :
    Throughout (step c) (fun s => ∀ f ∈ s.forwarded, f.ToItsHost) (new c) es := by
  have hsettled : Throughout (step c) Settled (new c) es := by
    refine throughout_of_events (R := fun e => ∀ k t, e = .complete k t → t.KeepsTarget)
      (fun _ _ _ he h hs => h.step he hs) (.new c) ?_
    rintro e he k t rfl
    exact ht k t he
  exact hsettled.mono (fun s h => h.forwarded)

/-- A request, for which the connection is made. -/
def connectedOnce : List Event :=
  [.start,
    .complete .on_read_request_head (succeeded (text "GET / HTTP/1.1\r\nHost: a:81\r\n\r\n")),
    .callback (.on_resolve (some 1)) .success, .callback (.on_connect true) .success,
    .complete .on_connect_server (succeeded [])]

theorem a_request_goes_to_its_host :
    (∃ s, run (step defaults) (new defaults) connectedOnce = some s ∧
        s.forwarded.map (fun f => f.endpoint) = [some (text "a", 81)]) ∧
      Throughout (step defaults) (fun s => ∀ f ∈ s.forwarded, f.ToItsHost) (new defaults)
        connectedOnce := by
  refine ⟨⟨_, rfl, rfl⟩, every_request_goes_to_its_host defaults connectedOnce ?_⟩
  intro k t hmem
  have hall : ∀ e ∈ connectedOnce, ∀ k t, e = .complete k t → t.KeepsTarget := by
    intro e he
    simp only [connectedOnce, List.mem_cons, List.not_mem_nil, or_false] at he
    rcases he with rfl | rfl | rfl | rfl | rfl <;> rintro k t h
    · cases h
    · cases h
      exact fun _ _ => rfl
    · cases h
    · cases h
    · cases h
      exact fun _ _ => rfl
  exact hall _ hmem k t rfl

end HttpService

end proxy.http.http1
