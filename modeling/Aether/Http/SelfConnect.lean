-- The proxy does not connect to itself, by the names that it knows of itself. A target that is
-- refused stays in the flow, but nothing connects to it.
import Aether.Http.ForwardedTargets

open util.string util.buffer lib.runs proxy.connection

namespace proxy.connection

/-- No connect is going on to a bad endpoint, and none is connected. -/
structure Avoids (bad : Host × Port → Prop) (s : System) : Prop where
  connecting : s.connecting ≠ .idle → ¬ bad (s.server.host_, s.server.port_)
  connected : s.server.connected_ = true → ¬ bad (s.server.host_, s.server.port_)
  endpoint : ∀ endpoint, s.endpoint = some endpoint → ¬ bad endpoint

namespace Avoids

variable {bad : Host × Port → Prop} {s s' : System}

/-- A change that closes the connection, or leaves it. -/
theorem of_closed (h : Avoids bad s) (hconnecting : s'.connecting ≠ .idle → s.connecting ≠ .idle)
    (hconnected : s'.server.connected_ = true → s.server.connected_ = true)
    (hhost : (s'.server.host_, s'.server.port_) = (s.server.host_, s.server.port_))
    (hendpoint : s'.endpoint = s.endpoint) : Avoids bad s' := by
  refine ⟨fun hc => ?_, fun hc => ?_, ?_⟩
  · rw [hhost]
    exact h.connecting (hconnecting hc)
  · rw [hhost]
    exact h.connected (hconnected hc)
  · rw [hendpoint]
    exact h.endpoint

theorem shutdown (h : Avoids bad s) : Avoids bad s.shutdown := by
  unfold System.shutdown
  split
  · exact h.of_closed id nofun rfl rfl
  · exact h

theorem disconnect (h : Avoids bad s) : Avoids bad s.disconnect :=
  h.shutdown.of_closed id id rfl rfl

theorem set_server (h : Avoids bad s) (host : Host) (port : Port) :
    Avoids bad (s.set_server host port) := by
  unfold System.set_server
  split
  · exact h
  · simp only
    split
    · exact h.disconnect.of_closed id id rfl rfl
    · exact h.of_closed id id rfl rfl

theorem connect_async (h : Avoids bad s) (has_been_closed : Bool)
    (htarget : ¬ bad (s.target_host_, s.target_port_)) :
    Avoids bad (s.connect_async has_been_closed) := by
  unfold System.connect_async
  simp only
  split
  · exact h
  · refine ⟨fun _ => htarget, fun _ => htarget, ?_⟩
    split
    · exact h.disconnect.endpoint
    · exact h.endpoint

theorem on_connect (h : Avoids bad s) {more : Nat} (hbusy : s.connecting = .connecting more)
    (success : Bool) : Avoids bad (s.on_connect more success) := by
  have hhost := h.connecting (by rw [hbusy]; nofun)
  unfold System.on_connect
  split
  · refine ⟨nofun, fun _ => hhost, ?_⟩
    intro endpoint hendpoint
    obtain rfl := Option.some.inj hendpoint
    exact hhost
  · split
    · exact ⟨fun _ => hhost, h.connected, h.endpoint⟩
    · exact ⟨nofun, h.connected, h.endpoint⟩

/-- Only a connect to the target is to be watched. -/
theorem step {e : Event} (h : Avoids bad s)
    (htarget : ∀ closed, e = .connect_async closed → ¬ bad (s.target_host_, s.target_port_))
    (hs : connection.step s e = some s') : Avoids bad s' := by
  cases e with
  | set_server host port =>
    obtain rfl := Option.some.inj hs
    exact h.set_server host port
  | connect_async has_been_closed =>
    obtain rfl := Option.some.inj hs
    exact h.connect_async _ (htarget _ rfl)
  | on_resolve endpoints =>
    simp only [connection.step] at hs
    split at hs
    · rename_i hbusy
      obtain rfl := Option.some.inj hs
      rcases endpoints with _ | _ | more
      · exact h.of_closed (fun hidle => absurd rfl hidle) id rfl rfl
      · exact h.of_closed (fun hidle => absurd rfl hidle) id rfl rfl
      · exact h.of_closed (fun _ => by simp [hbusy]) id rfl rfl
    · cases hs
  | on_connect success =>
    simp only [connection.step] at hs
    split at hs
    · rename_i more hbusy
      obtain rfl := Option.some.inj hs
      exact h.on_connect hbusy success
    · cases hs
  | on_read bytes error =>
    have hread (origin : Nat) : Avoids bad (s.on_read origin bytes error) := by
      cases error with
      | true => exact h.of_closed id (fun hclosed => Bool.noConfusion hclosed) rfl rfl
      | false => exact h.of_closed id id rfl rfl
    simp only [connection.step] at hs
    split at hs
    · obtain rfl := Option.some.inj hs
      exact hread _
    · split at hs
      · obtain rfl := Option.some.inj hs
        exact hread 0
      · cases hs
  | consume n =>
    obtain rfl := Option.some.inj hs
    exact h.of_closed id id rfl rfl
  | on_write error =>
    obtain rfl := Option.some.inj hs
    cases error with
    | true => exact h.of_closed id (fun hclosed => Bool.noConfusion hclosed) rfl rfl
    | false => exact h.of_closed id id rfl rfl
  | on_timeout =>
    obtain rfl := Option.some.inj hs
    exact h.shutdown
  | establish_tls_async =>
    obtain rfl := Option.some.inj hs
    exact h.of_closed id id rfl rfl
  | on_handshake result =>
    cases result with
    | none =>
      simp only [connection.step] at hs
      split at hs
      · obtain rfl := Option.some.inj hs
        exact h.of_closed id id rfl rfl
      · cases hs
    | some handshake =>
      simp only [connection.step] at hs
      split at hs
      · split at hs
        · obtain rfl := Option.some.inj hs
          exact h.of_closed id id rfl rfl
        · cases hs
      · cases hs
  | disconnect =>
    obtain rfl := Option.some.inj hs
    exact h.disconnect

end Avoids

end proxy.connection

namespace proxy.http.http1.HttpService

variable {c : Components} {s s₁ s' : HttpService} {t : Completion}

/-! ## Handlers -/

/-- The end of a handler: a complete request is for a server, and has what comes of that, or nothing
is done to the connection. -/
inductive Ends (c : Components) (t : Completion) (s s' : HttpService) : Prop
  | leaves (h : Leaves s s')
  | quiet (h : Within s s')
  | connect (s₁ : HttpService) (h : Within s s₁) (hs : s₁.handle_connect c t = .ok s')
  | other (s₁ : HttpService) (h : Within s s₁) (hs : s₁.handle_other c t = .ok s')

theorem ends_handle_request (h : Within s s₁) (hs : s₁.handle_request c t = .ok s') :
    Ends c t s s' := by
  unfold handle_request at hs
  split at hs
  · exact .leaves (h.fail hs)
  · rename_i req _
    have hreq := h.intercept_request t req
    simp only at hs
    split at hs
    · exact .connect _ hreq hs
    · split at hs
      · obtain rfl := Except.ok.inj hs
        by_cases hwrite : t.write_err = .success
        · exact .quiet (within_handle_expect hreq hwrite)
        · exact .leaves (leaves_handle_expect hreq hwrite)
      · exact .other _ hreq hs

theorem ends_read_request_body (h : Within s s₁) (hs : s₁.read_request_body c t = .ok s') :
    Ends c t s s' := by
  unfold read_request_body at hs
  split at hs
  · exact .leaves (h.fail hs)
  · rename_i done p inp _
    have hread := h.client_read p inp
    simp only at hs
    split at hs
    · exact ends_handle_request hread hs
    · obtain rfl := Except.ok.inj hs
      exact .leaves (hread.leaves nofun)

theorem ends_on_read_request_head (hs : s.on_read_request_head c t = .ok s') : Ends c t s s' := by
  have h := Within.refl s
  unfold on_read_request_head at hs
  split at hs
  · split at hs
    · obtain rfl := Except.ok.inj hs
      exact .leaves (h.leaves nofun)
    · obtain rfl := Except.ok.inj hs
      exact .leaves (h.fail_operation _ _ _ _)
  · split at hs
    · exact .leaves (h.fail hs)
    · split at hs
      · exact .leaves ((h.client_read _ _).fail hs)
      · exact ends_read_request_body (h.client_read _ _) hs

theorem ends_handle {k : Continuation} (hs : s.handle c t k = .ok s') :
    Ends c t s s' ∨ s' = s.forward_request := by
  cases k with
  | on_read_request_head => exact Or.inl (ends_on_read_request_head hs)
  | on_read_request_body =>
    simp only [handle, on_read_request_body] at hs
    split at hs
    · obtain rfl := Except.ok.inj hs
      exact Or.inl (.leaves ((Within.refl s).fail_operation _ _ _ _))
    · exact Or.inl (ends_read_request_body (.refl s) hs)
  | on_connect_server =>
    obtain rfl := Except.ok.inj hs
    unfold on_connect_server
    split
    · exact Or.inl (.leaves ((Within.refl s).fail_operation _ _ _ _))
    · exact Or.inr rfl
  | on_forward_request =>
    obtain rfl := Except.ok.inj hs
    exact Or.inl (.leaves leaves_on_forward_request)
  | on_read_response_head => exact Or.inl (.leaves (leaves_on_read_response_head hs))
  | on_read_response_body => exact Or.inl (.leaves (leaves_on_read_response_body hs))
  | on_forward_response =>
    obtain rfl := Except.ok.inj hs
    exact Or.inl (.leaves leaves_on_forward_response)
  | on_send_connect_response =>
    obtain rfl := Except.ok.inj hs
    exact Or.inl (.leaves leaves_on_send_connect_response)
  | on_write_error_response =>
    obtain rfl := Except.ok.inj hs
    exact Or.inl (.leaves leaves_on_write_error_response)
  | switch_service next =>
    cases hs
    exact Or.inl (.leaves ((Within.refl s).leaves (by rintro ⟨⟩)))
  | stop =>
    cases hs
    exact Or.inl (.leaves ((Within.refl s).leaves (by rintro ⟨⟩)))

/-! ## The target -/

/-- An endpoint that the proxy knows to be itself. -/
def Refused (c : Components) (endpoint : Host × Port) : Prop :=
  endpoint.1 ∈ forbidden_hosts ∧ endpoint.2 = c.port

def target (s : HttpService) : Host × Port :=
  (s.flow_.server.target_host_, s.flow_.server.target_port_)

/-- In a handler: the target is one that may be connected to. -/
structure Free (c : Components) (s : HttpService) : Prop where
  nothing_left : s.outstanding = []
  avoids : Avoids (Refused c) s.flow_.server
  target : ¬ Refused c s.target

/-- Between two steps. With a target that is refused only the client is told of that. -/
structure Permitted (c : Components) (s : HttpService) : Prop where
  one : s.outstanding.length ≤ 1
  avoids : Avoids (Refused c) s.flow_.server
  target : Refused c s.target → ∀ k ∈ s.outstanding, k = .on_write_error_response ∨ k = .stop

theorem permitted_of_next {k : Continuation} (hnext : s.outstanding = [k])
    (havoids : Avoids (Refused c) s.flow_.server)
    (htarget : Refused c s.target → k = .on_write_error_response ∨ k = .stop) : Permitted c s := by
  refine ⟨?_, havoids, ?_⟩
  · rw [hnext]
    exact Nat.le_refl 1
  · intro hrefused k' hk'
    rw [hnext] at hk'
    rw [List.mem_singleton.mp hk']
    exact htarget hrefused

namespace Free

theorem permitted (h : Free c s) : Permitted c s := by
  refine ⟨?_, h.avoids, fun hrefused => absurd hrefused h.target⟩
  rw [h.nothing_left]
  exact Nat.zero_le 1

theorem leave (h : Free c s) (k : Continuation) : Permitted c (s.leave k) :=
  permitted_of_next (congrArg (· ++ [k]) h.nothing_left) h.avoids
    fun hrefused => absurd hrefused h.target

theorem within (h : Free c s) (hs : Within s s₁) : Free c s₁ := by
  obtain ⟨n, hn⟩ := hs.server
  refine ⟨hs.outstanding.trans h.nothing_left, ?_, ?_⟩
  · rw [hn]
    exact h.avoids.step nofun (e := .consume n) rfl
  · have htarget := h.target
    unfold HttpService.target at htarget ⊢
    rw [hn]
    exact htarget

theorem leaves (h : Free c s) (hs : Leaves s s') : Permitted c s' := by
  obtain ⟨s₁, k, hwithin, -, rfl⟩ := hs
  exact (h.within hwithin).leave k

theorem intercept (h : Free c s) (event : HttpEvent) : Free c (s.intercept t event) :=
  h.within ((Within.refl s).intercept t event)

/-- A target that is refused is an error. -/
theorem set_server {host : Host} {port : Port} {s₂ : HttpService} {result : Except Error Unit}
    (h : Free c s) (hs : s.set_server c host port = (s₂, result)) :
    (∃ e, result = .error e ∧ s₂.outstanding = [] ∧ Avoids (Refused c) s₂.flow_.server) ∨
      (result = .ok () ∧ Free c s₂) := by
  unfold HttpService.set_server at hs
  split at hs
  · obtain ⟨rfl, rfl⟩ := Prod.mk.inj hs
    exact Or.inr ⟨rfl, h⟩
  · have havoids := h.avoids.set_server host port
    simp only at hs
    split at hs
    · obtain ⟨rfl, rfl⟩ := Prod.mk.inj hs
      exact Or.inl ⟨_, rfl, h.nothing_left, havoids⟩
    · rename_i hallowed
      obtain ⟨rfl, rfl⟩ := Prod.mk.inj hs
      exact Or.inr ⟨rfl, h.nothing_left, havoids, hallowed⟩

end Free

/-- The client is told of an error. -/
theorem permitted_fail {status : Status} {e : Error} (hnil : s.outstanding = [])
    (havoids : Avoids (Refused c) s.flow_.server) (hs : s.fail status e = .ok s') :
    Permitted c s' := by
  cases e with
  | state code message =>
    obtain rfl := Except.ok.inj hs
    exact permitted_of_next (congrArg (· ++ [_]) hnil) havoids fun _ => Or.inl rfl
  | undefined => cases hs
  | terminated => cases hs

theorem permitted_handle_connect (h : Free c s) (hs : s.handle_connect c t = .ok s') :
    Permitted c s' := by
  unfold handle_connect at hs
  simp only at hs
  split at hs
  · rename_i heq
    obtain ⟨e, -, hnil, havoids⟩ | ⟨hok, -⟩ := (h.intercept .connect).set_server heq
    · exact permitted_fail hnil havoids hs
    · cases hok
  · rename_i heq
    obtain ⟨e, herror, -⟩ | ⟨-, hfree⟩ := (h.intercept .connect).set_server heq
    · cases herror
    · obtain rfl := Except.ok.inj hs
      refine Free.leave ?_ .on_send_connect_response
      split
      · exact ⟨hfree.nothing_left, hfree.avoids, hfree.target⟩
      · exact ⟨hfree.nothing_left, hfree.avoids, hfree.target⟩

theorem permitted_connect_server (h : Free c s) : Permitted c (s.connect_server t) := by
  refine permitted_of_next (congrArg (· ++ [_]) h.nothing_left)
    (h.avoids.connect_async t.has_been_closed h.target) fun hrefused => absurd hrefused ?_
  have htarget : (s.connect_server t).target = s.target :=
    step_target (s := s.flow_.server) (e := .connect_async t.has_been_closed) (fun _ _ => nofun) rfl
  rw [htarget]
  exact h.target

theorem permitted_handle_other (h : Free c s) (hs : s.handle_other c t = .ok s') :
    Permitted c s' := by
  unfold handle_other at hs
  simp only at hs
  split at hs
  · rename_i heq
    obtain ⟨e, -, hnil, havoids⟩ | ⟨hok, -⟩ := (h.intercept .request).set_server heq
    · exact permitted_fail hnil havoids hs
    · cases hok
  · rename_i heq
    obtain ⟨e, herror, -⟩ | ⟨-, hfree⟩ := (h.intercept .request).set_server heq
    · cases herror
    · split at hs
      · obtain rfl := Except.ok.inj hs
        exact hfree.leaves (((Within.refl _).deliver none _).leaves nofun)
      · obtain rfl := Except.ok.inj hs
        split
        · exact permitted_connect_server (hfree.intercept .websocket_handshake)
        · exact permitted_connect_server hfree

theorem permitted_handle {k : Continuation} (h : Free c s) (hs : s.handle c t k = .ok s') :
    Permitted c s' := by
  rcases ends_handle hs with hends | rfl
  · cases hends with
    | leaves hleaves => exact h.leaves hleaves
    | quiet hwithin => exact (h.within hwithin).permitted
    | connect s₁ hwithin hs₁ => exact permitted_handle_connect (h.within hwithin) hs₁
    | other s₁ hwithin hs₁ => exact permitted_handle_other (h.within hwithin) hs₁
  · exact Free.leave (s := s.send) ⟨h.nothing_left, h.avoids, h.target⟩ .on_forward_request

/-! ## Steps -/

theorem target_of_step {server : System} {e : connection.Event}
    (he : ∀ host port, e ≠ .set_server host port)
    (hs : connection.step s.flow_.server e = some server) :
    (s.set_server_connection server).target = s.target :=
  step_target he hs

namespace Permitted

theorem new (c : Components) : Permitted c (new c) :=
  permitted_of_next rfl ⟨fun h => absurd rfl h, nofun, nofun⟩ fun hrefused =>
    absurd (show ([] : Host) ∈ forbidden_hosts from hrefused.1) (by decide)

theorem start (h : Permitted c s) (hs : step c s .start = some s') : Permitted c s' := by
  obtain ⟨hstarts, rfl⟩ := step_start hs
  have hfree : Free c { s with outstanding := [] } := by
    refine ⟨rfl, h.avoids, fun hrefused => ?_⟩
    have hsays := h.target hrefused
    unfold starts at hstarts
    obtain ⟨hnext, -⟩ := Bool.and_eq_true_iff.mp hstarts
    rcases Bool.or_eq_true_iff.mp hnext with hnext | hnext
    · rw [eq_of_beq hnext] at hsays
      rcases hsays _ List.mem_cons_self with hk | hk <;> cases hk
    · rw [eq_of_beq hnext] at hsays
      rcases hsays _ List.mem_cons_self with hk | hk <;> cases hk
  exact hfree.leaves leaves_start

theorem complete {k : Continuation} (h : Permitted c s)
    (hs : step c s (.complete k t) = some s') : Permitted c s' := by
  obtain ⟨hk, s₁, harrive, hhandle⟩ := step_complete hs
  have hnext := outstanding_of_mem h.one hk
  have harrives := arrives_of_arrive harrive
  have hnil : s₁.outstanding = [] := by
    rw [harrives.outstanding, hnext]
    exact List.erase_cons_head _ _
  obtain ⟨havoids, htarget⟩ : Avoids (Refused c) s₁.flow_.server ∧ s₁.target = s.target := by
    rcases harrives.server with hsame | ⟨e, he, hstep⟩
    · unfold HttpService.target
      rw [hsame]
      exact ⟨h.avoids, rfl⟩
    · have hconnect : ∀ closed, e ≠ .connect_async closed := by
        rcases he with ⟨error, rfl⟩ | ⟨bytes, error, rfl⟩ <;> nofun
      have hset : ∀ host port, e ≠ .set_server host port := by
        rcases he with ⟨error, rfl⟩ | ⟨bytes, error, rfl⟩ <;> nofun
      exact ⟨h.avoids.step (fun closed he => absurd he (hconnect closed)) hstep,
        target_of_step (s := s) hset hstep⟩
  by_cases hpage : k = .on_write_error_response
  · subst hpage
    obtain rfl := Except.ok.inj hhandle
    exact permitted_of_next (congrArg (· ++ [_]) hnil) havoids fun _ => Or.inr rfl
  · refine permitted_handle ⟨hnil, havoids, fun hrefused => ?_⟩ hhandle
    rw [htarget] at hrefused
    obtain rfl := (h.target hrefused k hk).resolve_left hpage
    cases harrive

theorem callback {e : connection.Event} {err : ErrorCode} (h : Permitted c s)
    (hs : step c s (.callback e err) = some s') : Permitted c s' := by
  obtain ⟨hcallback, server, hstep, hs⟩ := step_callback hs
  have havoids : Avoids (Refused c) server := by
    refine h.avoids.step ?_ hstep
    rintro closed rfl
    cases hcallback
  have htarget : (s.set_server_connection server).target = s.target := by
    refine target_of_step ?_ hstep
    rintro host port rfl
    cases hcallback
  have hsays : Refused c (s.set_server_connection server).target →
      ∀ k ∈ s.outstanding, k = .on_write_error_response ∨ k = .stop := by
    rw [htarget]
    exact h.target
  rcases hs with ⟨-, -, code, -, rfl⟩ | ⟨-, rfl⟩
  · exact ⟨h.one, havoids, hsays⟩
  · exact ⟨h.one, havoids, hsays⟩

theorem other_server {e : connection.Event} (h : Permitted c s)
    (hs : step c s (.other_server e) = some s') : Permitted c s' := by
  obtain ⟨hleft, hof, server, hstep, rfl⟩ := step_other_server hs
  -- Another service is at work, so the target is not refused.
  have hallowed : ¬ Refused c s.target := by
    intro hrefused
    have hsays := h.target hrefused
    unfold left_to_other at hleft
    rw [Bool.or_eq_true, Bool.or_eq_true] at hleft
    rcases hleft with (hnext | hnext) | hnext <;> rw [eq_of_beq hnext] at hsays <;>
      rcases hsays _ List.mem_cons_self with hk | hk <;> cases hk
  have htarget : (s.set_server_connection server).target = s.target := by
    refine target_of_step ?_ hstep
    rintro host port rfl
    cases hof
  refine ⟨h.one, h.avoids.step (fun _ _ => hallowed) hstep, fun hrefused => ?_⟩
  rw [htarget] at hrefused
  exact absurd hrefused hallowed

theorem step {e : Event} (h : Permitted c s) (hs : HttpService.step c s e = some s') :
    Permitted c s' := by
  cases e with
  | start => exact h.start hs
  | complete k t => exact h.complete hs
  | callback e err => exact h.callback hs
  | other_server e => exact h.other_server hs
  | other_flow client_input error intercept_tls intercept_websocket =>
    obtain ⟨-, rfl⟩ := step_other_flow hs
    exact ⟨h.one, h.avoids, h.target⟩

end Permitted

end proxy.http.http1.HttpService
