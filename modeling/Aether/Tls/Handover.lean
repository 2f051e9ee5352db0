-- The service for TLS beside that for HTTP. What the one does with the flow is steps that the other
-- leaves to it. And no request is forwarded to a server that it could not secure.
import Aether.Http.ForwardedTargets
import Aether.Tls.TlsRuns

open util.string lib.runs proxy.connection proxy.tls.x509
open proxy.http (Request)
open proxy.http.http1 (ErrorCode HttpService Flow)

namespace proxy.tls.TlsService

/-- A step of the connection to the server that a service takes while that for HTTP waits. -/
def other_step (server : System) (e : connection.Event) : Option System :=
  if HttpService.of_other_service server e then connection.step server e else none

theorem run_other_step {server : System} {e : connection.Event}
    (he : HttpService.of_other_service server e = true) :
    run other_step server [e] = connection.step server e := by
  show (if _ then _ else _ : Option System).bind some = _
  rw [if_pos he]
  exact Option.bind_fun_some _

/-- No connect is going on, but for one that the service waits for. -/
def Waits (s : TlsService) : Prop :=
  s.flow_.server.connecting = .idle ∨ (s.outstanding = [.on_connect_server] ∧ s.posted = none)

/-- The connection to the server went some steps on. -/
def Moves (s s' : TlsService) : Prop :=
  ∃ es, run other_step s.flow_.server es = some s'.flow_.server

section

variable {c : Components} {t : Completion} {s s' : TlsService} {before : List Nat} {input : Text}

theorem moves_of_eq (h : s'.flow_.server = s.flow_.server) : Moves s s' :=
  ⟨[], congrArg some h.symm⟩

theorem waits_of_eq (hidle : s.flow_.server.connecting = .idle)
    (h : s'.flow_.server = s.flow_.server) : s'.Waits := by
  rw [Waits, h]
  exact Or.inl hidle

theorem moves_shake_server {s₁ : TlsService} (h : s₁.flow_.server = s.flow_.server) :
    Moves s s₁.shake_server := by
  refine ⟨[.establish_tls_async], ?_⟩
  show some { s.flow_.server with handshaking := some s.flow_.server.peer } = some _
  rw [← h]
  rfl

/-- A connect is begun, unless the connection is open. -/
theorem connect_server_moves {s₁ : TlsService} (hidle : s.flow_.server.connecting = .idle)
    (h : s₁.flow_.server = s.flow_.server) (hnil : s₁.outstanding = []) :
    (s₁.connect_server t).Waits ∧ Moves s (s₁.connect_server t) := by
  constructor
  · by_cases hopen : (s₁.flow_.server.server.is_connected_to s₁.flow_.server.target_host_
        s₁.flow_.server.target_port_ && !t.has_been_closed) = true
    · refine Or.inl ?_
      show (s₁.flow_.server.connect_async t.has_been_closed).connecting = .idle
      unfold System.connect_async
      simp only
      rw [if_pos hopen, h]
      exact hidle
    · exact Or.inr ⟨congrArg (· ++ [_]) hnil, if_neg hopen⟩
  · refine ⟨[.connect_async t.has_been_closed], ?_⟩
    have he : HttpService.of_other_service s.flow_.server (.connect_async t.has_been_closed) =
        true := beq_iff_eq.mpr hidle
    rw [run_other_step he, ← h]
    rfl

theorem moves_callback {e : connection.Event} {err : ErrorCode} (hw : s.Waits)
    (hs : step c s (.callback e err) = some s') : s'.Waits ∧ Moves s s' := by
  obtain ⟨he, server, posted, hserver, hposted, rfl⟩ := step_callback hs
  have hother : HttpService.of_other_service s.flow_.server e = true := by
    cases e with
    | on_resolve endpoints | on_connect success | on_timeout => rfl
    | _ => cases he
  refine ⟨?_, [e], ?_⟩
  · rcases hw with hidle | ⟨hnext, hnone⟩
    · refine Or.inl (step_idle hidle ?_ hserver).1
      cases e with
      | on_resolve endpoints => exact Or.inl ⟨endpoints, rfl⟩
      | on_connect success => exact Or.inr (Or.inl ⟨success, rfl⟩)
      | on_timeout => exact Or.inr (Or.inr rfl)
      | _ => cases he
    · rcases hposted with hidle | rfl
      · exact Or.inl hidle
      · exact Or.inr ⟨hnext, hnone⟩
  · rw [run_other_step hother]
    exact hserver

theorem step_handshake {server server' : System} {result : Option Handshake}
    (hs : connection.step server (.on_handshake result) = some server') :
    server'.connecting = server.connecting := by
  unfold connection.step at hs
  cases result with
  | none =>
    simp only at hs
    split at hs
    · obtain rfl := Option.some.inj hs
      rfl
    · cases hs
  | some handshake =>
    simp only at hs
    split at hs
    · split at hs
      · obtain rfl := Option.some.inj hs
        rfl
      · cases hs
    · cases hs

theorem server_complete_client (hs : complete c s t .on_establish_tls_with_client = some s') :
    s'.flow_.server = s.flow_.server := by
  obtain ⟨client, ⟨-, s₁, h₁, rfl | ⟨rfl, -⟩ | rfl⟩ | ⟨-, rfl⟩⟩ := complete_client_cases hs
  · exact h₁.server
  · exact h₁.server
  · exact h₁.server
  · rfl

/-- The end of an operation that is awaited. -/
theorem moves_complete {k : Continuation} (h : Stage False before input s) (hw : s.Waits)
    (hs : step c s (.complete k t) = some s') : s'.Waits ∧ Moves s s' := by
  unfold step at hs
  simp only at hs
  split at hs
  · rename_i hk
    have hnone {k' : Continuation} (hnext : s.outstanding = [k']) :
        k = k' ∧ s.outstanding.erase k = [] := by
      rw [hnext] at hk ⊢
      obtain rfl := List.mem_singleton.mp hk
      exact ⟨rfl, List.erase_cons_head _ _⟩
    have hidle (hnot : s.outstanding ≠ [.on_connect_server]) : s.flow_.server.connecting = .idle :=
      hw.resolve_right fun hwait => hnot hwait.1
    cases h with
    | reading next fresh message whole =>
      obtain ⟨rfl, hnil⟩ := hnone next
      have hidle := hidle (by rw [next]; nofun)
      unfold complete at hs
      simp only at hs
      obtain ⟨s₁, h₁, hends⟩ := on_read_client_hello_cases (eq_ok_of_toOption hs)
      rcases hends with rfl | rfl | ⟨message, rfl⟩
      · exact ⟨waits_of_eq hidle h₁.server, moves_of_eq h₁.server⟩
      · exact ⟨waits_of_eq hidle h₁.server, moves_of_eq h₁.server⟩
      · exact connect_server_moves hidle h₁.server (h₁.outstanding.trans hnil)
    | connecting next fresh message =>
      obtain ⟨rfl, -⟩ := hnone next
      unfold complete at hs
      simp only at hs
      split at hs
      · rename_i hposted
        have hidle : s.flow_.server.connecting = .idle :=
          hw.resolve_right fun hwait => by rw [hwait.2] at hposted; cases hposted
        obtain ⟨s₁, h₁, ⟨rfl, -⟩ | rfl | rfl⟩ := on_connect_server_cases
          (s := { s with outstanding := s.outstanding.erase .on_connect_server, posted := none })
          message (eq_ok_of_toOption hs)
        · exact ⟨waits_of_eq hidle h₁.server, moves_of_eq h₁.server⟩
        · refine ⟨Or.inl ?_, moves_shake_server h₁.server⟩
          show s₁.flow_.server.connecting = .idle
          rw [h₁.server]
          exact hidle
        · exact ⟨waits_of_eq hidle h₁.server, moves_of_eq h₁.server⟩
      · cases hs
    | shaking_server next fresh message =>
      obtain ⟨rfl, -⟩ := hnone next
      have hidle := hidle (by rw [next]; nofun)
      unfold complete at hs
      simp only at hs
      split at hs
      · obtain ⟨server, hserver, hs⟩ := Option.bind_eq_some_iff.mp hs
        have hidle' : server.connecting = .idle :=
          (step_handshake hserver).trans hidle
        obtain ⟨s₁, h₁, hends⟩ := on_establish_tls_with_server_cases (eq_ok_of_toOption hs)
        have hmoves : run other_step s.flow_.server [.on_handshake t.handshake] = some server :=
          (run_other_step rfl).trans hserver
        have hserver₁ : s₁.flow_.server = server := h₁.server
        rcases hends with ⟨rfl, -⟩ | rfl
        · exact ⟨Or.inl (hserver₁ ▸ hidle'), _, hmoves.trans (congrArg some hserver₁.symm)⟩
        · exact ⟨Or.inl (hserver₁ ▸ hidle'), _, hmoves.trans (congrArg some hserver₁.symm)⟩
      · cases hs
    | shaking_client next message sound =>
      obtain ⟨rfl, -⟩ := hnone next
      have hidle := hidle (by rw [next]; nofun)
      have hserver := server_complete_client hs
      exact ⟨waits_of_eq hidle hserver, moves_of_eq hserver⟩
    | served next sound =>
      obtain ⟨rfl, -⟩ := hnone next
      cases hs
    | passed_on next message whole =>
      obtain ⟨rfl, -⟩ := hnone next
      cases hs
    | tunneled next sound =>
      obtain ⟨rfl, -⟩ := hnone next
      cases hs
    | stopped next =>
      obtain ⟨rfl, -⟩ := hnone next
      cases hs
  · cases hs

end

/-! ## The service for HTTP, meanwhile -/

section

variable {d : proxy.http.http1.Components} {h h' : HttpService}

theorem run_other_servers {es : List connection.Event} {server : System}
    (hleft : h.left_to_other = true) (hs : run other_step h.flow_.server es = some server) :
    run (HttpService.step d) h (es.map .other_server) = some (h.set_server_connection server) := by
  induction es generalizing h with
  | nil =>
    obtain rfl := Option.some.inj hs
    rfl
  | cons e es ih =>
    obtain ⟨server₁, he, hs⟩ := Option.bind_eq_some_iff.mp hs
    unfold other_step at he
    split at he
    · rename_i hof
      have hstep : HttpService.step d h (.other_server e) =
          some (h.set_server_connection server₁) := by
        show (if (h.left_to_other && _) = true then _ else _) = _
        rw [if_pos (Bool.and_eq_true_iff.mpr ⟨hleft, hof⟩), he]
        rfl
      show (HttpService.step d h (.other_server e)).bind _ = _
      rw [hstep]
      exact ih (h := h.set_server_connection server₁) hleft hs
    · cases he

/-- What moves the connection to the server leaves the rest of the flow to be anything. -/
theorem run_to_flow {flow : Flow} {es : List connection.Event} (hleft : h.left_to_other = true)
    (hs : run other_step h.flow_.server es = some flow.server) :
    ∃ ds, run (HttpService.step d) h ds = some { h with flow_ := flow } := by
  refine ⟨es.map .other_server ++ [.other_flow flow.client_input flow.error flow.intercept_tls_
    flow.intercept_websocket_], ?_⟩
  rw [run_append, run_other_servers hleft hs]
  show (if h.left_to_other = true then some _ else none : Option HttpService).bind some = _
  rw [if_pos hleft]
  rfl

/-- The service for HTTP that waits while that for TLS is in a state. -/
structure Waiting (h : HttpService) (s : TlsService) (h' : HttpService) : Prop where
  eq : h' = { h with flow_ := s.flow_ }
  waits : s.Waits
  stage : (∃ input, Stage False h.flow_.server.handshaken input s) ∨ s.outstanding = []

theorem waiting_step {c : Components} {s s' : TlsService} {e : Event}
    (hnext : h.outstanding = [.switch_service .tls_service]) (hw : Waiting h s h')
    (hs : step c s e = some s') :
    ∃ ds h'', run (HttpService.step d) h' ds = some h'' ∧ Waiting h s' h'' := by
  obtain ⟨rfl, hwaits, hstage⟩ := hw
  have hmoves : s'.Waits ∧ Moves s s' := by
    cases e with
    | complete k t =>
      rcases hstage with ⟨input, hstage⟩ | hnil
      · exact moves_complete hstage hwaits hs
      · simp only [step, hnil, List.not_mem_nil, if_false] at hs
        cases hs
    | callback e err => exact moves_callback hwaits hs
    | other_store store =>
      obtain rfl := Option.some.inj hs
      exact ⟨hwaits, moves_of_eq rfl⟩
  have hstage' : (∃ input, Stage False h.flow_.server.handshaken input s') ∨
      s'.outstanding = [] := by
    rcases hstage with ⟨input, hstage⟩ | hnil
    · exact (stage_step hstage False.elim hs).imp (fun h => ⟨_, h.2⟩) And.right
    · exact Or.inr (nil_step hnil hs)
  obtain ⟨hwaits', es, hes⟩ := hmoves
  have hleft : HttpService.left_to_other { h with flow_ := s.flow_ } = true := by
    simp [HttpService.left_to_other, hnext]
  obtain ⟨ds, hds⟩ := run_to_flow (d := d) (h := { h with flow_ := s.flow_ }) hleft hes
  exact ⟨ds, _, hds, rfl, hwaits', hstage'⟩

theorem waiting_run {c : Components} {client : Client} {store : ServerStore} {es : List Event}
    {s : TlsService} (hnext : h.outstanding = [.switch_service .tls_service])
    (hidle : h.flow_.server.connecting = .idle)
    (hs : run (step c) (start h.flow_ client store) es = some s) :
    ∃ ds h', run (HttpService.step d) h ds = some h' ∧ Waiting h s h' := by
  have hwaiting : Waiting h (start h.flow_ client store) h :=
    ⟨rfl, Or.inl hidle, Or.inl ⟨_, stage_start h.flow_ client store⟩⟩
  exact run_of_steps (fun s e s' h' hw hs => waiting_step (d := d) hnext hw hs) hwaiting hs

/-- The service for HTTP can take over. -/
theorem starts_of_waiting {s : TlsService} (hnext : h.outstanding = [.switch_service .tls_service])
    (hw : Waiting h s h') (hswitch : .switch_service .http_service ∈ s.outstanding) :
    ∃ h₁, HttpService.step d { h with flow_ := s.flow_ } .start = some h₁ := by
  have hidle : s.flow_.server.connecting = .idle := by
    refine hw.waits.resolve_right fun hwait => ?_
    rw [hwait.1] at hswitch
    cases List.mem_singleton.mp hswitch
  refine ⟨_, if_pos ?_⟩
  simp [HttpService.starts, hnext, hidle]

/-- All that the service for TLS does is a run of the other one, and where it switches to that, the
other one can start. -/
theorem tls_runs_within_http {c : Components} {client : Client} {store : ServerStore}
    {es : List Event} {s : TlsService} (d : proxy.http.http1.Components)
    (hnext : h.outstanding = [.switch_service .tls_service])
    (hidle : h.flow_.server.connecting = .idle)
    (hs : run (step c) (start h.flow_ client store) es = some s) :
    (∃ ds, run (HttpService.step d) h ds = some { h with flow_ := s.flow_ }) ∧
      (.switch_service .http_service ∈ s.outstanding →
        ∃ h', HttpService.step d { h with flow_ := s.flow_ } .start = some h') := by
  obtain ⟨ds, h', hds, hw⟩ := waiting_run (d := d) hnext hidle hs
  refine ⟨⟨ds, ?_⟩, starts_of_waiting hnext hw⟩
  rw [hds, hw.1]

/-- Where a run of the service for HTTP hands the flow over, no connect is going on, and what the
service for TLS does goes on with that run. -/
theorem http_runs_go_on {c : Components} {client : Client} {store : ServerStore} {es : List Event}
    {s : TlsService} {h₀ : HttpService} {before : List proxy.http.http1.HttpService.Event}
    {k : proxy.http.http1.Continuation} {t : proxy.http.http1.Completion}
    (hrun : run (HttpService.step d) (HttpService.new d) before = some h₀)
    (hlast : HttpService.step d h₀ (.complete k t) = some h)
    (hnext : h.outstanding = [.switch_service .tls_service])
    (hs : run (step c) (start h.flow_ client store) es = some s) :
    h.flow_.server.connecting = .idle ∧
      ∃ ds, run (HttpService.step d) (HttpService.new d) (before ++ .complete k t :: ds) =
        some { h with flow_ := s.flow_ } := by
  have hidle := HttpService.idle_where_it_is_left hrun hlast hnext
  obtain ⟨ds, h', hds, hw⟩ := waiting_run (d := d) hnext hidle hs
  refine ⟨hidle, ds, ?_⟩
  rw [run_append, hrun]
  show (HttpService.step d h₀ (.complete k t)).bind _ = _
  rw [hlast, ← hw.1]
  exact hds

/-! ## An error that is reported -/

end

/-! ### A server that is not there -/

/-- The service for HTTP has answered a CONNECT. -/
def connected : HttpService :=
  { HttpService.new HttpService.defaults with outstanding := [.switch_service .tls_service] }

theorem tls_run_within_http_notFound : ∃ s,
    run (step plain) (start connected.flow_ newClient .new) notFound = some s ∧
    ∃ h', HttpService.step HttpService.defaults { connected with flow_ := s.flow_ } .start =
      some h' := by
  obtain ⟨s, hs, hnext⟩ := run_notFound
  refine ⟨s, hs, ?_⟩
  obtain ⟨-, hstarts⟩ := tls_runs_within_http (h := connected) HttpService.defaults rfl rfl hs
  exact hstarts (by rw [hnext]; exact List.mem_singleton_self _)

end proxy.tls.TlsService
