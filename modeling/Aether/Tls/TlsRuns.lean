-- What a handler of the service for TLS can end with, said once for each, and what follows for
-- whole runs: what is still to come, and which server the bytes of the client go to.
import Aether.Tls.TlsService

open util.string lib.cursor lib.runs proxy.connection proxy.tls.handshake proxy.tls.x509
open proxy.connection.callbacks (ssl_methods string_to_ssl_method)
open proxy.http.http1 (ErrorCode ErrorState ServiceKind Flow)

namespace proxy.tls

/-- The interceptors leave an error of the proxy where it is. -/
def Completion.KeepsErrors (t : Completion) : Prop :=
  ∀ event i, i.error.has_proxy_error = true → (t.intercept event i).error.has_proxy_error = true

namespace TlsService

/-- An error of the proxy is in the flow, for the service for HTTP to report. -/
def Reported (s : TlsService) : Prop := s.flow_.error.has_proxy_error = true

/-- The server has shaken hands since there were these handshakes. -/
def Established (before : List Nat) (s : TlsService) : Prop :=
  s.server.secured = true ∧ ∃ origin, s.flow_.server.handshaken = origin :: before

/-- A handshake with the client that ends well. The handler of any other is dropped. -/
def EndsWell (t : Completion) : Prop :=
  t.error = .success ∧ t.details.servername.isSome ∧
    ssl_methods.any (iequals_fn t.details.version)

/-! ## Handlers -/

/-- Within a handler nothing is left yet, no connection changes, and an error stays. -/
structure Within (t : Completion) (s s₁ : TlsService) : Prop where
  outstanding : s₁.outstanding = s.outstanding
  message : s₁.client_hello_msg_ = s.client_hello_msg_
  client : s₁.client = s.client
  server : s₁.flow_.server = s.flow_.server
  input : s₁.flow_.client_input = s.flow_.client_input
  reported : t.KeepsErrors → s.Reported → s₁.Reported

/-- The handshake with the server begins. -/
def shake_server (s : TlsService) : TlsService :=
  (s.set_server { s.flow_.server with handshaking := some s.flow_.server.peer }).leave
    .on_establish_tls_with_server

variable {c : Components} {t : Completion} {s s₁ s₂ s' : TlsService}

namespace Within

theorem refl (t : Completion) (s : TlsService) : Within t s s :=
  ⟨rfl, rfl, rfl, rfl, rfl, fun _ h => h⟩

theorem trans (h : Within t s s₁) (h' : Within t s₁ s₂) : Within t s s₂ where
  outstanding := h'.outstanding.trans h.outstanding
  message := h'.message.trans h.message
  client := h'.client.trans h.client
  server := h'.server.trans h.server
  input := h'.input.trans h.input
  reported := fun ht hs => h'.reported ht (h.reported ht hs)

theorem intercept (h : Within t s s₁) (event : FlowEvent) : Within t s (s₁.intercept t event) :=
  ⟨h.outstanding, h.message, h.client, h.server, h.input,
    fun ht hs => ht event _ (h.reported ht hs)⟩

theorem set_error (h : Within t s s₁) (error : ErrorCode) (code : errc) (message : Text) :
    Within t s (s₁.set_error ⟨error, some code, message⟩) :=
  ⟨h.outstanding, h.message, h.client, h.server, h.input, fun _ _ => rfl⟩

theorem fail_operation (h : Within t s s₁) (code : errc) (message : Text) :
    Within t s (s₁.fail_operation t code message) :=
  (h.set_error _ code message).intercept _

end Within

theorem reported_fail_operation (ht : t.KeepsErrors) (code : errc) (message : Text) :
    (s.fail_operation t code message).Reported :=
  ht .tls_error _ rfl

theorem fail_cases {e : Error} (h : Within t s s₁) (hs : s₁.fail e = .ok s') :
    ∃ s₂, Within t s s₂ ∧ s' = s₂.stop := by
  cases e with
  | state code message =>
    obtain rfl := Except.ok.inj hs
    exact ⟨_, h.set_error _ code _, rfl⟩
  | undefined => cases hs
  | terminated => cases hs

theorem within_get_certificate (message : ClientHello) :
    Within t s (s.get_certificate_for_client c t message).1 := by
  unfold get_certificate_for_client
  split
  · exact .refl t s
  · simp only
    split
    · exact (Within.refl t s).intercept _
    · exact ((Within.refl t s).intercept _).intercept _

theorem establish_client_cases (h : Within t s s₁)
    (hs : s₁.establish_tls_with_client c t = .ok s') : ∃ s₂, Within t s s₂ ∧
      (t.KeepsErrors → s₁.Reported → s₂.Reported) ∧
      (s' = s₂.leave .on_establish_tls_with_client ∨ s' = s₂.stop) := by
  unfold establish_tls_with_client at hs
  split at hs
  · cases hs
  · rename_i message _
    have hcert := within_get_certificate (c := c) (t := t) (s := s₁) message
    split at hs
    · rename_i s₂ e hget
      rw [hget] at hcert
      obtain ⟨s₃, h₃, rfl⟩ := fail_cases (Within.refl t s₂) hs
      have h₁₃ := hcert.trans h₃
      exact ⟨s₃, h.trans h₁₃, h₁₃.reported, Or.inr rfl⟩
    · rename_i s₂ obtained hget
      rw [hget] at hcert
      simp only at hs
      split at hs
      · obtain ⟨s₃, h₃, rfl⟩ := fail_cases (Within.refl t _) hs
        have h₁₃ : Within t s₁ s₃ := hcert.trans ⟨h₃.outstanding, h₃.message, h₃.client, h₃.server,
          h₃.input, h₃.reported⟩
        exact ⟨s₃, h.trans h₁₃, h₁₃.reported, Or.inr rfl⟩
      · obtain rfl := Except.ok.inj hs
        have h₁₂ : Within t s₁ { s₂ with
            server_store_ := obtained.store
            ssl_server_context_args_ := some (s₂.server_context_args c obtained.cert) } :=
          ⟨hcert.outstanding, hcert.message, hcert.client, hcert.server, hcert.input,
            hcert.reported⟩
        exact ⟨_, h.trans h₁₂, h₁₂.reported, Or.inl rfl⟩

theorem establish_server_cases (h : Within t s s₁) (hmessage : s.client_hello_msg_.isSome)
    (hs : s₁.establish_tls_with_server c t = .ok s') : ∃ s₂, Within t s s₂ ∧
      (s' = s₂.shake_server ∨ s' = s₂.stop) := by
  unfold establish_tls_with_server at hs
  split at hs
  · rename_i hnone
    rw [← h.message, hnone] at hmessage
    cases hmessage
  · rename_i message _
    simp only at hs
    have h₂ : Within t s
        { s₁ with ssl_client_context_args_ := some (s₁.client_context_args c message) } :=
      ⟨h.outstanding, h.message, h.client, h.server, h.input, h.reported⟩
    split at hs
    · obtain ⟨s₃, h₃, rfl⟩ := fail_cases h₂ hs
      exact ⟨s₃, h₃, Or.inr rfl⟩
    · obtain rfl := Except.ok.inj hs
      exact ⟨_, h₂, Or.inl rfl⟩

/-- After a connect that failed the error is there. -/
theorem on_connect_server_cases (hmessage : s.client_hello_msg_.isSome)
    (hs : s.on_connect_server c t = .ok s') : ∃ s₁, Within t s s₁ ∧
      ((s' = s₁.leave .on_establish_tls_with_client ∧ (t.KeepsErrors → s₁.Reported)) ∨
        s' = s₁.shake_server ∨ s' = s₁.stop) := by
  unfold on_connect_server at hs
  split at hs
  · obtain ⟨s₁, h₁, hreported, rfl | rfl⟩ :=
      establish_client_cases ((Within.refl t s).fail_operation _ _) hs
    · exact ⟨s₁, h₁, Or.inl ⟨rfl, fun ht => hreported ht (reported_fail_operation ht _ _)⟩⟩
    · exact ⟨s₁, h₁, Or.inr (Or.inr rfl)⟩
  · obtain ⟨s₁, h₁, hs'⟩ :=
      establish_server_cases ((Within.refl t s).intercept .server_connect) hmessage hs
    exact ⟨s₁, h₁, Or.inr hs'⟩

theorem on_establish_tls_with_server_cases (hs : s.on_establish_tls_with_server c t = .ok s') :
    ∃ s₁, Within t s s₁ ∧
      ((s' = s₁.leave .on_establish_tls_with_client ∧
        (t.KeepsErrors → t.error ≠ .success → s₁.Reported)) ∨ s' = s₁.stop) := by
  unfold on_establish_tls_with_server at hs
  simp only at hs
  split at hs
  · obtain ⟨s₁, h₁, hreported, rfl | rfl⟩ :=
      establish_client_cases ((Within.refl t s).fail_operation _ _) hs
    · exact ⟨s₁, h₁, Or.inl ⟨rfl, fun ht _ => hreported ht (reported_fail_operation ht _ _)⟩⟩
    · exact ⟨s₁, h₁, Or.inr rfl⟩
  · rename_i hok
    obtain ⟨s₁, h₁, -, rfl | rfl⟩ := establish_client_cases (Within.refl t s) hs
    · exact ⟨s₁, h₁, Or.inl ⟨rfl, fun _ herr => absurd herr hok⟩⟩
    · exact ⟨s₁, h₁, Or.inr rfl⟩

theorem on_establish_tls_with_client_cases (ht : t.error = .success) : ∃ s₁, Within t s s₁ ∧
    (s.on_establish_tls_with_client t = s₁.leave (.switch_service .http_service) ∨
      (s.on_establish_tls_with_client t = s₁.leave (.switch_service .tunnel_service) ∧
        ¬ s₁.Reported) ∨
      s.on_establish_tls_with_client t = s₁.stop) := by
  unfold on_establish_tls_with_client
  rw [if_neg fun h => h ht]
  refine ⟨s.intercept t .tls_established, (Within.refl t s).intercept _, ?_⟩
  simp only
  split
  · exact Or.inl rfl
  · split
    · rename_i herror
      rw [Bool.and_eq_true, Bool.not_eq_true'] at herror
      refine Or.inr (Or.inl ⟨rfl, fun hreported => ?_⟩)
      rw [Reported, herror.2] at hreported
      cases hreported
    · exact Or.inr (Or.inr rfl)

/-- What comes after a read: a tunnel, another read, or a connect for the message. -/
theorem on_read_client_hello_cases (hs : s.on_read_client_hello t = .ok s') :
    ∃ s₁, Within t s s₁ ∧ (s' = s₁.handle_not_client_hello ∨ s' = s₁.read_client_hello ∨
      ∃ message, s' = { s₁ with client_hello_msg_ := some message }.connect_server t) := by
  unfold on_read_client_hello at hs
  split at hs
  · obtain rfl := Except.ok.inj hs
    exact ⟨s, .refl t s, Or.inl rfl⟩
  · split at hs
    · obtain rfl := Except.ok.inj hs
      exact ⟨s, .refl t s, Or.inl rfl⟩
    · cases hs
    · rename_i read _
      simp only at hs
      have h₁ : Within t s { s with client_hello_reader_ := read.reader } :=
        ⟨rfl, rfl, rfl, rfl, rfl, fun _ h => h⟩
      refine ⟨_, h₁, ?_⟩
      split at hs
      · unfold handle_client_hello at hs
        split at hs
        · rename_i message _
          obtain rfl := Except.ok.inj hs
          exact Or.inr (Or.inr ⟨message, rfl⟩)
        · obtain rfl := Except.ok.inj hs
          exact Or.inl rfl
        · cases hs
      · obtain rfl := Except.ok.inj hs
        exact Or.inr (Or.inl rfl)

/-! ## Steps -/

/-- Where a service is that began with these handshakes of the server, when these bytes have come
from the client. What is said of errors holds if they are kept. -/
inductive Stage (kept : Prop) (before : List Nat) (input : Text) (s : TlsService) : Prop
  | reading (next : s.outstanding = [.on_read_client_hello])
      (fresh : s.flow_.server.handshaken = before) (message : s.client_hello_msg_ = none)
      (whole : s.flow_.client_input = input)
  | connecting (next : s.outstanding = [.on_connect_server])
      (fresh : s.flow_.server.handshaken = before) (message : s.client_hello_msg_.isSome)
  | shaking_server (next : s.outstanding = [.on_establish_tls_with_server])
      (fresh : s.flow_.server.handshaken = before) (message : s.client_hello_msg_.isSome)
  | shaking_client (next : s.outstanding = [.on_establish_tls_with_client])
      (message : s.client_hello_msg_.isSome)
      (sound : kept → s.Reported ∨ s.Established before)
  | served (next : s.outstanding = [.switch_service .http_service])
      (sound : kept → s.Reported ∨ s.Established before)
  | passed_on (next : s.outstanding = [.switch_service .tunnel_service])
      (message : s.client_hello_msg_ = none) (whole : s.flow_.client_input = input)
  | tunneled (next : s.outstanding = [.switch_service .tunnel_service])
      (sound : kept → s.Established before)
  | stopped (next : s.outstanding = [.stop])

section steps

variable {kept : Prop} {before : List Nat} {input : Text}

theorem Within.established (h : Within t s s₁) (hs : s.Established before) :
    s₁.Established before := by
  unfold Established TlsService.server at *
  rw [h.server]
  exact hs

theorem stop_stage (h : Within t s s₁) (hnone : s.outstanding = []) :
    Stage kept before input s₁.stop := by
  refine .stopped ?_
  show s₁.outstanding ++ _ = _
  rw [h.outstanding, hnone]
  rfl

theorem shake_server_stage (h : Within t s s₁) (hnone : s.outstanding = [])
    (hfresh : s.flow_.server.handshaken = before) (hmessage : s.client_hello_msg_.isSome) :
    Stage kept before input s₁.shake_server := by
  refine .shaking_server ?_ ?_ ?_
  · show s₁.outstanding ++ _ = _
    rw [h.outstanding, hnone]
    rfl
  · show s₁.flow_.server.handshaken = before
    rw [h.server]
    exact hfresh
  · show s₁.client_hello_msg_.isSome
    rw [h.message]
    exact hmessage

theorem shake_client_stage (h : Within t s s₁) (hnone : s.outstanding = [])
    (hmessage : s.client_hello_msg_.isSome)
    (hsound : kept → s₁.Reported ∨ s₁.Established before) :
    Stage kept before input (s₁.leave .on_establish_tls_with_client) := by
  refine .shaking_client ?_ ?_ hsound
  · show s₁.outstanding ++ _ = _
    rw [h.outstanding, hnone]
    rfl
  · show s₁.client_hello_msg_.isSome
    rw [h.message]
    exact hmessage

/-- The callbacks of a connect are none of a handshake, and a server that shook hands stays one that
did. -/
theorem keeps_of_callback {server server' : System} {e : connection.Event}
    (he : proxy.http.http1.HttpService.is_callback e = true)
    (hs : connection.step server e = some server') :
    server'.handshaken = server.handshaken ∧
      server'.server.tls_established_ = server.server.tls_established_ := by
  cases e with
  | on_resolve endpoints =>
    unfold connection.step at hs
    simp only at hs
    split at hs
    · obtain rfl := Option.some.inj hs
      unfold System.on_resolve
      split <;> exact ⟨rfl, rfl⟩
    · cases hs
  | on_connect success =>
    unfold connection.step at hs
    simp only at hs
    split at hs
    · obtain rfl := Option.some.inj hs
      unfold System.on_connect
      split
      · exact ⟨rfl, rfl⟩
      · split <;> exact ⟨rfl, rfl⟩
    · cases hs
  | on_timeout =>
    obtain rfl := Option.some.inj hs
    unfold System.shutdown
    split <;> exact ⟨rfl, rfl⟩
  | _ => cases he

theorem handshaken_connect_async (server : System) (closed : Bool) :
    (server.connect_async closed).handshaken = server.handshaken := by
  have hdisconnect : server.disconnect.handshaken = server.handshaken := by
    unfold System.disconnect System.shutdown
    simp only
    split <;> rfl
  unfold System.connect_async
  simp only
  split
  · rfl
  · split
    · exact hdisconnect
    · rfl

/-- A change that the stage does not see. -/
theorem Stage.congr (h : Stage kept before input s) (hnext : s'.outstanding = s.outstanding)
    (hmessage : s'.client_hello_msg_ = s.client_hello_msg_)
    (hinput : s'.flow_.client_input = s.flow_.client_input)
    (herror : s'.flow_.error = s.flow_.error)
    (hhands : s'.flow_.server.handshaken = s.flow_.server.handshaken)
    (hsecured : s'.server.tls_established_ = s.server.tls_established_) :
    Stage kept before input s' := by
  have hsound : s.Reported ∨ s.Established before → s'.Reported ∨ s'.Established before := by
    unfold Reported Established ServerConnection.secured
    rw [herror, hhands, hsecured]
    exact id
  have htunnel : s.Established before → s'.Established before := by
    unfold Established ServerConnection.secured
    rw [hhands, hsecured]
    exact id
  cases h with
  | reading next fresh message whole =>
    exact .reading (hnext.trans next) (hhands.trans fresh) (hmessage.trans message)
      (hinput.trans whole)
  | connecting next fresh message =>
    exact .connecting (hnext.trans next) (hhands.trans fresh) (by rw [hmessage]; exact message)
  | shaking_server next fresh message =>
    exact .shaking_server (hnext.trans next) (hhands.trans fresh) (by rw [hmessage]; exact message)
  | shaking_client next message sound =>
    exact .shaking_client (hnext.trans next) (by rw [hmessage]; exact message)
      (fun hk => hsound (sound hk))
  | served next sound => exact .served (hnext.trans next) (fun hk => hsound (sound hk))
  | passed_on next message whole =>
    exact .passed_on (hnext.trans next) (hmessage.trans message) (hinput.trans whole)
  | tunneled next sound => exact .tunneled (hnext.trans next) (fun hk => htunnel (sound hk))
  | stopped next => exact .stopped (hnext.trans next)

/-! ### The ends of the operations -/

theorem eq_ok_of_toOption {result : Except Error TlsService} (h : result.toOption = some s) :
    result = .ok s := by
  cases result with
  | error e => cases h
  | ok s₁ => exact congrArg Except.ok (Option.some.inj h)

theorem complete_read (hnone : s.outstanding = []) (hfresh : s.flow_.server.handshaken = before)
    (hmessage : s.client_hello_msg_ = none) (hwhole : s.flow_.client_input = input)
    (hs : complete c s t .on_read_client_hello = some s') :
    Stage kept before (input ++ t.bytes) s' := by
  unfold complete at hs
  simp only at hs
  obtain ⟨s₁, h₁, hends⟩ := on_read_client_hello_cases (eq_ok_of_toOption hs)
  have hnone₁ : s₁.outstanding = [] := h₁.outstanding.trans hnone
  have hfresh₁ : s₁.flow_.server.handshaken = before := by rw [h₁.server]; exact hfresh
  have hwhole₁ : s₁.flow_.client_input = input ++ t.bytes := by
    rw [h₁.input, ← hwhole]
    rfl
  rcases hends with rfl | rfl | ⟨message, rfl⟩
  · exact .passed_on (congrArg (· ++ _) hnone₁) (h₁.message.trans hmessage) hwhole₁
  · exact .reading (congrArg (· ++ _) hnone₁) hfresh₁ (h₁.message.trans hmessage) hwhole₁
  · exact .connecting (congrArg (· ++ _) hnone₁)
      ((handshaken_connect_async _ _).trans hfresh₁) rfl

theorem complete_connect (hnone : s.outstanding = []) (hfresh : s.flow_.server.handshaken = before)
    (hmessage : s.client_hello_msg_.isSome) (hkept : kept → t.KeepsErrors)
    (hs : complete c s t .on_connect_server = some s') : Stage kept before input s' := by
  unfold complete at hs
  simp only at hs
  split at hs
  · obtain ⟨s₁, h₁, ⟨rfl, hreported⟩ | rfl | rfl⟩ :=
      on_connect_server_cases (s := { s with posted := none }) hmessage (eq_ok_of_toOption hs)
    · exact shake_client_stage h₁ hnone hmessage fun hk => Or.inl (hreported (hkept hk))
    · exact shake_server_stage h₁ hnone hfresh hmessage
    · exact stop_stage h₁ hnone
  · cases hs

theorem complete_shake_server (hnone : s.outstanding = [])
    (hfresh : s.flow_.server.handshaken = before) (hmessage : s.client_hello_msg_.isSome)
    (hkept : kept → t.KeepsErrors)
    (hs : complete c s t .on_establish_tls_with_server = some s') :
    Stage kept before input s' := by
  unfold complete at hs
  simp only at hs
  split at hs
  · rename_i hresult
    obtain ⟨server, hserver, hs⟩ := Option.bind_eq_some_iff.mp hs
    obtain ⟨s₁, h₁, ⟨rfl, hreported⟩ | rfl⟩ :=
      on_establish_tls_with_server_cases (eq_ok_of_toOption hs)
    · refine shake_client_stage h₁ hnone hmessage fun hk => ?_
      by_cases herror : t.error = .success
      · refine Or.inr (h₁.established ?_)
        obtain ⟨handshake, hhandshake⟩ := Option.isSome_iff_exists.mp (hresult.mp herror)
        rw [hhandshake] at hserver
        unfold connection.step at hserver
        simp only at hserver
        split at hserver
        · rename_i origin _
          split at hserver
          · obtain rfl := Option.some.inj hserver
            exact ⟨rfl, origin, congrArg (origin :: ·) hfresh⟩
          · cases hserver
        · cases hserver
      · exact Or.inl (hreported (hkept hk) herror)
    · exact stop_stage h₁ hnone
  · cases hs

/-- The handshake with the client takes what is left of its bytes, and touches no server. -/
theorem client_on_handshake_eq (s : TlsService) (t : Completion) :
    ∃ client result, s.client_on_handshake t = ({ s.set_input [] with client := client }, result) ∧
      (result = .ok () ↔ EndsWell t) := by
  unfold client_on_handshake EndsWell
  simp only
  split
  · rename_i herror
    exact ⟨_, _, rfl, iff_of_false nofun fun h => herror h.1⟩
  · rename_i hsuccess
    have hsuccess : t.error = .success := not_not.mp hsuccess
    split
    · rename_i hname
      refine ⟨_, _, rfl, iff_of_false nofun fun h => ?_⟩
      rw [hname] at h
      cases h.2.1
    · rename_i name hname
      have hmethod : (∃ method, string_to_ssl_method t.details.version = .ok method) ↔
          ssl_methods.any (iequals_fn t.details.version) = true := by
        unfold string_to_ssl_method
        rw [List.any_eq_true, ← List.find?_isSome, Option.isSome_iff_exists]
        cases ssl_methods.find? (iequals_fn t.details.version) <;> simp
      split
      · rename_i e he
        refine ⟨_, _, rfl, iff_of_false nofun fun h => ?_⟩
        obtain ⟨method, hok⟩ := hmethod.mpr h.2.2
        rw [he] at hok
        cases hok
      · rename_i method hok
        exact ⟨_, _, rfl, iff_of_true rfl
          ⟨hsuccess, by rw [hname]; rfl, hmethod.mp ⟨method, hok⟩⟩⟩

/-- A handshake with the client that ends well has a handler, and no other has one. -/
theorem complete_client_cases (hs : complete c s t .on_establish_tls_with_client = some s') :
    ∃ client, (EndsWell t ∧ ∃ s₁, Within t { s.set_input [] with client := client } s₁ ∧
        (s' = s₁.leave (.switch_service .http_service) ∨
          (s' = s₁.leave (.switch_service .tunnel_service) ∧ ¬ s₁.Reported) ∨ s' = s₁.stop)) ∨
      (¬ EndsWell t ∧ s' = { s.set_input [] with client := client }) := by
  obtain ⟨client, result, heq, hwell⟩ := client_on_handshake_eq s t
  unfold complete at hs
  simp only at hs
  rw [heq] at hs
  split at hs
  · rename_i s₁ hpair
    obtain ⟨rfl, rfl⟩ := Prod.mk.inj hpair
    obtain rfl := Option.some.inj hs
    have hends := hwell.mp rfl
    exact ⟨client, Or.inl ⟨hends, on_establish_tls_with_client_cases hends.1⟩⟩
  · rename_i s₁ code message hpair
    obtain ⟨rfl, rfl⟩ := Prod.mk.inj hpair
    obtain rfl := Option.some.inj hs
    exact ⟨_, Or.inr ⟨fun h => (nomatch hwell.mpr h), rfl⟩⟩
  · cases hs

theorem complete_shake_client (hnone : s.outstanding = [])
    (hsound : kept → s.Reported ∨ s.Established before) (hkept : kept → t.KeepsErrors)
    (hs : complete c s t .on_establish_tls_with_client = some s') :
    (EndsWell t ∧ Stage kept before input s') ∨ (¬ EndsWell t ∧ s'.outstanding = []) := by
  obtain ⟨client, ⟨hends, s₁, h₁, hcases⟩ | ⟨hends, rfl⟩⟩ := complete_client_cases hs
  · have hnone₁ : s₁.outstanding = [] := h₁.outstanding.trans hnone
    have hsound₁ (hk : kept) : s₁.Reported ∨ s₁.Established before :=
      (hsound hk).imp (h₁.reported (hkept hk)) h₁.established
    refine Or.inl ⟨hends, ?_⟩
    rcases hcases with rfl | ⟨rfl, hclean⟩ | rfl
    · exact .served (congrArg (· ++ _) hnone₁) hsound₁
    · exact .tunneled (congrArg (· ++ _) hnone₁) fun hk => (hsound₁ hk).resolve_left hclean
    · exact .stopped (congrArg (· ++ _) hnone₁)
  · exact Or.inr ⟨hends, hnone⟩

/-! ### All steps -/

/-- The interceptors that run on an event leave an error there. -/
def Event.KeepsErrors : Event → Prop
  | .complete _ t => t.KeepsErrors
  | _ => True

/-- A handshake with the client ends, and not well. -/
def Event.Drops : Event → Prop
  | .complete .on_establish_tls_with_client t => ¬ EndsWell t
  | _ => False

/-- The bytes of the client that an event brings, before its handshake. -/
def Event.received : Event → Text
  | .complete .on_read_client_hello t => t.bytes
  | _ => []

theorem stage_complete {k : Continuation} (h : Stage kept before input s)
    (hkept : kept → t.KeepsErrors) (hs : step c s (.complete k t) = some s') :
    (¬ (Event.complete k t).Drops ∧
        Stage kept before (input ++ (Event.complete k t).received) s') ∨
      ((Event.complete k t).Drops ∧ s'.outstanding = []) := by
  unfold step at hs
  simp only at hs
  split at hs
  · rename_i hk
    have hnone {k' : Continuation} (hnext : s.outstanding = [k']) :
        k = k' ∧ s.outstanding.erase k = [] := by
      rw [hnext] at hk ⊢
      obtain rfl := List.mem_singleton.mp hk
      exact ⟨rfl, List.erase_cons_head _ _⟩
    cases h with
    | reading next fresh message whole =>
      obtain ⟨rfl, hnil⟩ := hnone next
      exact Or.inl ⟨not_false, complete_read
        (s := { s with outstanding := s.outstanding.erase .on_read_client_hello })
        hnil fresh message whole hs⟩
    | connecting next fresh message =>
      obtain ⟨rfl, hnil⟩ := hnone next
      exact Or.inl ⟨not_false, complete_connect
        (s := { s with outstanding := s.outstanding.erase .on_connect_server })
        hnil fresh message hkept hs⟩
    | shaking_server next fresh message =>
      obtain ⟨rfl, hnil⟩ := hnone next
      exact Or.inl ⟨not_false, complete_shake_server
        (s := { s with outstanding := s.outstanding.erase .on_establish_tls_with_server })
        hnil fresh message hkept hs⟩
    | shaking_client next message sound =>
      obtain ⟨rfl, hnil⟩ := hnone next
      rcases complete_shake_client
        (s := { s with outstanding := s.outstanding.erase .on_establish_tls_with_client })
        hnil sound hkept hs with ⟨hwell, hstage⟩ | hdropped
      · exact Or.inl ⟨not_not.mpr hwell, hstage⟩
      · exact Or.inr hdropped
    | served next sound =>
      obtain ⟨rfl, -⟩ := hnone next
      cases hs
    | passed_on next message whole =>
      obtain ⟨rfl, -⟩ := hnone next
      cases hs
    | tunneled next sound =>
      obtain ⟨rfl, -⟩ := hnone next
      cases hs
    | stopped next =>
      obtain ⟨rfl, -⟩ := hnone next
      cases hs
  · cases hs

/-- What a callback of the connection to the server changes. -/
theorem step_callback {e : connection.Event} {err : ErrorCode}
    (hs : step c s (.callback e err) = some s') :
    proxy.http.http1.HttpService.is_callback e = true ∧ ∃ server posted,
      connection.step s.flow_.server e = some server ∧
        (server.connecting = .idle ∨ posted = s.posted) ∧
        s' = { s.set_server server with posted := posted } := by
  unfold step at hs
  simp only at hs
  split at hs
  · rename_i he
    unfold server_callback at hs
    obtain ⟨server, hserver, hs⟩ := Option.bind_eq_some_iff.mp hs
    simp only at hs
    generalize (if e = .on_connect true then ErrorCode.success else err) = code at hs
    split at hs
    · cases hs
    · obtain rfl := Option.some.inj hs
      refine ⟨he, server, _, hserver, ?_, rfl⟩
      split
      · rename_i hended
        exact Or.inl (eq_of_beq (Bool.and_eq_true_iff.mp hended).2)
      · exact Or.inr rfl
  · cases hs

/-- A step keeps the stage, or drops the one continuation. -/
theorem stage_step {e : Event} (h : Stage kept before input s) (hkept : kept → e.KeepsErrors)
    (hs : step c s e = some s') :
    (¬ e.Drops ∧ Stage kept before (input ++ e.received) s') ∨
      (e.Drops ∧ s'.outstanding = []) := by
  cases e with
  | complete k t => exact stage_complete h hkept hs
  | callback e err =>
    obtain ⟨he, server, posted, hserver, -, rfl⟩ := step_callback hs
    obtain ⟨hhands, hsecured⟩ := keeps_of_callback he hserver
    rw [← List.append_nil input] at h
    exact Or.inl ⟨not_false, h.congr rfl rfl rfl rfl hhands hsecured⟩
  | other_store store =>
    obtain rfl := Option.some.inj hs
    rw [← List.append_nil input] at h
    exact Or.inl ⟨not_false, h.congr rfl rfl rfl rfl rfl rfl⟩

theorem stage_start (flow : Flow) (client : Client) (store : ServerStore) :
    Stage kept flow.server.handshaken flow.client_input (start flow client store) :=
  .reading rfl rfl rfl rfl

/-! ## Runs -/

/-- With nothing to come, nothing comes. -/
theorem nil_step {e : Event} (hnil : s.outstanding = []) (hs : step c s e = some s') :
    s'.outstanding = [] := by
  cases e with
  | complete k t =>
    unfold step at hs
    simp only [hnil, List.not_mem_nil, if_false] at hs
    cases hs
  | callback e err =>
    obtain ⟨-, server, posted, -, -, rfl⟩ := step_callback hs
    exact hnil
  | other_store store =>
    obtain rfl := Option.some.inj hs
    exact hnil

/-- All that a run brings from the client before its handshake. -/
def received (es : List Event) : Text := es.flatMap Event.received

theorem stage_run {es : List Event} (h : Stage kept before input s ∨ s.outstanding = [])
    (hkept : kept → ∀ e ∈ es, e.KeepsErrors) (hs : run (step c) s es = some s') :
    Stage kept before (input ++ received es) s' ∨ s'.outstanding = [] := by
  induction es generalizing s input with
  | nil =>
    cases hs
    rw [received, List.flatMap_nil, List.append_nil]
    exact h
  | cons e es ih =>
    obtain ⟨s₁, he, hs⟩ := Option.bind_eq_some_iff.mp hs
    rw [received, List.flatMap_cons, ← List.append_assoc]
    refine ih ?_ (fun hk e' he' => hkept hk e' (List.mem_cons_of_mem _ he')) hs
    rcases h with h | hnil
    · exact (stage_step h (fun hk => hkept hk e List.mem_cons_self) he).imp And.right And.right
    · exact Or.inr (nil_step hnil he)

end steps

/-- One operation is pending, or one switch to another service, or one stop. -/
def ExactlyOne (s : TlsService) : Prop := s.outstanding.length = 1

theorem Stage.exactlyOne {kept : Prop} {before : List Nat} {input : Text}
    (h : Stage kept before input s) : s.ExactlyOne := by
  cases h with
  | reading next | connecting next | shaking_server next | shaking_client next | served next
  | passed_on next | tunneled next | stopped next => exact congrArg List.length next

theorem not_exactlyOne (hnil : s.outstanding = []) : ¬ s.ExactlyOne := by
  intro hone
  rw [ExactlyOne, hnil] at hone
  cases hone

/-- A run has one continuation throughout iff each handshake with the client in it ends well. -/
theorem one_left_throughout_iff (c : Components) (flow : Flow) (client : Client)
    (store : ServerStore) (es : List Event) :
    Throughout (step c) ExactlyOne (start flow client store) es ↔
      EachStep (step c) (fun _ e => ¬ e.Drops) (start flow client store) es := by
  let Somewhere (s : TlsService) : Prop :=
    (∃ input, Stage False flow.server.handshaken input s) ∨ s.outstanding = []
  have hinv (s : TlsService) (e : Event) (s' : TlsService) (hi : Somewhere s)
      (hs : step c s e = some s') : Somewhere s' := by
    rcases hi with ⟨input, h⟩ | hnil
    · rcases stage_step h False.elim hs with ⟨-, h'⟩ | ⟨-, hnil'⟩
      · exact Or.inl ⟨_, h'⟩
      · exact Or.inr hnil'
    · exact Or.inr (nil_step hnil hs)
  have hstart : Stage False flow.server.handshaken flow.client_input (start flow client store) :=
    stage_start flow client store
  refine throughout_iff hinv ?_ (Or.inl ⟨_, hstart⟩) hstart.exactlyOne es
  intro s e s' hi hone hs
  obtain ⟨input, h⟩ := hi.resolve_right fun hnil => not_exactlyOne hnil hone
  rcases stage_step h False.elim hs with ⟨hwell, h'⟩ | ⟨hdrops, hnil'⟩
  · exact iff_of_true h'.exactlyOne hwell
  · exact iff_of_false (not_exactlyOne hnil') (not_not.mpr hdrops)

/-- What other handlers and services may count on after a run. -/
structure Sound (flow : Flow) (es : List Event) (s : TlsService) : Prop where
  /-- A connect and both handshakes have a message to work with. -/
  message : ∀ k ∈ s.outstanding, k = .on_connect_server ∨ k = .on_establish_tls_with_server ∨
    k = .on_establish_tls_with_client → s.client_hello_msg_.isSome
  /-- The service for HTTP reports an error, or the server has shaken hands for this service. -/
  http : .switch_service .http_service ∈ s.outstanding →
    s.Reported ∨ s.Established flow.server.handshaken
  /-- A tunnel gets all bytes as they came, or its server has shaken hands for this service. -/
  tunnel : .switch_service .tunnel_service ∈ s.outstanding →
    (s.client_hello_msg_ = none ∧ s.flow_.client_input = flow.client_input ++ received es) ∨
      s.Established flow.server.handshaken

theorem sound_of_stage {flow : Flow} {es : List Event} (h : Stage True flow.server.handshaken
    (flow.client_input ++ received es) s ∨ s.outstanding = []) : Sound flow es s := by
  rcases h with h | hnil
  · cases h with
    | reading next fresh message whole => constructor <;> simp [next]
    | connecting next fresh message => constructor <;> simp [next, message]
    | shaking_server next fresh message => constructor <;> simp [next, message]
    | shaking_client next message sound => constructor <;> simp [next, message]
    | served next sound =>
      constructor
      · simp [next]
      · exact fun _ => sound trivial
      · simp [next]
    | passed_on next message whole =>
      constructor
      · simp [next]
      · simp [next]
      · exact fun _ => Or.inl ⟨message, whole⟩
    | tunneled next sound =>
      constructor
      · simp [next]
      · simp [next]
      · exact fun _ => Or.inr (sound trivial)
    | stopped next => constructor <;> simp [next]
  · constructor <;> simp [hnil]

theorem stage_of_run {flow : Flow} {client : Client} {store : ServerStore} {es : List Event}
    (hes : ∀ e ∈ es, e.KeepsErrors) (hs : run (step c) (start flow client store) es = some s) :
    Stage True flow.server.handshaken (flow.client_input ++ received es) s ∨
      s.outstanding = [] :=
  stage_run (Or.inl (stage_start flow client store)) (fun _ => hes) hs

/-- A run of any events, with interceptors that leave errors. -/
theorem sound_run {flow : Flow} {client : Client} {store : ServerStore} {es : List Event}
    (hes : ∀ e ∈ es, e.KeepsErrors) (hs : run (step c) (start flow client store) es = some s) :
    Sound flow es s :=
  sound_of_stage (stage_of_run hes hs)

/-! ### A server that is not there -/

/-- Options as they are if none is given, and a library that makes every certificate. -/
def plain : Components :=
  ⟨true, text "SSLv23", text "SSLv23", false, false, false, [], [], fun _ _ => true, fun _ => false⟩

/-- The end of an operation, with no interceptor. -/
def ended (error : ErrorCode) (bytes : Text) : Completion :=
  ⟨error, bytes, none, ⟨some [], none, [], text "TLSv1.3"⟩, false, ⟨.ok (), true, .ok ()⟩,
    ⟨.ok (), true, true, [], none⟩, fun _ i => i, fun _ ci => ci⟩

/-- A message of one cipher suite, with an empty block of extensions. -/
def shortHello : Text :=
  [22, 3, 1, 0, 47, 1, 0, 0, 43, 3, 3] ++ List.replicate 32 0 ++ [0, 0, 2, 0, 47, 1, 0, 0, 0]

/-- The host of the server is not found, and the client shakes hands all the same. -/
def notFound : List Event :=
  [.complete .on_read_client_hello (ended .success shortHello),
    .callback (.on_resolve none) (.other 1), .complete .on_connect_server (ended (.other 1) []),
    .complete .on_establish_tls_with_client (ended .success [])]

def newFlow : Flow := ⟨[], .new, false, false, .new⟩

def newClient : Client := ⟨true, false, []⟩

theorem notFound_keepsErrors : ∀ e ∈ notFound, e.KeepsErrors := by
  have hended (error : ErrorCode) (bytes : Text) : (ended error bytes).KeepsErrors :=
    fun _ _ herror => herror
  intro e he
  simp only [notFound, List.mem_cons, List.not_mem_nil, or_false] at he
  rcases he with rfl | rfl | rfl | rfl
  · exact hended .success shortHello
  · trivial
  · exact hended (.other 1) []
  · exact hended .success []

theorem run_notFound : ∃ s, run (step plain) (start newFlow newClient .new) notFound = some s ∧
    s.outstanding = [.switch_service .http_service] := by
  have hnext : (run (step plain) (start newFlow newClient .new) notFound).map (·.outstanding) =
      some [.switch_service .http_service] := by decide +kernel
  exact Option.map_eq_some_iff.mp hnext

/-- The service for HTTP has the error to report. -/
theorem sound_run_notFound : ∃ s,
    run (step plain) (start newFlow newClient .new) notFound = some s ∧
      Sound newFlow notFound s := by
  obtain ⟨s, hs, -⟩ := run_notFound
  exact ⟨s, hs, sound_run notFound_keepsErrors hs⟩

end TlsService

end proxy.tls
