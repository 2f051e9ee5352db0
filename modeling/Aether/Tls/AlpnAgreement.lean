-- The protocol that the client is given beside the one that the server chose. The server is offered
-- what the client offers, or the default, and its choice is looked for in the bytes of the list.
import Aether.Tls.TlsRuns

open util.string lib.runs proxy.connection proxy.tls.handshake proxy.tls.x509
open proxy.http.http1 (Flow)

namespace proxy.tls

/-! ## The callback of the client -/

section

variable {first : ProtocolName} {rest : List ProtocolName} {p : Text}

theorem selected_infix (selected : Selected) (protos : Text) : selected.name protos <:+: protos :=
  (List.take_prefix _ _).isInfix.trans (List.drop_suffix _ _).isInfix

theorem c_string_prefix (data : Text) : c_string data <+: data := List.takeWhile_prefix _

/-- The name is chosen iff it is in the list as it is. A NUL ends what is looked for. -/
theorem selects_iff (hshort : p.length ≤ 255) :
    (∃ selected, alpn_select_callback (wire (first :: rest)) (some p) = some selected ∧
      selected.name (wire (first :: rest)) = p) ↔ 0 ∉ p ∧ p <:+: wire (first :: rest) := by
  constructor
  · rintro ⟨selected, hselected, hname⟩
    have hinfix : p <:+: wire (first :: rest) := hname ▸ selected_infix selected _
    refine ⟨fun hnul => ?_, hinfix⟩
    have hfront := c_string_prefix p
    have hfound : find (wire (first :: rest)) (c_string p) ≠ none := by
      rw [ne_eq, find_eq_none_iff, not_not]
      exact hfront.isInfix.trans hinfix
    obtain ⟨pos, hpos⟩ := Option.ne_none_iff_exists'.mp hfound
    simp only [alpn_select_callback, hpos, Option.some.injEq] at hselected
    have hcut := name_of_find hpos (Nat.le_trans hfront.length_le hshort)
    rw [hselected, hname] at hcut
    rw [hcut] at hnul
    exact (mem_c_string hnul).1 rfl
  · rintro ⟨hnul, hinfix⟩
    have hfound : find (wire (first :: rest)) p ≠ none := by
      rw [ne_eq, find_eq_none_iff, not_not]
      exact hinfix
    obtain ⟨pos, hpos⟩ := Option.ne_none_iff_exists'.mp hfound
    refine ⟨_, ?_, name_of_find hpos hshort⟩
    simp only [alpn_select_callback, c_string_of_notMem hnul, hpos]

end

namespace TlsService

variable {c : Components} {s s₁ s₂ s' : TlsService} {t : Completion} {client : Client}

/-! ## What the server is offered -/

/-- Until the handshakes the client is as it was. One with the server that is going on has offered
it the protocols for the message. -/
structure Offering (c : Components) (client : Client) (s : TlsService) : Prop where
  unshaken : s.outstanding = [.on_read_client_hello] ∨ s.outstanding = [.on_connect_server] →
    s.client = client
  offered : s.outstanding = [.on_establish_tls_with_server] → s.client = client ∧
    ∃ message args, s.client_hello_msg_ = some message ∧ s.ssl_client_context_args_ = some args ∧
      args.alpn_protos = s.offered_protos c message

theorem Offering.of_other (hread : s.outstanding ≠ [.on_read_client_hello])
    (hconnect : s.outstanding ≠ [.on_connect_server])
    (hshake : s.outstanding ≠ [.on_establish_tls_with_server]) : Offering c client s :=
  ⟨fun h => absurd h (not_or.mpr ⟨hread, hconnect⟩), fun h => absurd h hshake⟩

theorem Offering.of_nil (hnil : s.outstanding = []) : Offering c client s := by
  apply Offering.of_other <;> simp [hnil]

/-- What is to come next is none of these. -/
theorem Offering.of_next {k : Continuation} (hnext : s.outstanding = [k])
    (hk : k ≠ .on_read_client_hello ∧ k ≠ .on_connect_server ∧ k ≠ .on_establish_tls_with_server) :
    Offering c client s := by
  have hne {k' : Continuation} (hk' : k ≠ k') : s.outstanding ≠ [k'] := by
    rw [hnext]
    exact fun h => hk' (List.cons.inj h).1
  exact .of_other (hne hk.1) (hne hk.2.1) (hne hk.2.2)

theorem establish_server_offers (hs : s.establish_tls_with_server c t = .ok s') :
    s'.outstanding = s.outstanding ++ [.stop] ∨ (s'.client = s.client ∧
      ∃ message args, s'.client_hello_msg_ = some message ∧
        s'.ssl_client_context_args_ = some args ∧
        args.alpn_protos = s.offered_protos c message) := by
  unfold establish_tls_with_server at hs
  split at hs
  · obtain rfl := Except.ok.inj hs
    exact Or.inl rfl
  · rename_i message hmessage
    simp only at hs
    split at hs
    · obtain ⟨s₁, h₁, rfl⟩ := fail_cases (Within.refl t _) hs
      exact Or.inl (congrArg (· ++ [Continuation.stop]) h₁.outstanding)
    · obtain rfl := Except.ok.inj hs
      exact Or.inr ⟨rfl, message, _, hmessage, rfl, rfl⟩

/-- The protocol of a server that is secured is kept for the callback. -/
theorem establish_client_keeps (hs : s.establish_tls_with_client c t = .ok s') :
    s'.outstanding = s.outstanding ++ [.stop] ∨
      ∃ args, s'.ssl_server_context_args_ = some args ∧ args.base_args.server_alpn =
        if s.server.secured then some ((s.server.alpn.map From.value).getD []) else none := by
  unfold establish_tls_with_client at hs
  split at hs
  · cases hs
  · rename_i message _
    have hcert := within_get_certificate (c := c) (t := t) (s := s) message
    split at hs
    · rename_i s₂ e hget
      rw [hget] at hcert
      obtain ⟨s₃, h₃, rfl⟩ := fail_cases (Within.refl t s₂) hs
      exact Or.inl (congrArg (· ++ [Continuation.stop]) (hcert.trans h₃).outstanding)
    · rename_i s₂ obtained hget
      rw [hget] at hcert
      simp only at hs
      split at hs
      · obtain ⟨s₃, h₃, rfl⟩ := fail_cases (Within.refl t _) hs
        have hout : s₃.outstanding = s.outstanding := h₃.outstanding.trans hcert.outstanding
        exact Or.inl (congrArg (· ++ [Continuation.stop]) hout)
      · obtain rfl := Except.ok.inj hs
        refine Or.inr ⟨_, rfl, ?_⟩
        show (if s₂.flow_.server.server.secured then
          some ((s₂.flow_.server.server.alpn.map From.value).getD []) else none) = _
        rw [hcert.server]
        rfl

theorem on_connect_server_offers (hnil : s.outstanding = []) (hclient : s.client = client)
    (hs : s.on_connect_server c t = .ok s') :
    Offering c client s' := by
  unfold on_connect_server at hs
  split at hs
  · obtain ⟨s₁, h₁, -, rfl | rfl⟩ :=
      establish_client_cases ((Within.refl t s).fail_operation _ _) hs
    · exact .of_next (congrArg (· ++ _) (h₁.outstanding.trans hnil)) (by decide)
    · exact .of_next (congrArg (· ++ _) (h₁.outstanding.trans hnil)) (by decide)
  · have h := (Within.refl t s).intercept .server_connect
    have hnil' : (s.intercept t .server_connect).outstanding = [] := h.outstanding.trans hnil
    rcases establish_server_offers hs with hstop | ⟨hsame, hoffered⟩
    · exact .of_next (hstop.trans (congrArg (· ++ _) hnil')) (by decide)
    · have hclient' : s'.client = client := hsame.trans hclient
      refine ⟨fun _ => hclient', fun _ => ⟨hclient', ?_⟩⟩
      obtain ⟨message, args, hmessage, hargs, halpn⟩ := hoffered
      refine ⟨message, args, hmessage, hargs, halpn.trans ?_⟩
      unfold offered_protos
      rw [hsame]

theorem offering_complete {k : Continuation} {before : List Nat} {input : Text}
    (h : Stage False before input s) (ho : Offering c client s)
    (hs : step c s (.complete k t) = some s') : Offering c client s' := by
  unfold step at hs
  simp only at hs
  split at hs
  · rename_i hk
    have hnone {k' : Continuation} (hnext : s.outstanding = [k']) :
        k = k' ∧ s.outstanding.erase k = [] := by
      rw [hnext] at hk ⊢
      obtain rfl := List.mem_singleton.mp hk
      exact ⟨rfl, List.erase_cons_head _ _⟩
    cases h with
    | reading next fresh message whole =>
      obtain ⟨rfl, hnil⟩ := hnone next
      obtain ⟨s₁, h₁, hends⟩ := on_read_client_hello_cases (eq_ok_of_toOption hs)
      have hnil₁ : s₁.outstanding = [] := h₁.outstanding.trans hnil
      have hclient : s₁.client = client := h₁.client.trans (ho.unshaken (Or.inl next))
      rcases hends with rfl | rfl | ⟨message, rfl⟩
      · exact .of_next (congrArg (· ++ _) hnil₁) (by decide)
      · refine ⟨fun _ => hclient, fun hshake => ?_⟩
        cases (List.cons.inj ((congrArg (· ++ _) hnil₁).symm.trans hshake)).1
      · refine ⟨fun _ => hclient, fun hshake => ?_⟩
        cases (List.cons.inj ((congrArg (· ++ _) hnil₁).symm.trans hshake)).1
    | connecting next fresh message =>
      obtain ⟨rfl, hnil⟩ := hnone next
      unfold complete at hs
      simp only at hs
      split at hs
      · exact on_connect_server_offers
          (s := { s with outstanding := s.outstanding.erase .on_connect_server, posted := none })
          hnil (ho.unshaken (Or.inr next)) (eq_ok_of_toOption hs)
      · cases hs
    | shaking_server next fresh message =>
      obtain ⟨rfl, hnil⟩ := hnone next
      unfold complete at hs
      simp only at hs
      split at hs
      · obtain ⟨server, hserver, hs⟩ := Option.bind_eq_some_iff.mp hs
        obtain ⟨s₁, h₁, ⟨rfl, -⟩ | rfl⟩ :=
          on_establish_tls_with_server_cases (eq_ok_of_toOption hs)
        · exact .of_next (congrArg (· ++ _) (h₁.outstanding.trans hnil)) (by decide)
        · exact .of_next (congrArg (· ++ _) (h₁.outstanding.trans hnil)) (by decide)
      · cases hs
    | shaking_client next message sound =>
      obtain ⟨rfl, hnil⟩ := hnone next
      obtain ⟨client', ⟨-, s₁, h₁, hends⟩ | ⟨-, rfl⟩⟩ := complete_client_cases hs
      · have hnil₁ : s₁.outstanding = [] := h₁.outstanding.trans hnil
        rcases hends with rfl | ⟨rfl, -⟩ | rfl
        · exact .of_next (congrArg (· ++ _) hnil₁) (by decide)
        · exact .of_next (congrArg (· ++ _) hnil₁) (by decide)
        · exact .of_next (congrArg (· ++ _) hnil₁) (by decide)
      · exact .of_nil hnil
    | served next sound =>
      obtain ⟨rfl, -⟩ := hnone next
      cases hs
    | passed_on next message whole =>
      obtain ⟨rfl, -⟩ := hnone next
      cases hs
    | tunneled next sound =>
      obtain ⟨rfl, -⟩ := hnone next
      cases hs
    | stopped next =>
      obtain ⟨rfl, -⟩ := hnone next
      cases hs
  · cases hs

theorem offering_step {e : Event} {before : List Nat} {input : Text}
    (h : Stage False before input s) (ho : Offering c client s) (hs : step c s e = some s') :
    Offering c client s' := by
  cases e with
  | complete k t => exact offering_complete h ho hs
  | callback e err =>
    obtain ⟨-, server, posted, -, -, rfl⟩ := step_callback hs
    exact ⟨ho.unshaken, ho.offered⟩
  | other_store store =>
    obtain rfl := Option.some.inj hs
    exact ⟨ho.unshaken, ho.offered⟩

/-- A run from the start. -/
theorem offering_run {flow : Flow} {store : ServerStore} {es : List Event}
    (hs : run (step c) (start flow client store) es = some s) :
    (∃ input, Stage False flow.server.handshaken input s) ∧ Offering c client s ∨
      s.outstanding = [] := by
  have hstart : (∃ input, Stage False flow.server.handshaken input (start flow client store)) ∧
      Offering c client (start flow client store) :=
    ⟨⟨_, stage_start flow client store⟩, fun _ => rfl, nofun⟩
  refine (throughout_of_step (P := fun s => (∃ input, Stage False flow.server.handshaken input s) ∧
    Offering c client s ∨ s.outstanding = []) ?_ (Or.inl hstart) (es ++ [])).run hs
  rintro s e s' (⟨⟨input, h⟩, ho⟩ | hnil) hstep
  · refine (stage_step h False.elim hstep).imp ?_ And.right
    rintro ⟨-, h'⟩
    exact ⟨⟨_, h'⟩, offering_step h ho hstep⟩
  · exact Or.inr (nil_step hnil hstep)

/-! ## The agreement -/

/-- A protocol that was offered for a message to a client that had not shaken hands is one of the
message, or the default. -/
theorem offered_cases {message : ClientHello} {p : Text}
    (hnew : s.client.tls_established_ = false) (hp : p ∈ s.offered_protos c message) :
    (p ∈ message.alpn ∧ c.ssl_negotiate_alpn = false) ∨
      (p = default_alpn ∧ (message.alpn = [] ∨ c.ssl_negotiate_alpn = true)) := by
  unfold offered_protos at hp
  rw [if_neg (by rw [hnew]; exact Bool.false_ne_true)] at hp
  split at hp
  · rename_i hoffers
    obtain ⟨-, hnegotiate⟩ := Bool.and_eq_true_iff.mp hoffers
    have hmem := List.mem_of_mem_filter (List.mem_of_mem_filter hp)
    exact Or.inl ⟨hmem, by simpa using hnegotiate⟩
  · rename_i hoffers
    refine Or.inr ⟨List.mem_singleton.mp hp, ?_⟩
    rw [Bool.and_eq_true, not_and_or, Bool.not_eq_true', Bool.not_eq_true', Bool.not_eq_false,
      Bool.not_eq_false, List.isEmpty_iff] at hoffers
    exact hoffers

/-- A server that has shaken hands leaves its protocol for the callback of the client. -/
theorem kept_of_shake_server {handshake : Handshake} {p : Text}
    (hstep : step c s (.complete .on_establish_tls_with_server t) = some s')
    (hnil : s.outstanding.erase .on_establish_tls_with_server = [])
    (hnext : s'.outstanding = [.on_establish_tls_with_client])
    (hhandshake : t.handshake = some handshake) (hp : handshake.alpn = some p) :
    ∃ args, s'.ssl_server_context_args_ = some args ∧ args.base_args.server_alpn = some p := by
  unfold step at hstep
  simp only at hstep
  split at hstep
  · unfold complete at hstep
    simp only at hstep
    split at hstep
    · rename_i hresult
      obtain ⟨server, hserver, hstep⟩ := Option.bind_eq_some_iff.mp hstep
      have hsuccess : t.error = .success := hresult.mpr (by rw [hhandshake]; rfl)
      have hestablish := eq_ok_of_toOption hstep
      unfold on_establish_tls_with_server at hestablish
      simp only [hsuccess, ne_eq, not_true_eq_false, if_false] at hestablish
      rcases establish_client_keeps hestablish with hstop | ⟨args, hargs, halpn⟩
      · rw [hnext] at hstop
        cases (List.cons.inj (hstop.trans (congrArg (· ++ _) hnil))).1
      · refine ⟨args, hargs, halpn.trans ?_⟩
        rw [hhandshake] at hserver
        unfold connection.step at hserver
        simp only at hserver
        split at hserver
        · split at hserver
          · obtain rfl := Option.some.inj hserver
            obtain ⟨cert, chain, alpn⟩ := handshake
            obtain rfl : alpn = some p := hp
            rfl
          · cases hserver
        · cases hserver
    · cases hstep
  · cases hstep

/-- A client that offers a list of names, and has not shaken hands before, is given the protocol of
the server iff no NUL is in it and, where the proxy offers its own, that is in the list. -/
theorem the_client_is_given_the_protocol_iff {flow : Flow} {store : ServerStore} {es : List Event}
    {message : ClientHello} {args : SslContextArgs} {first : ProtocolName}
    {rest : List ProtocolName} {handshake : Handshake} {p : Text}
    (hnew : client.tls_established_ = false)
    (hs : run (step c) (start flow client store) es = some s)
    (hmessage : s.client_hello_msg_ = some message)
    (halpn : message.alpn = (first :: rest).map (·.bytes))
    (hargs : s.ssl_client_context_args_ = some args)
    (hstep : step c s (.complete .on_establish_tls_with_server t) = some s')
    (hnext : s'.outstanding = [.on_establish_tls_with_client])
    (hhandshake : t.handshake = some handshake) (hp : handshake.alpn = some p)
    (hchosen : p ∈ args.alpn_protos) :
    ∃ server_args, s'.ssl_server_context_args_ = some server_args ∧
      ((∃ selected, alpn_select_callback (wire (first :: rest))
          (select_arg server_args.base_args.server_alpn) = some selected ∧
          selected.name (wire (first :: rest)) = p) ↔
        0 ∉ p ∧ (c.ssl_negotiate_alpn = true → default_alpn <:+: wire (first :: rest))) := by
  have hk : .on_establish_tls_with_server ∈ s.outstanding := by
    by_contra hk
    simp only [step, if_neg hk] at hstep
    cases hstep
  obtain ⟨⟨input, h⟩, ho⟩ := (offering_run hs).resolve_right (List.ne_nil_of_mem hk)
  obtain ⟨k, hone⟩ := List.length_eq_one_iff.mp h.exactlyOne
  rw [hone] at hk
  obtain rfl := List.mem_singleton.mp hk
  obtain ⟨server_args, hkept, hserver⟩ := kept_of_shake_server hstep
    (by rw [hone]; exact List.erase_cons_head _ _) hnext hhandshake hp
  refine ⟨server_args, hkept, ?_⟩
  obtain ⟨hclient, message', args', hmessage', hargs', hoffered⟩ := ho.offered hone
  obtain rfl := Option.some.inj (hmessage.symm.trans hmessage')
  obtain rfl := Option.some.inj (hargs.symm.trans hargs')
  rw [hoffered] at hchosen
  have hcases := offered_cases (hclient ▸ hnew) hchosen
  have hentry {q : Text} (hq : q ∈ message.alpn) : Offers (first :: rest) q := by
    rw [halpn] at hq
    exact List.mem_map.mp hq
  have hlength : 0 < p.length ∧ p.length ≤ 255 := by
    rcases hcases with ⟨hmem, -⟩ | ⟨rfl, -⟩
    · obtain ⟨entry, -, rfl⟩ := hentry hmem
      exact ⟨List.length_pos_iff.mpr entry.nonempty, entry.short⟩
    · exact ⟨by decide, default_alpn_short⟩
  have harg : select_arg server_args.base_args.server_alpn = some p := by
    rw [hserver, select_arg, Option.filter_some, if_pos (decide_eq_true hlength.1)]
  rw [harg, selects_iff hlength.2]
  refine and_congr_right fun _ => ?_
  rcases hcases with ⟨hmem, hoff⟩ | ⟨rfl, hempty | hon⟩
  · refine iff_of_true (occurs_of_offers (hentry hmem)) fun hon => ?_
    rw [hoff] at hon
    cases hon
  · rw [halpn] at hempty
    cases hempty
  · exact ⟨fun hinfix _ => hinfix, fun hinfix => hinfix hon⟩

/-- The one protocol that the client offers. -/
def defaultName : ProtocolName := ⟨default_alpn, by decide, by decide⟩

/-- A message that offers it. -/
def offeringHello : Text :=
  [22, 3, 1, 0, 62, 1, 0, 0, 58, 3, 3] ++ List.replicate 32 0 ++
    [0, 0, 2, 0, 47, 1, 0, 0, 15, 0, 16, 0, 11, 0, 9, 8] ++ default_alpn

/-- The server is connected, and shakes hands. -/
def toServer : List Event :=
  [.complete .on_read_client_hello (ended .success offeringHello),
    .callback (.on_resolve (some 1)) .success, .callback (.on_connect true) .success,
    .complete .on_connect_server (ended .success [])]

def shaken : Completion :=
  { ended .success [] with handshake := some ⟨⟨none, none, [], false⟩, [], some default_alpn⟩ }

theorem the_client_is_given_the_default : ∃ s', (run (step plain) (start newFlow newClient .new)
    (toServer ++ [.complete .on_establish_tls_with_server shaken])) = some s' ∧
    ∃ args, s'.ssl_server_context_args_ = some args ∧
      ((∃ selected, alpn_select_callback (wire [defaultName])
          (select_arg args.base_args.server_alpn) = some selected ∧
          selected.name (wire [defaultName]) = default_alpn) ↔
        0 ∉ default_alpn ∧ (plain.ssl_negotiate_alpn = true →
          default_alpn <:+: wire [defaultName])) := by
  have hrun : ((run (step plain) (start newFlow newClient .new) toServer).bind fun s =>
      (step plain s (.complete .on_establish_tls_with_server shaken)).map fun s' =>
        (s.client_hello_msg_.map (·.alpn), s.ssl_client_context_args_.map (·.alpn_protos),
          s'.outstanding)) =
      some (some [default_alpn], some [default_alpn], [.on_establish_tls_with_client]) := by
    decide +kernel
  obtain ⟨s, hs, hrun⟩ := Option.bind_eq_some_iff.mp hrun
  obtain ⟨s', hstep, hsees⟩ := Option.map_eq_some_iff.mp hrun
  obtain ⟨hmessage, hrest⟩ := Prod.mk.inj hsees
  obtain ⟨hargs, hnext⟩ := Prod.mk.inj hrest
  obtain ⟨message, hmessage, halpn⟩ := Option.map_eq_some_iff.mp hmessage
  obtain ⟨args, hargs, hprotos⟩ := Option.map_eq_some_iff.mp hargs
  refine ⟨s', ?_, ?_⟩
  · rw [run_append, hs]
    exact (Option.bind_fun_some _).trans hstep
  · have hfirst : message.alpn = ([defaultName] : List ProtocolName).map (·.bytes) := halpn
    exact the_client_is_given_the_protocol_iff rfl hs hmessage hfirst hargs hstep hnext rfl rfl
      (by rw [hprotos]; exact List.mem_singleton_self _)

end TlsService

end proxy.tls
