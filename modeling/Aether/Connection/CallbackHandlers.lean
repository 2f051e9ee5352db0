-- Where the handlers of the asynchronous calls of the two connections go.
--
-- Each callback hands its handler on or invokes it, but for the one that ends a
-- handshake with the client: on an error it returns before the handler is posted.
import Aether.Connection.Callbacks
import Mathlib.Algebra.BigOperators.Group.List.Basic

open lib.runs util.string

namespace proxy.connection.callbacks

/-! ## What a step does to the handlers -/

variable {s s' : State}

/-- Each handler is where it was, or in the next place. -/
structure Same (s s' : State) : Prop where
  accepted : s'.accepted = s.accepted
  calls : s'.calls = s.calls
  places : ∀ handler, s'.invocations handler + s'.owed handler =
    s.invocations handler + s.owed handler

theorem Same.settled_iff (h : Same s s') : Settled s' ↔ Settled s := by
  constructor
  · rintro ⟨honce, hnever⟩
    refine ⟨fun handler hh => ?_, fun handler hh => ?_⟩
    · rw [← h.places]
      exact honce handler (h.accepted ▸ hh)
    · have hp := h.places handler
      have hn := hnever handler (h.accepted ▸ hh)
      omega
  · rintro ⟨honce, hnever⟩
    refine ⟨fun handler hh => ?_, fun handler hh => ?_⟩
    · rw [h.places]
      exact honce handler (h.accepted ▸ hh)
    · have hp := h.places handler
      have hn := hnever handler (h.accepted ▸ hh)
      omega

theorem Same.numbered (h : Same s s') (hn : Numbered s) : Numbered s' := by
  refine ⟨?_, ?_⟩
  · rw [h.accepted, h.calls]
    exact hn.accepted
  · rw [h.accepted]
    exact hn.nodup

namespace State

@[simp] theorem owed_give (s : State) (c : Callback) (handler : Nat) :
    (s.give c).owed handler = s.owed handler + if c.handler = handler then 1 else 0 := by
  simp [owed, give, List.count_singleton]

@[simp] theorem invocations_give (s : State) (c : Callback) (handler : Nat) :
    (s.give c).invocations handler = s.invocations handler := rfl

/-- A callback that is called is owed once less. -/
theorem owed_take {s : State} {i : Nat} {c : Callback} (hi : s.pending[i]? = some c)
    (handler : Nat) : s.owed handler =
      (s.take i).owed handler + if c.handler = handler then 1 else 0 := by
  obtain ⟨hlt, hget⟩ := List.getElem?_eq_some_iff.mp hi
  have hperm := (List.getElem_cons_eraseIdx_perm hlt).map Callback.handler
  rw [hget, List.map_cons] at hperm
  unfold owed take
  rw [← hperm.count_eq, List.count_cons]
  simp only [beq_iff_eq]

end State

open proxy.connection.callbacks.State

/-- The handler goes on into the next callback. -/
theorem same_give {i : Nat} {c next : Callback} (hi : s.pending[i]? = some c)
    (hnext : next.handler = c.handler) : Same s ((s.take i).give next) := by
  refine ⟨rfl, rfl, fun handler => ?_⟩
  rw [owed_give, owed_take hi, hnext]
  rfl

/-- The handler that was posted is invoked. -/
theorem same_invoke {i handler : Nat} {code : ErrorCode}
    (hi : s.pending[i]? = some (.posted handler code)) :
    Same s ((s.take i).invoke handler code) := by
  refine ⟨rfl, rfl, fun other => ?_⟩
  have hone : ((s.take i).invoke handler code).invocations other =
      s.invocations other + if handler = other then 1 else 0 := by
    simp [invocations, invoke, take, List.count_singleton]
  have howed : ((s.take i).invoke handler code).owed other = (s.take i).owed other := rfl
  have htaken := owed_take hi other
  by_cases hthis : handler = other
  · rw [Callback.handler, if_pos hthis] at htaken
    rw [hone, howed, htaken, if_pos hthis]
    omega
  · rw [Callback.handler, if_neg hthis] at htaken
    rw [hone, howed, htaken, if_neg hthis]
    omega

theorem same_on_resolve {i handler : Nat} (hi : s.pending[i]? = some (.resolve handler))
    (err : ErrorCode) (endpoints : Nat) : Same s ((s.take i).on_resolve handler err endpoints) := by
  unfold on_resolve
  split
  · exact same_give hi rfl
  · split
    · exact same_give hi rfl
    · exact same_give hi rfl

theorem same_on_connect {i handler left : Nat} (hi : s.pending[i]? = some (.connect handler left))
    (err : ErrorCode) : Same s ((s.take i).on_connect handler err left) := by
  unfold on_connect
  split
  · have h := @same_give s i _ (.posted handler err) hi rfl
    exact ⟨h.accepted, h.calls, h.places⟩
  · split
    · exact same_give hi rfl
    · exact same_give hi rfl

theorem same_client_handshake {i handler : Nat} {err : ErrorCode} {details : Details}
    (hi : s.pending[i]? = some (.client_handshake handler)) (hwell : EndsWell err details) :
    Same s ((s.take i).client_handshake handler err details) := by
  obtain ⟨rfl, hname, hversion⟩ := hwell
  obtain ⟨name, hname⟩ := Option.isSome_iff_exists.mp hname
  have hmethod : ∃ method, string_to_ssl_method details.version = .ok method := by
    unfold string_to_ssl_method
    obtain ⟨method, hfind⟩ := Option.isSome_iff_exists.mp
      ((List.find?_isSome).mpr (List.any_eq_true.mp hversion))
    exact ⟨method, by rw [hfind]⟩
  obtain ⟨method, hmethod⟩ := hmethod
  have h := @same_give s i _ (.posted handler .success) hi rfl
  unfold State.client_handshake on_client_handshake
  simp only [ne_eq, not_true_eq_false, if_false, hname, hmethod]
  exact ⟨h.accepted, h.calls, h.places⟩

/-- A handshake that does not end well drops the handler. -/
theorem dropped {i handler : Nat} {err : ErrorCode} {details : Details}
    (hbad : ¬ EndsWell err details) :
    ((s.take i).client_handshake handler err details).invocations handler =
        s.invocations handler ∧
      ((s.take i).client_handshake handler err details).accepted = s.accepted ∧
      ((s.take i).client_handshake handler err details).owed handler ≤
        (s.take i).owed handler := by
  unfold State.client_handshake on_client_handshake
  by_cases herr : err = .success
  · simp only [ne_eq, herr, not_true_eq_false, if_false]
    cases hname : details.servername with
    | none => exact ⟨rfl, rfl, Nat.zero_le _⟩
    | some name =>
      simp only
      have hversion : ssl_methods.find? (iequals_fn details.version) = none := by
        rw [List.find?_eq_none]
        intro method hm heq
        exact hbad ⟨herr, by rw [hname]; rfl, List.any_eq_true.mpr ⟨method, hm, heq⟩⟩
      have hmethod : string_to_ssl_method details.version =
          .error (default_error .invalid_ssl_method) := by
        unfold string_to_ssl_method
        rw [hversion]
      rw [hmethod]
      exact ⟨rfl, rfl, Nat.le_refl _⟩
  · simp only [ne_eq, herr, not_false_eq_true, if_true]
    exact ⟨rfl, rfl, Nat.le_refl _⟩

/-! ## Calls -/

theorem Settled.accept (h : Settled s) (hn : Numbered s) {c : Callback}
    (hc : c.handler = s.calls) : Settled (s.accept.give c) := by
  have hnew : s.calls ∉ s.accepted := fun hm => Nat.lt_irrefl _ (hn.accepted _ hm)
  refine ⟨fun handler hh => ?_, fun handler hh => ?_⟩
  · have hplaces : (s.accept.give c).invocations handler + (s.accept.give c).owed handler =
        s.invocations handler + s.owed handler + if s.calls = handler then 1 else 0 := by
      rw [owed_give, hc]
      exact (Nat.add_assoc _ _ _).symm
    rw [hplaces]
    rcases List.mem_append.mp hh with hold | hthis
    · have hother : s.calls ≠ handler := by
        rintro rfl
        exact hnew hold
      rw [h.once handler hold, if_neg hother]
    · obtain rfl := List.mem_singleton.mp hthis
      have hnone := h.never s.calls hnew
      rw [if_pos rfl, hnone.1, hnone.2]
  · have hold : handler ∉ s.accepted := fun hm => hh (List.mem_append_left _ hm)
    have hother : s.calls ≠ handler := by
      rintro rfl
      exact hh (List.mem_append_right _ List.mem_cons_self)
    refine ⟨(h.never handler hold).1, ?_⟩
    rw [owed_give, hc, if_neg hother]
    exact (h.never handler hold).2

theorem Numbered.accept (h : Numbered s) (c : Callback) : Numbered (s.accept.give c) := by
  have hnew : s.calls ∉ s.accepted := fun hm => Nat.lt_irrefl _ (h.accepted _ hm)
  refine ⟨fun handler hh => ?_, ?_⟩
  · rcases List.mem_append.mp hh with hold | hthis
    · exact Nat.lt_succ_of_lt (h.accepted handler hold)
    · obtain rfl := List.mem_singleton.mp hthis
      exact Nat.lt_succ_self _
  · refine List.nodup_append.mpr ⟨h.nodup, List.nodup_singleton _, ?_⟩
    rintro a ha b hb rfl
    exact hnew (List.mem_singleton.mp hb ▸ ha)

theorem Numbered.refuse (h : Numbered s) : Numbered s.refuse :=
  ⟨fun handler hh => Nat.lt_succ_of_lt (h.accepted handler hh), h.nodup⟩

/-- A call that is accepted gives its own handler to asio. -/
theorem Numbered.connect_async (hn : Numbered s) (host : Text) (port : UInt16) (closed : Bool) :
    Numbered (s.connect_async host port closed) := by
  unfold State.connect_async
  split
  · exact hn.accept _
  · exact Numbered.accept (s := { s with connected_ := false, host_ := host, port_ := port })
      ⟨hn.accepted, hn.nodup⟩ _

theorem Settled.connect_async (h : Settled s) (hn : Numbered s) (host : Text) (port : UInt16)
    (closed : Bool) : Settled (s.connect_async host port closed) := by
  unfold State.connect_async
  split
  · exact h.accept hn rfl
  · exact Settled.accept (s := { s with connected_ := false, host_ := host, port_ := port })
      ⟨h.once, h.never⟩ ⟨hn.accepted, hn.nodup⟩ rfl

/-! ## Runs -/

/-- A callback that is called, but for the end of a handshake with the client. -/
theorem same_callback {i endpoints : Nat} {err : ErrorCode} {details : Details}
    (hother : ∀ handler, s.pending[i]? ≠ some (.client_handshake handler))
    (hs : step s (.callback i err endpoints details) = some s') : Same s s' := by
  simp only [step] at hs
  split at hs
  · cases hs
  · rename_i hi
    cases hs
    exact same_invoke hi
  · rename_i hi
    cases hs
    exact same_on_resolve hi err endpoints
  · rename_i hi
    cases hs
    exact same_on_connect hi err
  · rename_i hi
    cases hs
    exact same_give hi rfl
  · rename_i handler hi
    exact absurd hi (hother handler)

theorem calls_client_handshake (s : State) (handler : Nat) (err : ErrorCode) (details : Details) :
    (s.client_handshake handler err details).accepted = s.accepted ∧
      (s.client_handshake handler err details).calls = s.calls := by
  unfold State.client_handshake on_client_handshake
  by_cases herr : err = .success
  · simp only [ne_eq, herr, not_true_eq_false, if_false]
    cases details.servername with
    | none => exact ⟨rfl, rfl⟩
    | some name =>
      unfold string_to_ssl_method
      simp only
      cases ssl_methods.find? (iequals_fn details.version) with
      | none => exact ⟨rfl, rfl⟩
      | some method => exact ⟨rfl, rfl⟩
  · simp only [ne_eq, herr, not_false_eq_true, if_true]
    exact ⟨rfl, rfl⟩

theorem numbered_step {e : Event} (hn : Numbered s) (hs : step s e = some s') : Numbered s' := by
  cases e with
  | connect_async host port closed =>
    cases hs
    exact hn.connect_async host port closed
  | establish_tls_with_server c =>
    cases hs
    unfold establish_tls_with_server
    split
    · exact hn.accept _
    · exact hn.refuse
  | establish_tls_with_client c =>
    cases hs
    unfold establish_tls_with_client
    split
    · exact hn.accept _
    · exact hn.refuse
  | callback i err endpoints details =>
    by_cases hi : ∃ handler, s.pending[i]? = some (.client_handshake handler)
    · obtain ⟨handler, hi⟩ := hi
      simp only [step, hi, Option.some.injEq] at hs
      subst hs
      obtain ⟨haccepted, hcalls⟩ := calls_client_handshake (s.take i) handler err details
      refine ⟨?_, ?_⟩
      · rw [haccepted, hcalls]
        exact hn.accepted
      · rw [haccepted]
        exact hn.nodup
    · exact (same_callback (not_exists.mp hi) hs).numbered hn

theorem Settled.refuse (h : Settled s) : Settled s.refuse := ⟨h.once, h.never⟩

theorem settled_step {e : Event} (hn : Numbered s) (h : Settled s) (hs : step s e = some s') :
    Settled s' ↔ HandshakeEndsWell s e := by
  cases e with
  | connect_async host port closed =>
    cases hs
    exact iff_of_true (h.connect_async hn host port closed) trivial
  | establish_tls_with_server c =>
    cases hs
    refine iff_of_true ?_ trivial
    unfold establish_tls_with_server
    split
    · exact h.accept hn rfl
    · exact h.refuse
  | establish_tls_with_client c =>
    cases hs
    refine iff_of_true ?_ trivial
    unfold establish_tls_with_client
    split
    · exact h.accept hn rfl
    · exact h.refuse
  | callback i err endpoints details =>
    by_cases hi : ∃ handler, s.pending[i]? = some (.client_handshake handler)
    · obtain ⟨handler, hi⟩ := hi
      simp only [step, hi, Option.some.injEq] at hs
      subst hs
      have hcondition : HandshakeEndsWell s (.callback i err endpoints details) ↔
          EndsWell err details := by
        constructor
        · intro hq
          exact hq handler hi
        · intro hq _ _
          exact hq
      rw [hcondition]
      constructor
      · intro hsettled
        by_contra hbad
        obtain ⟨hinvoked, haccepted, howed⟩ := @dropped s i handler _ _ hbad
        have htaken := owed_take hi handler
        rw [Callback.handler, if_pos rfl] at htaken
        have hmem : handler ∈ s.accepted := by
          by_contra hnot
          have hnone := h.never handler hnot
          omega
        have hbefore := h.once handler hmem
        have hafter := hsettled.once handler (haccepted ▸ hmem)
        omega
      · intro hwell
        exact (same_client_handshake hi hwell).settled_iff.mpr h
    · have hother := not_exists.mp hi
      refine iff_of_true ((same_callback hother hs).settled_iff.mpr h) ?_
      intro handler hh
      exact absurd hh (hother handler)

theorem settled_new : Settled .new :=
  ⟨fun handler hh => by simp [State.new] at hh, fun _ _ => ⟨rfl, rfl⟩⟩

theorem numbered_new : Numbered .new :=
  ⟨fun handler hh => by simp [State.new] at hh, List.nodup_nil⟩

/-- In every state of a run the handler of each call that returned ok was invoked once, or is in one
callback that asio still owes, and that of a call that returned an error is nowhere, iff each
handshake with the client that ends in the run ends well. -/
theorem the_handlers_run_once_iff_the_handshakes_end_well (events : List Event) :
    Throughout step Settled .new events ↔ EachStep step HandshakeEndsWell .new events :=
  throughout_iff (fun _ _ _ hn hs => numbered_step hn hs)
    (fun _ _ _ hn h hs => settled_step hn h hs) numbered_new settled_new events

/-- A handshake with the client, which fails. -/
def failedHandshake : List Event :=
  [.establish_tls_with_client ⟨.ok (), true, true, [], none⟩,
    .callback 0 (.other 1) 0 ⟨none, none, [], []⟩]

/-- The call returned ok and asio owes no callback, but the handler was not invoked. -/
theorem the_handler_of_a_failed_handshake_is_dropped :
    ∃ s, run step .new failedHandshake = some s ∧ s.accepted = [0] ∧ s.pending = [] ∧
      s.invoked = [] ∧ ¬ Settled s := by
  refine ⟨_, rfl, rfl, rfl, rfl, ?_⟩
  intro h
  exact absurd (h.once 0 List.mem_cons_self) (by decide)

/-! ## The callbacks come to an end -/

/-- What a callback may still bring: lookups, and then connects and posts. -/
def Callback.lookups : Callback → Nat
  | resolve _ => 1
  | _ => 0

def Callback.rest : Callback → Nat
  | posted _ _ => 1
  | resolve _ => 0
  | connect _ left => left + 2
  | server_handshake _ => 2
  | client_handshake _ => 2

/-- What asio owes. -/
def State.work (s : State) (f : Callback → Nat) : Nat := (s.pending.map f).sum

theorem work_take {s : State} {i : Nat} {c : Callback} (hi : s.pending[i]? = some c)
    (f : Callback → Nat) : s.work f = (s.take i).work f + f c := by
  obtain ⟨hlt, hget⟩ := List.getElem?_eq_some_iff.mp hi
  have hperm := ((List.getElem_cons_eraseIdx_perm hlt).map f).sum_eq
  rw [hget, List.map_cons, List.sum_cons] at hperm
  exact hperm.symm.trans (Nat.add_comm _ _)

theorem work_give (s : State) (c : Callback) (f : Callback → Nat) :
    (s.give c).work f = s.work f + f c := by
  simp [State.work, give]

/-- Fewer lookups are owed, or as many, and less of the rest. -/
def Nearer (s' s : State) : Prop :=
  Prod.Lex (· < ·) (· < ·) (s'.work Callback.lookups, s'.work Callback.rest)
    (s.work Callback.lookups, s.work Callback.rest)

theorem nearer_give {i : Nat} {c next : Callback} (hi : s.pending[i]? = some c)
    (hless : next.lookups < c.lookups ∨ next.lookups = c.lookups ∧ next.rest < c.rest) :
    Nearer ((s.take i).give next) s := by
  have hlookups := work_take hi Callback.lookups
  have hrest := work_take hi Callback.rest
  unfold Nearer
  rw [work_give, work_give, hlookups, hrest]
  rcases hless with hlookup | ⟨hsame, hpart⟩
  · exact .left _ _ (by omega)
  · rw [hsame]
    exact .right _ (by omega)

/-- Callbacks that are owed besides one that is called: some of the others, or none. -/
theorem nearer_of_le {i : Nat} {c : Callback} (hi : s.pending[i]? = some c)
    (hle : ∀ f, s'.work f ≤ (s.take i).work f) : Nearer s' s := by
  have hlookups := work_take hi Callback.lookups
  have hrest := work_take hi Callback.rest
  have hfewer := hle Callback.lookups
  have hless := hle Callback.rest
  have hpos : 0 < c.lookups ∨ c.lookups = 0 ∧ 0 < c.rest := by
    cases c <;> simp [Callback.lookups, Callback.rest]
  unfold Nearer
  by_cases hequal : s'.work Callback.lookups = s.work Callback.lookups
  · rw [hequal]
    exact .right _ (by omega)
  · exact .left _ _ (by omega)

theorem nearer_callback {i endpoints : Nat} {err : ErrorCode} {details : Details}
    (hs : step s (.callback i err endpoints details) = some s') : Nearer s' s := by
  simp only [step] at hs
  split at hs
  · cases hs
  · rename_i hi
    cases hs
    exact nearer_of_le hi (fun _ => Nat.le_refl _)
  · rename_i hi
    cases hs
    unfold on_resolve
    split
    · exact nearer_give hi (.inl Nat.zero_lt_one)
    · split
      · exact nearer_give hi (.inl Nat.zero_lt_one)
      · exact nearer_give hi (.inl Nat.zero_lt_one)
  · rename_i hi
    cases hs
    unfold on_connect
    split
    · exact @nearer_give _ _ _ (.posted _ err) hi (.inr ⟨rfl, by simp [Callback.rest]⟩)
    · split
      · exact nearer_give hi (.inr ⟨rfl, by simp [Callback.rest]⟩)
      · exact nearer_give hi (.inr ⟨rfl, by simp [Callback.rest]⟩)
  · rename_i hi
    cases hs
    exact nearer_give hi (.inr ⟨rfl, by simp [Callback.rest]⟩)
  · rename_i handler hi
    cases hs
    unfold State.client_handshake on_client_handshake
    by_cases herr : err = .success
    · simp only [ne_eq, herr, not_true_eq_false, if_false]
      cases details.servername with
      | none => exact nearer_of_le hi (fun _ => Nat.zero_le _)
      | some name =>
        unfold string_to_ssl_method
        simp only
        cases ssl_methods.find? (iequals_fn details.version) with
        | none => exact nearer_of_le hi (fun _ => Nat.le_refl _)
        | some method =>
          exact @nearer_give _ _ _ (.posted _ _) hi (.inr ⟨rfl, by simp [Callback.rest]⟩)
    · simp only [ne_eq, herr, not_false_eq_true, if_true]
      exact nearer_of_le hi (fun _ => Nat.le_refl _)

/-- Without new calls, asio at last owes no callback, whatever each ends with. -/
theorem the_callbacks_come_to_an_end : WellFounded (fun s' s : State =>
    ∃ i err endpoints details, step s (.callback i err endpoints details) = some s') := by
  have hwf : WellFounded Nearer :=
    InvImage.wf (fun s : State => (s.work Callback.lookups, s.work Callback.rest))
      (WellFounded.prod_lex Nat.lt_wfRel.wf Nat.lt_wfRel.wf)
  refine Subrelation.wf (r := Nearer) ?_ hwf
  rintro s' s ⟨i, err, endpoints, details, hs⟩
  exact nearer_callback hs

end proxy.connection.callbacks
