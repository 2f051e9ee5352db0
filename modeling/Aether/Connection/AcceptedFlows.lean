-- The flows of an acceptor over its runs: the manager holds those that are served, those that
-- wait and the one of the pending accept, and an acceptor that was stopped takes one more.
import Aether.Connection.Acceptor
import Mathlib.Data.List.Perm.Basic

open util lib.runs

namespace proxy.connection

/-! ## The map of the connections -/

variable {limit : Nat} {m : ConnectionManager} {t t' : Traffic} {flow : Uuid}

theorem start_pending_loop_connections (pending : List Uuid) :
    (ConnectionManager.start_pending_loop limit pending m).connections_ = m.connections_ := by
  induction pending generalizing m with
  | nil => rfl
  | cons next pending ih =>
    unfold ConnectionManager.start_pending_loop
    split
    · split
      · exact ih
      · exact ih
    · rfl

namespace Traffic

/-- The map has the flows that were started and did not stop, and the one that an accept waits for,
if there is one. -/
structure Tracked (limit : Nat) (t : Traffic) (accepting : Option Uuid) : Prop where
  settled : t.Settled limit
  distinct : t.manager.connections_.Nodup
  held : ∀ flow, flow ∈ t.manager.connections_ ↔
    (flow ∈ t.started ∧ flow ∉ t.stopped) ∨ accepting = some flow
  idle : ∀ flow, accepting = some flow → flow ∉ t.started
  known : ∀ flow, flow ∈ t.manager.connections_ ∨ flow ∈ t.started → flow ∈ t.created

theorem tracked_new : Tracked limit .new none where
  settled := settled_new
  distinct := List.nodup_nil
  held := by simp [new, ConnectionManager.new]
  idle := by simp
  known := by simp [new, ConnectionManager.new]

variable {accepting : Option Uuid}

theorem Tracked.new_connection (h : t.Tracked limit none)
    (hs : t.step limit (.new_connection flow) = some t') : t'.Tracked limit (some flow) := by
  have hsettled := h.settled.step hs
  simp only [Traffic.step, Option.ite_none_left_eq_some] at hs
  obtain ⟨hfresh, hs⟩ := hs
  have hnew : flow ∉ t.manager.connections_ := fun hmem => hfresh (h.known flow (.inl hmem))
  rw [ConnectionManager.new_connection, if_neg hnew] at hs
  obtain rfl := Option.some.inj hs
  refine ⟨hsettled, ?_, ?_, ?_, ?_⟩
  · exact (List.perm_append_singleton flow _).nodup_iff.mpr (List.nodup_cons.mpr ⟨hnew, h.distinct⟩)
  · intro other
    have hother := h.held other
    simp only [reduceCtorEq, or_false] at hother
    rw [List.mem_append, List.mem_singleton, hother, Option.some.injEq, eq_comm (a := other)]
  · rintro other heq hstarted
    obtain rfl := Option.some.inj heq
    exact hfresh (h.known _ (.inr hstarted))
  · intro other hother
    rw [List.mem_append, List.mem_singleton] at hother
    rw [List.mem_append, List.mem_singleton]
    rcases hother with (hheld | rfl) | hstarted
    · exact .inl (h.known other (.inl hheld))
    · exact .inr rfl
    · exact .inl (h.known other (.inr hstarted))

/-- The flow of an accept that failed is let go. -/
theorem Tracked.destroy (h : t.Tracked limit (some flow))
    (hs : t.step limit (.destroy flow) = some t') : t'.Tracked limit none := by
  have hsettled := h.settled.step hs
  simp only [Traffic.step, Option.ite_none_right_eq_some] at hs
  obtain ⟨⟨-, hidle⟩, hs⟩ := hs
  obtain rfl := Option.some.inj hs
  have hmem (other : Uuid) :
      other ∈ t.manager.connections_.filter (· ≠ flow) ↔
        other ∈ t.manager.connections_ ∧ other ≠ flow := by simp
  refine ⟨hsettled, h.distinct.filter _, ?_, by simp, ?_⟩
  · intro other
    show other ∈ t.manager.connections_.filter (· ≠ flow) ↔ _
    rw [hmem, h.held]
    constructor
    · rintro ⟨hlive | heq, hne⟩
      · exact .inl hlive
      · exact absurd (Option.some.inj heq).symm hne
    · rintro (hlive | hnone)
      · exact ⟨.inl hlive, fun heq => hidle (heq ▸ hlive.1)⟩
      · cases hnone
  · rintro other (hheld | hstarted)
    · exact h.known other (.inl ((hmem other).mp hheld).1)
    · exact h.known other (.inr hstarted)

/-- A flow that is accepted is served or waits, and no accept is left. -/
theorem Tracked.start (h : t.Tracked limit (some flow))
    (hs : t.step limit (.start flow) = some t') : t'.Tracked limit none := by
  have hsettled := h.settled.step hs
  simp only [Traffic.step, Option.ite_none_right_eq_some] at hs
  obtain ⟨⟨-, hidle⟩, hs⟩ := hs
  obtain rfl := Option.some.inj hs
  have hrunning : flow ∉ t.stopped := fun hstopped => hidle (h.settled.ended flow hstopped)
  have hconnections : (t.manager.start limit flow).connections_ = t.manager.connections_ := by
    unfold ConnectionManager.start
    split <;> rfl
  refine ⟨hsettled, ?_, ?_, by simp, ?_⟩
  · show (t.manager.start limit flow).connections_.Nodup
    rw [hconnections]
    exact h.distinct
  · intro other
    show other ∈ (t.manager.start limit flow).connections_ ↔ _
    rw [hconnections, h.held, List.mem_append, List.mem_singleton]
    constructor
    · rintro (⟨hstarted, hstopped⟩ | heq)
      · exact .inl ⟨.inl hstarted, hstopped⟩
      · obtain rfl := Option.some.inj heq
        exact .inl ⟨.inr rfl, hrunning⟩
    · rintro (⟨hstarted | rfl, hstopped⟩ | hnone)
      · exact .inl ⟨hstarted, hstopped⟩
      · exact .inr rfl
      · cases hnone
  · intro other hother
    show other ∈ t.created
    rw [hconnections, List.mem_append, List.mem_singleton] at hother
    rcases hother with hheld | hstarted | rfl
    · exact h.known other (.inl hheld)
    · exact h.known other (.inr hstarted)
    · exact h.known other (.inl ((h.held other).mpr (.inr rfl)))

theorem Tracked.stop {i : Nat} (h : t.Tracked limit accepting)
    (hs : t.step limit (.stop i) = some t') : t'.Tracked limit accepting := by
  have hsettled := h.settled.step hs
  obtain ⟨flow, hi, rfl⟩ := Option.map_eq_some_iff.mp hs
  have hserved : flow ∈ t.manager.services_ := List.mem_of_getElem? hi
  have hstarted : flow ∈ t.started :=
    ((h.settled.live flow).mp (List.mem_append_left _ hserved)).1
  have hconnections : (t.manager.stop limit i flow).connections_ =
      t.manager.connections_.filter (· ≠ flow) :=
    start_pending_loop_connections _
  have hmem (other : Uuid) :
      other ∈ (t.manager.stop limit i flow).connections_ ↔
        other ∈ t.manager.connections_ ∧ other ≠ flow := by simp [hconnections]
  refine ⟨hsettled, ?_, ?_, h.idle, ?_⟩
  · show (t.manager.stop limit i flow).connections_.Nodup
    rw [hconnections]
    exact h.distinct.filter _
  · intro other
    rw [hmem, h.held, List.mem_append, List.mem_singleton]
    constructor
    · rintro ⟨⟨hother, hrunning⟩ | heq, hne⟩
      · exact .inl ⟨hother, fun hor => hor.elim hrunning hne⟩
      · exact .inr heq
    · rintro (⟨hother, hnor⟩ | heq)
      · exact ⟨.inl ⟨hother, fun hstopped => hnor (.inl hstopped)⟩, fun hne => hnor (.inr hne)⟩
      · exact ⟨.inr heq, fun hne => h.idle other heq (hne ▸ hstarted)⟩
  · rintro other (hheld | hother)
    · exact h.known other (.inl ((hmem other).mp hheld).1)
    · exact h.known other (.inr hother)

theorem started_of_step {e : TrafficEvent} (hs : t.step limit e = some t')
    (he : ∀ flow, e ≠ .start flow) : t'.started = t.started := by
  cases e with
  | new_connection flow =>
    obtain ⟨-, hs⟩ := Option.ite_none_left_eq_some.mp hs
    exact Option.some.inj hs ▸ rfl
  | start flow => exact absurd rfl (he flow)
  | destroy flow =>
    obtain ⟨-, hs⟩ := Option.ite_none_right_eq_some.mp hs
    exact Option.some.inj hs ▸ rfl
  | stop i =>
    obtain ⟨flow, -, rfl⟩ := Option.map_eq_some_iff.mp hs
    rfl

/-- The map is the handlers, the queue and the accept. -/
theorem Tracked.perm (h : t.Tracked limit accepting) :
    t.manager.connections_.Perm
      (t.manager.services_ ++ t.manager.pending_connection_ids_ ++ accepting.toList) := by
  have hidle : ∀ flow ∈ t.manager.services_ ++ t.manager.pending_connection_ids_,
      ∀ other ∈ accepting.toList, flow ≠ other := by
    rintro flow hflow _ hother rfl
    exact h.idle flow (Option.mem_toList.mp hother) ((h.settled.live flow).mp hflow).1
  have hdistinct : (t.manager.services_ ++ t.manager.pending_connection_ids_ ++
      accepting.toList).Nodup :=
    List.nodup_append.mpr ⟨h.settled.once, by cases accepting <;> simp, hidle⟩
  refine (List.perm_ext_iff_of_nodup h.distinct hdistinct).mpr fun flow => ?_
  rw [h.held, List.mem_append, h.settled.live, Option.mem_toList]

end Traffic

end proxy.connection

namespace proxy.Acceptor

variable {limit : Nat} {a a' : Acceptor} {flow : Uuid}

/-! ## The pending accept -/

/-- An accept waits while the socket is open, and the socket is open until the acceptor is
stopped. -/
structure Tracked (limit : Nat) (a : Acceptor) : Prop where
  traffic : a.traffic.Tracked limit a.accepting
  waits : a.is_open = a.accepting.isSome
  runs : a.is_stopped_ = false → a.is_open = true

theorem tracked_init_accept {traffic : connection.Traffic}
    (htraffic : traffic.Tracked limit none) (hopen : a.is_open = true)
    (hs : { a with traffic := traffic }.init_accept limit flow = some a') : Tracked limit a' := by
  obtain ⟨traffic, hnew, rfl⟩ := init_accept_eq hs
  exact ⟨htraffic.new_connection hnew, hopen, fun _ => hopen⟩

theorem Tracked.step {e : AcceptorEvent} (h : Tracked limit a) (hs : step limit a e = some a') :
    Tracked limit a' := by
  cases e with
  | on_accept error next =>
    obtain ⟨flow, hflow, haccepts⟩ := step_on_accept hs
    have htraffic := h.traffic
    have hopen := h.waits
    rw [hflow] at htraffic hopen
    cases haccepts with
    | failed traffic destroys again =>
      exact tracked_init_accept (htraffic.destroy destroys) hopen again
    | accepted traffic starts running again =>
      exact tracked_init_accept (htraffic.start starts) hopen again
    | closed traffic starts stopped closes =>
      subst closes
      refine ⟨htraffic.start starts, rfl, ?_⟩
      intro hrunning
      rw [stopped] at hrunning
      cases hrunning
  | stop =>
    obtain rfl := Option.some.inj hs
    refine ⟨h.traffic, h.waits, ?_⟩
    intro hrunning
    cases hrunning
  | stop_service i =>
    obtain ⟨traffic, hstops, rfl⟩ := Option.map_eq_some_iff.mp hs
    exact ⟨h.traffic.stop hstops, h.waits, h.runs⟩
  | get_io_context =>
    obtain rfl := Option.some.inj hs
    exact ⟨h.traffic, h.waits, h.runs⟩

theorem tracked_throughout {pool : IoContextPool} (hstart : start limit pool flow = some a)
    (es : List AcceptorEvent) : Throughout (step limit) (Tracked limit) a es := by
  apply throughout_of_step
  · intro _ _ _ h hs
    exact h.step hs
  · exact tracked_init_accept (a := ⟨pool, .new, [], [], false, true, none⟩)
      connection.Traffic.tracked_new rfl hstart

theorem init_accept_of_fresh (hfresh : flow ∉ a.traffic.created) :
    ∃ a', a.init_accept limit flow = some a' := by
  simp only [init_accept, connection.Traffic.step, if_neg hfresh]
  exact ⟨_, rfl⟩

theorem Tracked.proceeds (h : Tracked limit a) (error : Bool) (hopen : a.is_open = true)
    (hfresh : flow ∉ a.traffic.created) :
    ∃ a', Acceptor.step limit a (.on_accept error flow) = some a' := by
  obtain ⟨accepted, haccepted⟩ := Option.isSome_iff_exists.mp (h.waits ▸ hopen)
  have hheld : accepted ∈ a.traffic.manager.connections_ ∧ accepted ∉ a.traffic.started :=
    ⟨(h.traffic.held accepted).mpr (.inr haccepted), h.traffic.idle accepted haccepted⟩
  simp only [Acceptor.step, haccepted, Option.bind_some, on_accept, connection.Traffic.step,
    if_pos hheld]
  split
  · exact init_accept_of_fresh hfresh
  · split
    · exact ⟨_, rfl⟩
    · exact init_accept_of_fresh hfresh

/-- What should hold of an acceptor and its manager. -/
structure Sound (limit : Nat) (a : Acceptor) : Prop where
  served : a.traffic.Served limit
  /-- No flow is left in the map by an accept that failed or a handler that stopped. -/
  connections : a.traffic.manager.connections_.Perm
    (a.traffic.manager.services_ ++ a.traffic.manager.pending_connection_ids_ ++
      a.accepting.toList)
  /-- No error ends the accepting. -/
  accepts : a.is_stopped_ = false → a.is_open = true ∧ a.accepting.isSome
  closed : a.is_open = false → a.is_stopped_ = true ∧ a.accepting = none
  /-- The manager takes what the acceptor gives it: a flow that it has, and that was not started. -/
  proceeds : ∀ error next, a.is_open = true → next ∉ a.traffic.created →
    ∃ a', step limit a (.on_accept error next) = some a'

theorem Tracked.sound (h : Tracked limit a) : Sound limit a where
  served := h.traffic.settled.served
  connections := h.traffic.perm
  accepts := by
    intro hrunning
    have hopen := h.runs hrunning
    exact ⟨hopen, h.waits ▸ hopen⟩
  closed := by
    intro hclosed
    refine ⟨Bool.eq_true_of_not_eq_false fun hrunning => ?_, ?_⟩
    · rw [h.runs hrunning] at hclosed
      cases hclosed
    · have hwaits := h.waits
      rw [hclosed] at hwaits
      exact Option.isNone_iff_eq_none.mp (Option.isSome_eq_false_iff.mp hwaits.symm)
  proceeds := by
    intro error next hopen hfresh
    exact h.proceeds error hopen hfresh

/-- Whatever the order in which accepts complete or fail, handlers stop and the acceptor is
stopped, the manager holds the flows that are served or wait and that of the pending accept and no
other one, and the acceptor accepts until it is stopped. -/
theorem the_acceptor_is_sound {pool : IoContextPool} (hstart : start limit pool flow = some a)
    (es : List AcceptorEvent) : Throughout (step limit) (Sound limit) a es :=
  Throughout.mono (fun _ => Tracked.sound) (tracked_throughout hstart es)

theorem an_acceptor_with_a_full_manager_is_sound : ∃ a, start 1 ⟨0, 2, by decide⟩ (someFlow 1) =
    some a ∧ Throughout (step 1) (Sound 1) a someAccepts := by
  have hstarts : (start 1 ⟨0, 2, by decide⟩ (someFlow 1)).isSome = true := by decide +kernel
  obtain ⟨a, ha⟩ := Option.isSome_iff_exists.mp hstarts
  exact ⟨a, ha, the_acceptor_is_sound ha someAccepts⟩

/-! ## The end of the accepting -/

/-- Of an acceptor that was stopped, a flow that it starts closes the socket. -/
theorem step_of_stopped {e : AcceptorEvent} (hstopped : a.is_stopped_ = true)
    (hs : step limit a e = some a') :
    a'.is_stopped_ = true ∧ ∃ flows, a'.traffic.started = a.traffic.started ++ flows ∧
      flows.length + a'.accepting.toList.length = a.accepting.toList.length := by
  cases e with
  | on_accept error next =>
    obtain ⟨flow, hflow, haccepts⟩ := step_on_accept hs
    rw [hflow]
    cases haccepts with
    | failed traffic destroys again =>
      obtain ⟨traffic', hnew, rfl⟩ := init_accept_eq again
      refine ⟨hstopped, [], ?_, rfl⟩
      show traffic'.started = a.traffic.started ++ []
      rw [List.append_nil, connection.Traffic.started_of_step hnew (by simp)]
      exact connection.Traffic.started_of_step destroys (by simp)
    | accepted traffic starts running again =>
      rw [hstopped] at running
      cases running
    | closed traffic starts stopped closes =>
      subst closes
      obtain ⟨-, hs⟩ := Option.ite_none_right_eq_some.mp starts
      exact ⟨hstopped, [flow], Option.some.inj hs ▸ rfl, rfl⟩
  | stop =>
    obtain rfl := Option.some.inj hs
    exact ⟨rfl, [], (List.append_nil _).symm, Nat.zero_add _⟩
  | stop_service i =>
    obtain ⟨traffic, hstops, rfl⟩ := Option.map_eq_some_iff.mp hs
    refine ⟨hstopped, [], ?_, Nat.zero_add _⟩
    rw [List.append_nil]
    exact connection.Traffic.started_of_step hstops (by simp)
  | get_io_context =>
    obtain rfl := Option.some.inj hs
    exact ⟨hstopped, [], (List.append_nil _).symm, Nat.zero_add _⟩

theorem run_of_stopped {es : List AcceptorEvent} (hstopped : a.is_stopped_ = true)
    (hs : run (step limit) a es = some a') :
    ∃ flows, a'.traffic.started = a.traffic.started ++ flows ∧
      flows.length + a'.accepting.toList.length = a.accepting.toList.length := by
  induction es generalizing a with
  | nil =>
    cases hs
    exact ⟨[], (List.append_nil _).symm, Nat.zero_add _⟩
  | cons e es ih =>
    obtain ⟨a₁, he, hs⟩ := Option.bind_eq_some_iff.mp hs
    obtain ⟨hstopped₁, begun, hbegun, hleft⟩ := step_of_stopped hstopped he
    obtain ⟨flows, hflows, hrest⟩ := ih hstopped₁ hs
    refine ⟨begun ++ flows, ?_, ?_⟩
    · rw [hflows, hbegun, List.append_assoc]
    · rw [List.length_append, Nat.add_assoc, hrest, hleft]

theorem Tracked.left (h : Tracked limit a) : a.accepting.toList.length = a.is_open.toNat := by
  rw [h.waits]
  cases a.accepting <;> rfl

/-- An acceptor that was stopped starts one flow more, if its socket is open still, and closes the
socket when it does. -/
theorem a_stopped_acceptor_starts_one_flow_more {pool : IoContextPool} {a₁ : Acceptor}
    {es es' : List AcceptorEvent} (hstart : start limit pool flow = some a)
    (hs : run (step limit) a es = some a₁) (hstopped : a₁.is_stopped_ = true)
    (hs' : run (step limit) a₁ es' = some a') :
    ∃ flows, a'.traffic.started = a₁.traffic.started ++ flows ∧
      flows.length + a'.is_open.toNat = a₁.is_open.toNat := by
  have hrun : run (step limit) a (es ++ es') = some a' := by
    rw [run_append, hs]
    exact hs'
  have h₁ : Tracked limit a₁ := (tracked_throughout hstart (es ++ [])).run hs
  have h' : Tracked limit a' := (tracked_throughout hstart (es ++ es' ++ [])).run hrun
  obtain ⟨flows, hflows, hleft⟩ := run_of_stopped hstopped hs'
  exact ⟨flows, hflows, by rw [← h'.left, hleft, h₁.left]⟩

theorem an_acceptor_is_stopped : ∃ a a₁ a', start 1 ⟨0, 2, by decide⟩ (someFlow 1) = some a ∧
    run (step 1) a [.stop] = some a₁ ∧ run (step 1) a₁ someAccepts.dropLast = some a' ∧
    ∃ flows, a'.traffic.started = a₁.traffic.started ++ flows ∧
      flows.length + a'.is_open.toNat = a₁.is_open.toNat := by
  have hruns : ((start 1 ⟨0, 2, by decide⟩ (someFlow 1)).bind fun a =>
      run (step 1) a ([.stop] ++ someAccepts.dropLast)).isSome = true := by decide +kernel
  obtain ⟨a', hruns⟩ := Option.isSome_iff_exists.mp hruns
  obtain ⟨a, hstart, hruns⟩ := Option.bind_eq_some_iff.mp hruns
  rw [run_append] at hruns
  obtain ⟨a₁, hs, hs'⟩ := Option.bind_eq_some_iff.mp hruns
  have hstopped : a₁.is_stopped_ = true := Option.some.inj hs ▸ rfl
  exact ⟨a, a₁, a', hstart, hs, hs',
    a_stopped_acceptor_starts_one_flow_more hstart hs hstopped hs'⟩

end proxy.Acceptor
