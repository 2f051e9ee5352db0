-- The flows of a manager over its calls: a flow that was started is served by one
-- handler or waits its turn, and no one waits while there is room.
import Aether.Connection.ConnectionManager
import Aether.Lib.Runs
import Mathlib.Data.List.Nodup

open util lib.runs

namespace proxy.connection

/-! ## What should hold of the traffic -/

/-- The flow has a handler, or a place in the queue, and just one of both. -/
def ConnectionManager.HasOnePlace (m : ConnectionManager) (flow : Uuid) : Prop :=
  (m.services_.count flow = 1 ∧ flow ∉ m.pending_connection_ids_) ∨
    (flow ∉ m.services_ ∧ m.pending_connection_ids_.count flow = 1)

structure Traffic.Served (connection_service_limit : Nat) (t : Traffic) : Prop where
  bound : t.manager.services_.length ≤ connection_service_limit
  flows : ∀ flow ∈ t.started, flow ∉ t.stopped →
    flow ∈ t.manager.connections_ ∧ t.manager.HasOnePlace flow
  room : t.manager.services_.length < connection_service_limit →
    t.manager.pending_connection_ids_ = []
  /-- The flows that wait are the newest, in the order in which they were started. -/
  order : t.manager.posted ++ t.manager.pending_connection_ids_ = t.started

/-! ## The invariant -/

/-- The handlers and the queue together have each flow that was started and did not stop once. -/
structure Traffic.Settled (connection_service_limit : Nat) (t : Traffic) : Prop where
  bound : t.manager.services_.length ≤ connection_service_limit
  room : t.manager.services_.length < connection_service_limit →
    t.manager.pending_connection_ids_ = []
  order : t.manager.posted ++ t.manager.pending_connection_ids_ = t.started
  once : (t.manager.services_ ++ t.manager.pending_connection_ids_).Nodup
  live : ∀ flow, flow ∈ t.manager.services_ ++ t.manager.pending_connection_ids_ ↔
    flow ∈ t.started ∧ flow ∉ t.stopped
  held : ∀ flow ∈ t.manager.services_ ++ t.manager.pending_connection_ids_,
    flow ∈ t.manager.connections_
  ended : ∀ flow ∈ t.stopped, flow ∈ t.started

variable {connection_service_limit : Nat} {m : ConnectionManager} {t : Traffic} {flow : Uuid}

/-- The loop starts the flows at the front of the queue for which there is room. -/
theorem start_pending_loop_begins (pending : List Uuid)
    (hheld : ∀ flow ∈ pending, flow ∈ m.connections_)
    (hbound : m.services_.length ≤ connection_service_limit) :
    ∃ begun left, begun ++ left = pending ∧
      ConnectionManager.start_pending_loop connection_service_limit pending m =
        { m with
          services_ := m.services_ ++ begun
          posted := m.posted ++ begun
          pending_connection_ids_ := left } ∧
      (m.services_ ++ begun).length ≤ connection_service_limit ∧
      ((m.services_ ++ begun).length < connection_service_limit → left = []) := by
  induction pending generalizing m with
  | nil => exact ⟨[], [], rfl, by simp [ConnectionManager.start_pending_loop], by simpa, by simp⟩
  | cons next pending ih =>
    unfold ConnectionManager.start_pending_loop
    by_cases hroom : m.services_.length < connection_service_limit
    · have hnext : next ∈ m.connections_ := hheld next List.mem_cons_self
      have hrest : ∀ flow ∈ pending, flow ∈ (m.start_service next).connections_ :=
        fun flow hflow => hheld flow (List.mem_cons_of_mem _ hflow)
      have hbound' : (m.start_service next).services_.length ≤ connection_service_limit := by
        rw [ConnectionManager.start_service, List.length_append]
        exact hroom
      obtain ⟨begun, left, hparts, hloop, hfits, hleft⟩ := ih hrest hbound'
      rw [if_pos hroom, if_pos hnext, hloop]
      refine ⟨next :: begun, left, by simp [hparts], ?_, ?_, ?_⟩
      · simp [ConnectionManager.start_service]
      · simpa [ConnectionManager.start_service] using hfits
      · simpa [ConnectionManager.start_service] using hleft
    · rw [if_neg hroom]
      refine ⟨[], next :: pending, rfl, by simp, by simpa using hbound, ?_⟩
      intro hlt
      rw [List.append_nil] at hlt
      exact absurd hlt hroom

namespace Traffic

theorem settled_new : Settled connection_service_limit .new where
  bound := Nat.zero_le _
  room := by simp [new, ConnectionManager.new]
  order := rfl
  once := List.nodup_nil
  live := by simp [new, ConnectionManager.new]
  held := by simp [new, ConnectionManager.new]
  ended := by simp [new]

/-! ## Steps -/

theorem Settled.new_connection (h : t.Settled connection_service_limit) (flow : Uuid) :
    Settled connection_service_limit { t with
      manager := t.manager.new_connection flow
      created := t.created ++ [flow] } := by
  unfold ConnectionManager.new_connection
  split
  · exact ⟨h.bound, h.room, h.order, h.once, h.live, h.held, h.ended⟩
  · refine ⟨h.bound, h.room, h.order, h.once, h.live, ?_, h.ended⟩
    intro other hother
    exact List.mem_append_left _ (h.held other hother)

/-- A flow that was never started is none of those that are served or wait. -/
theorem Settled.destroy (h : t.Settled connection_service_limit) (hflow : flow ∉ t.started) :
    Settled connection_service_limit { t with manager := t.manager.destroy flow } := by
  refine ⟨h.bound, h.room, h.order, h.once, h.live, ?_, h.ended⟩
  intro other hother
  have hne : other ≠ flow := by
    rintro rfl
    exact hflow ((h.live other).mp hother).1
  exact List.mem_filter.mpr ⟨h.held other hother, by simpa using hne⟩

theorem Settled.start (h : t.Settled connection_service_limit)
    (hheld : flow ∈ t.manager.connections_) (hflow : flow ∉ t.started) :
    Settled connection_service_limit { t with
      manager := t.manager.start connection_service_limit flow
      started := t.started ++ [flow] } := by
  have hnew : flow ∉ t.manager.services_ ++ t.manager.pending_connection_ids_ :=
    fun hmem => hflow ((h.live flow).mp hmem).1
  have hrunning : flow ∉ t.stopped := fun hstopped => hflow (h.ended flow hstopped)
  have hlive : ∀ other, (other ∈ t.manager.services_ ++ t.manager.pending_connection_ids_ ∨
      other = flow) ↔ other ∈ t.started ++ [flow] ∧ other ∉ t.stopped := by
    intro other
    rw [h.live, List.mem_append, List.mem_singleton]
    constructor
    · rintro (⟨hstarted, hstopped⟩ | rfl)
      · exact ⟨.inl hstarted, hstopped⟩
      · exact ⟨.inr rfl, hrunning⟩
    · rintro ⟨hstarted | rfl, hstopped⟩
      · exact .inl ⟨hstarted, hstopped⟩
      · exact .inr rfl
  have hheld' : ∀ other, (other ∈ t.manager.services_ ++ t.manager.pending_connection_ids_ ∨
      other = flow) → other ∈ t.manager.connections_ := by
    rintro other (hother | rfl)
    · exact h.held other hother
    · exact hheld
  have hended : ∀ other ∈ t.stopped, other ∈ t.started ++ [flow] :=
    fun other hother => List.mem_append_left _ (h.ended other hother)
  unfold ConnectionManager.start
  by_cases hroom : t.manager.services_.length < connection_service_limit
  · -- No one waits, and the flow is served at once.
    have hempty := h.room hroom
    have horder := h.order
    have honce := h.once
    rw [hempty, List.append_nil] at horder honce hnew
    simp only [hempty, List.append_nil] at hlive hheld'
    rw [if_pos hroom]
    refine ⟨?_, fun _ => hempty, ?_, ?_, ?_, ?_, hended⟩
    · rw [ConnectionManager.start_service, List.length_append]
      exact hroom
    · simp [ConnectionManager.start_service, hempty, horder]
    · rw [ConnectionManager.start_service, hempty, List.append_nil]
      exact (List.perm_append_singleton flow _).nodup_iff.mpr (List.nodup_cons.mpr ⟨hnew, honce⟩)
    · simpa [ConnectionManager.start_service, hempty] using hlive
    · simpa [ConnectionManager.start_service, hempty] using hheld'
  · rw [if_neg hroom]
    refine ⟨h.bound, fun hlt => absurd hlt hroom, ?_, ?_, ?_, ?_, hended⟩
    · rw [← List.append_assoc, h.order]
    · rw [← List.append_assoc]
      exact (List.perm_append_singleton flow _).nodup_iff.mpr (List.nodup_cons.mpr ⟨hnew, h.once⟩)
    · intro other
      rw [← List.append_assoc, List.mem_append, List.mem_singleton]
      exact hlive other
    · intro other hother
      rw [← List.append_assoc, List.mem_append, List.mem_singleton] at hother
      exact hheld' other hother

/-- A handler that stops makes room for the front of the queue. -/
theorem Settled.stop (h : t.Settled connection_service_limit) {i : Nat}
    (hi : t.manager.services_[i]? = some flow) :
    Settled connection_service_limit { t with
      manager := t.manager.stop connection_service_limit i flow
      stopped := t.stopped ++ [flow] } := by
  obtain ⟨hlt, hget⟩ := List.getElem?_eq_some_iff.mp hi
  obtain ⟨hservices, hpending, hdisjoint⟩ := List.nodup_append.mp h.once
  have hserved : flow ∈ t.manager.services_ := hget ▸ List.getElem_mem hlt
  have herase : t.manager.services_.eraseIdx i = t.manager.services_.erase flow := by
    rw [List.erase_eq_eraseIdx_of_idxOf (hget ▸ hservices.idxOf_getElem i hlt)]
  have hmem : ∀ other, other ∈ t.manager.services_.eraseIdx i ++ t.manager.pending_connection_ids_ ↔
      other ∈ t.manager.services_ ++ t.manager.pending_connection_ids_ ∧ other ≠ flow := by
    intro other
    rw [herase, List.mem_append, List.mem_append, hservices.mem_erase_iff]
    constructor
    · rintro (⟨hne, hother⟩ | hother)
      · exact ⟨.inl hother, hne⟩
      · exact ⟨.inr hother, fun heq => hdisjoint flow hserved other hother heq.symm⟩
    · rintro ⟨hother | hother, hne⟩
      · exact .inl ⟨hne, hother⟩
      · exact .inr hother
  have hheld : ∀ other ∈ t.manager.services_.eraseIdx i ++ t.manager.pending_connection_ids_,
      other ∈ t.manager.connections_.filter (· ≠ flow) := by
    intro other hother
    obtain ⟨hother, hne⟩ := (hmem other).mp hother
    exact List.mem_filter.mpr ⟨h.held other hother, by simpa using hne⟩
  have hbound : (t.manager.services_.eraseIdx i).length ≤ connection_service_limit :=
    (List.length_eraseIdx_le _ _).trans h.bound
  obtain ⟨begun, left, hparts, hloop, hfits, hleft⟩ :=
    start_pending_loop_begins (m := { t.manager with
        services_ := t.manager.services_.eraseIdx i
        connections_ := t.manager.connections_.filter (· ≠ flow) })
      t.manager.pending_connection_ids_ (fun other hother => hheld other
        (List.mem_append_right _ hother)) hbound
  have hrest : t.manager.services_.eraseIdx i ++ begun ++ left =
      t.manager.services_.eraseIdx i ++ t.manager.pending_connection_ids_ := by
    rw [List.append_assoc, hparts]
  unfold ConnectionManager.stop ConnectionManager.start_pending_connections
  simp only [hloop]
  refine ⟨hfits, hleft, ?_, ?_, ?_, ?_, ?_⟩
  · show t.manager.posted ++ begun ++ left = t.started
    rw [List.append_assoc, hparts, h.order]
  · show (t.manager.services_.eraseIdx i ++ begun ++ left).Nodup
    rw [hrest, herase]
    exact List.nodup_append.mpr ⟨hservices.erase flow, hpending, fun a ha b hb =>
      hdisjoint a (List.mem_of_mem_erase ha) b hb⟩
  · intro other
    show other ∈ t.manager.services_.eraseIdx i ++ begun ++ left ↔ _
    rw [hrest, hmem, h.live, List.mem_append, List.mem_singleton]
    constructor
    · rintro ⟨⟨hstarted, hstopped⟩, hne⟩
      exact ⟨hstarted, fun hor => hor.elim hstopped hne⟩
    · rintro ⟨hstarted, hnor⟩
      exact ⟨⟨hstarted, fun hstopped => hnor (.inl hstopped)⟩, fun heq => hnor (.inr heq)⟩
  · show ∀ other ∈ t.manager.services_.eraseIdx i ++ begun ++ left, _
    rw [hrest]
    exact hheld
  · intro other hother
    rcases List.mem_append.mp hother with hother | hother
    · exact h.ended other hother
    · rw [List.mem_singleton.mp hother]
      exact ((h.live flow).mp (List.mem_append_left _ hserved)).1

theorem Settled.step {t' : Traffic} {e : TrafficEvent} (h : t.Settled connection_service_limit)
    (hs : t.step connection_service_limit e = some t') : t'.Settled connection_service_limit := by
  cases e with
  | new_connection flow =>
    simp only [Traffic.step, Option.ite_none_left_eq_some] at hs
    obtain ⟨-, hs⟩ := hs
    cases hs
    exact h.new_connection flow
  | start flow =>
    simp only [Traffic.step, Option.ite_none_right_eq_some] at hs
    obtain ⟨⟨hheld, hflow⟩, hs⟩ := hs
    cases hs
    exact h.start hheld hflow
  | destroy flow =>
    simp only [Traffic.step, Option.ite_none_right_eq_some] at hs
    obtain ⟨⟨-, hflow⟩, hs⟩ := hs
    cases hs
    exact h.destroy hflow
  | stop i =>
    simp only [Traffic.step, Option.map_eq_some_iff] at hs
    obtain ⟨flow, hi, hs⟩ := hs
    cases hs
    exact h.stop hi

/-! ## Runs -/

theorem Settled.served (h : t.Settled connection_service_limit) :
    t.Served connection_service_limit := by
  obtain ⟨hservices, hpending, hdisjoint⟩ := List.nodup_append.mp h.once
  refine ⟨h.bound, ?_, h.room, h.order⟩
  intro flow hstarted hrunning
  have hmem := (h.live flow).mpr ⟨hstarted, hrunning⟩
  refine ⟨h.held flow hmem, ?_⟩
  rcases List.mem_append.mp hmem with hserved | hwaits
  · left
    exact ⟨List.count_eq_one_of_mem hservices hserved,
      fun hwaits => hdisjoint flow hserved flow hwaits rfl⟩
  · right
    exact ⟨fun hserved => hdisjoint flow hserved flow hwaits rfl,
      List.count_eq_one_of_mem hpending hwaits⟩

/-- In whatever order flows come, start and stop, each one is served or waits, within the limit and
in the order of the starts. -/
theorem the_flows_are_served (connection_service_limit : Nat) (es : List TrafficEvent) :
    Throughout (step connection_service_limit) (Served connection_service_limit) new es := by
  apply Throughout.mono (fun t => Settled.served)
  apply throughout_of_step
  · intro t e t' h hs
    exact h.step hs
  · exact settled_new

end Traffic

end proxy.connection
