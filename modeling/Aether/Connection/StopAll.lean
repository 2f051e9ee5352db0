-- `stop_all` of `connection/connection_manager.cpp`, with the mutex of the manager and the
-- callbacks of the handlers.
--
-- `stop_all` holds `data_mutex_` over its loop. A handler that is stopped calls back into
-- `connection_manager::stop`, which locks the mutex again, and it is no recursive one.
import Aether.Connection.ConnectionManager
import Mathlib.Data.List.Perm.Basic

open util

namespace proxy.connection

/-- How a call does not return. -/
inductive Stuck where
  /-- It waits for a mutex that its own thread holds. -/
  | deadlock
  /-- An assertion ends the program. -/
  | terminated
  /-- Behaviour that the language does not define. -/
  | undefined
  deriving DecidableEq, Repr

/-- A manager as the thread of a call sees it. -/
structure ManagedFlows where
  manager : ConnectionManager
  /-- Whether the thread holds the mutex. -/
  data_mutex_ : Bool
  /-- The flows whose handlers have started, and so have their `on_finished_`. -/
  on_finished_ : List Uuid
  /-- The flows that were disconnected, in this order. -/
  disconnected : List Uuid

namespace ManagedFlows

def lock (s : ManagedFlows) : Except Stuck ManagedFlows :=
  if s.data_mutex_ then .error .deadlock else .ok { s with data_mutex_ := true }

def unlock (s : ManagedFlows) : ManagedFlows := { s with data_mutex_ := false }

/-- `start_service` has posted the start of a handler, which runs. -/
def run_start (s : ManagedFlows) (flow : Uuid) : ManagedFlows :=
  { s with on_finished_ := s.on_finished_ ++ [flow] }

/-- `connection_manager::stop`, of the handler of a flow. -/
def stop (connection_service_limit : Nat) (flow : Uuid) (s : ManagedFlows) :
    Except Stuck ManagedFlows := do
  let s ← s.lock
  let i := s.manager.services_.idxOf flow
  return { s with manager := s.manager.stop connection_service_limit i flow }.unlock

/-- `connection_handler::stop`. An empty `on_finished_` asserts that it is not called. -/
def stop_handler (connection_service_limit : Nat) (flow : Uuid) (s : ManagedFlows) :
    Except Stuck ManagedFlows :=
  let s := { s with disconnected := s.disconnected ++ [flow] }
  if flow ∈ s.on_finished_ then s.stop connection_service_limit flow else .error .terminated

/-- The loop over the handlers. The iterator is advanced from the handler of the turn, which must
still be in the set. -/
def stop_handlers (connection_service_limit : Nat) :
    List Uuid → ManagedFlows → Except Stuck ManagedFlows
  | [], s => .ok s
  | flow :: services, s => do
    let s ← s.stop_handler connection_service_limit flow
    if flow ∈ s.manager.services_ then stop_handlers connection_service_limit services s
    else .error .undefined

def stop_all (connection_service_limit : Nat) (s : ManagedFlows) : Except Stuck ManagedFlows := do
  let s ← s.lock
  let s ← s.stop_handlers connection_service_limit s.manager.services_
  return { s with manager := { s.manager with pending_connection_ids_ := [] } }.unlock

/-! ## What `stop_all` is for -/

/-- All handlers are stopped once and removed with their flows, no flow waits, and none is
started. -/
structure AllStopped (s s' : ManagedFlows) : Prop where
  once : ∃ stopped, s'.disconnected = s.disconnected ++ stopped ∧ stopped.Perm s.manager.services_
  none_started : s'.manager.posted = s.manager.posted
  services : s'.manager.services_ = []
  pending : s'.manager.pending_connection_ids_ = []
  flows : ∀ flow ∈ s.manager.services_, flow ∉ s'.manager.connections_

variable {connection_service_limit : Nat} {s : ManagedFlows} {flow : Uuid} {services : List Uuid}

/-- A handler that stops by itself returns, and the manager goes on without it. -/
theorem stop_handler_of_free (hfree : s.data_mutex_ = false) (hstarted : flow ∈ s.on_finished_) :
    s.stop_handler connection_service_limit flow = .ok { s with
      manager := s.manager.stop connection_service_limit (s.manager.services_.idxOf flow) flow
      disconnected := s.disconnected ++ [flow] } := by
  unfold stop_handler
  rw [if_pos hstarted]
  unfold stop lock
  simp only [hfree]
  rfl

/-- Under the mutex, no handler is stopped: its callback waits for the mutex, or it is not there
yet. -/
theorem stop_handler_of_held (hheld : s.data_mutex_ = true) :
    s.stop_handler connection_service_limit flow =
      .error (if flow ∈ s.on_finished_ then .deadlock else .terminated) := by
  unfold stop_handler
  simp only
  split
  · unfold stop lock
    simp only [hheld]
    rfl
  · rfl

/-- With a handler, `stop_all` does not get behind the first one. -/
theorem stop_all_of_cons (hfree : s.data_mutex_ = false)
    (h : s.manager.services_ = flow :: services) :
    s.stop_all connection_service_limit =
      .error (if flow ∈ s.on_finished_ then .deadlock else .terminated) := by
  have hlock : s.lock = .ok { s with data_mutex_ := true } := by
    simp only [lock, hfree]
    rfl
  have hheld : ({ s with data_mutex_ := true } : ManagedFlows).stop_handler
      connection_service_limit flow =
        .error (if flow ∈ s.on_finished_ then .deadlock else .terminated) :=
    stop_handler_of_held rfl
  unfold stop_all
  rw [hlock]
  show (stop_handlers _ s.manager.services_ _ >>= _) = _
  rw [h, stop_handlers, hheld]
  rfl

theorem stop_all_of_nil (hfree : s.data_mutex_ = false) (h : s.manager.services_ = []) :
    s.stop_all connection_service_limit =
      .ok { s with manager := { s.manager with pending_connection_ids_ := [] } } := by
  obtain ⟨manager, held, on_finished, disconnected⟩ := s
  simp only at hfree h
  subst hfree
  unfold stop_all
  show (stop_handlers _ manager.services_ _ >>= _) = _
  rw [h]
  rfl

/-- `stop_all` returns with all handlers stopped exactly when there is none. -/
theorem stop_all_returns_iff (hfree : s.data_mutex_ = false) (connection_service_limit : Nat) :
    (∃ s', s.stop_all connection_service_limit = .ok s' ∧ s.AllStopped s') ↔
      s.manager.services_ = [] := by
  constructor
  · rintro ⟨s', hreturns, -⟩
    cases hservices : s.manager.services_ with
    | nil => rfl
    | cons flow services =>
      rw [stop_all_of_cons hfree hservices] at hreturns
      cases hreturns
  · intro hnone
    refine ⟨_, stop_all_of_nil hfree hnone, ?_⟩
    refine ⟨⟨[], (List.append_nil _).symm, by rw [hnone]⟩, rfl, hnone, rfl, ?_⟩
    intro flow hflow
    rw [hnone] at hflow
    cases hflow

def some_flow : Uuid := ⟨0, 0, 0, 0, 0, Vector.replicate 6 0⟩

theorem stop_all_returns_with_a_pending_flow :
    (⟨(ConnectionManager.new.new_connection some_flow).start 0 some_flow, false, [], []⟩ :
      ManagedFlows).data_mutex_ = false ∧
    ((∃ s', (⟨(ConnectionManager.new.new_connection some_flow).start 0 some_flow, false, [], []⟩ :
        ManagedFlows).stop_all 0 = .ok s' ∧
      (⟨(ConnectionManager.new.new_connection some_flow).start 0 some_flow, false, [], []⟩ :
        ManagedFlows).AllStopped s') ↔
      ((ConnectionManager.new.new_connection some_flow).start 0 some_flow).services_ = []) :=
  ⟨rfl, stop_all_returns_iff (s := ⟨(ConnectionManager.new.new_connection some_flow).start 0
    some_flow, false, [], []⟩) rfl 0⟩

/-- With one handler that has started, `stop_all` waits for its own mutex. -/
theorem stop_all_waits_for_itself :
    ¬ ∀ (s : ManagedFlows) (connection_service_limit : Nat), s.data_mutex_ = false →
      ∃ s', s.stop_all connection_service_limit = .ok s' ∧ s.AllStopped s' := by
  intro h
  let manager := (ConnectionManager.new.new_connection some_flow).start 1 some_flow
  let s := ManagedFlows.run_start ⟨manager, false, [], []⟩ some_flow
  obtain ⟨s', hreturns, -⟩ := h s 1 rfl
  have hone : s.manager.services_ = some_flow :: [] := rfl
  rw [stop_all_of_cons rfl hone] at hreturns
  cases hreturns

end ManagedFlows

end proxy.connection
