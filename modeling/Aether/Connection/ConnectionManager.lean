-- The manager of all connections, `connection/connection_manager.cpp`. A flow is known by
-- its id, and a handler by the flow that it serves.
import Aether.Util.Uuid

open util

namespace proxy.connection

structure ConnectionManager where
  /-- The keys of the map. -/
  connections_ : List Uuid
  /-- The front of the queue comes first. -/
  pending_connection_ids_ : List Uuid
  services_ : List Uuid
  /-- The flows whose handlers were told to start, in this order. -/
  posted : List Uuid

namespace ConnectionManager

def new : ConnectionManager := ⟨[], [], [], []⟩

/-- `new_connection`. A key that the map has is not emplaced again. -/
def new_connection (m : ConnectionManager) (flow : Uuid) : ConnectionManager :=
  if flow ∈ m.connections_ then m else { m with connections_ := m.connections_ ++ [flow] }

def start_service (m : ConnectionManager) (flow : Uuid) : ConnectionManager :=
  { m with services_ := m.services_ ++ [flow], posted := m.posted ++ [flow] }

def start (m : ConnectionManager) (connection_service_limit : Nat) (flow : Uuid) :
    ConnectionManager :=
  if m.services_.length < connection_service_limit then m.start_service flow
  else { m with pending_connection_ids_ := m.pending_connection_ids_ ++ [flow] }

def destroy (m : ConnectionManager) (flow : Uuid) : ConnectionManager :=
  { m with connections_ := m.connections_.filter (· ≠ flow) }

/-- The loop of `start_pending_connections` over what is left of the queue. -/
def start_pending_loop (connection_service_limit : Nat) :
    List Uuid → ConnectionManager → ConnectionManager
  | [], m => { m with pending_connection_ids_ := [] }
  | next_connection_id :: pending, m =>
    if m.services_.length < connection_service_limit then
      if next_connection_id ∈ m.connections_ then
        start_pending_loop connection_service_limit pending (m.start_service next_connection_id)
      -- The id does not reference any known connection.
      else start_pending_loop connection_service_limit pending m
    else { m with pending_connection_ids_ := next_connection_id :: pending }

def start_pending_connections (m : ConnectionManager) (connection_service_limit : Nat) :
    ConnectionManager :=
  start_pending_loop connection_service_limit m.pending_connection_ids_ m

/-- `stop`, of the handler at a position. -/
def stop (m : ConnectionManager) (connection_service_limit : Nat) (i : Nat) (flow : Uuid) :
    ConnectionManager :=
  { m with
    services_ := m.services_.eraseIdx i
    connections_ := m.connections_.filter (· ≠ flow) }.start_pending_connections
      connection_service_limit

end ConnectionManager

/-! ## Traffic -/

/-- A manager, and all flows that were created, started and stopped so far. -/
structure Traffic where
  manager : ConnectionManager
  created : List Uuid
  started : List Uuid
  stopped : List Uuid

inductive TrafficEvent where
  | new_connection (flow : Uuid)
  | start (flow : Uuid)
  | destroy (flow : Uuid)
  | stop (i : Nat)

namespace Traffic

def new : Traffic := ⟨.new, [], [], []⟩

/-- The ids of flows are distinct. A flow is started once, by the acceptor, or destroyed, and a
handler that is there may stop. -/
def step (connection_service_limit : Nat) (t : Traffic) : TrafficEvent → Option Traffic
  | .new_connection flow =>
    if flow ∈ t.created then none
    else some { t with
      manager := t.manager.new_connection flow
      created := t.created ++ [flow] }
  | .start flow =>
    if flow ∈ t.manager.connections_ ∧ flow ∉ t.started then
      some { t with
        manager := t.manager.start connection_service_limit flow
        started := t.started ++ [flow] }
    else none
  | .destroy flow =>
    if flow ∈ t.manager.connections_ ∧ flow ∉ t.started then
      some { t with manager := t.manager.destroy flow }
    else none
  | .stop i =>
    t.manager.services_[i]?.map (fun flow => { t with
      manager := t.manager.stop connection_service_limit i flow
      stopped := t.stopped ++ [flow] })

end Traffic

end proxy.connection
