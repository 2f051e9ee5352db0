-- The acceptor, `acceptor.cpp`, over the manager of the connections and the pool of contexts,
-- `concurrent/io_context_pool.cpp`.
--
-- The system takes a step when an accept completes, when the server tells the acceptor to stop,
-- when a handler of the manager stops, and when a command takes a context of the pool. The id of
-- the next flow comes with the event that creates it. The pool has no lock: a call for a context
-- is one step here. The options of the socket and its endpoint are left out.
import Aether.Connection.ServedFlows
import Aether.Lib.RoundRobin

open util lib.runs lib.round_robin

namespace proxy

/-! ## Contexts -/

/-- `io_context_pool`. A context is its index. -/
structure IoContextPool where
  next_ : Nat
  size_ : Nat
  in_range : next_ < size_

namespace IoContextPool

/-- `create`. A pool of no threads is an error. -/
def create (size : Nat) : Option IoContextPool :=
  if h : 0 < size then some ⟨0, size, h⟩ else none

def get_io_context (p : IoContextPool) : Nat × IoContextPool :=
  (p.next_,
    if h : p.next_ + 1 < p.size_ then ⟨p.next_ + 1, p.size_, h⟩
    else ⟨0, p.size_, Nat.zero_lt_of_lt p.in_range⟩)

theorem size_get_io_context (p : IoContextPool) : p.get_io_context.2.size_ = p.size_ := by
  unfold get_io_context
  simp only
  split <;> rfl

theorem next_get_io_context (p : IoContextPool) :
    p.get_io_context.2.next_ = (p.next_ + 1) % p.size_ := by
  have hrange := p.in_range
  unfold get_io_context
  simp only
  split
  · rename_i hlt
    exact (Nat.mod_eq_of_lt hlt).symm
  · have hlast : p.next_ + 1 = p.size_ := by omega
    rw [hlast, Nat.mod_self]

end IoContextPool

/-! ## The acceptor -/

/-- `acceptor`, with what it uses. The contexts are those of all flows that were created, and the
flow that an accept waits for is there while the socket is open. -/
structure Acceptor where
  io_contexts_ : IoContextPool
  traffic : connection.Traffic
  contexts : List Nat
  /-- The contexts that the handlers of signals were given. -/
  command_contexts : List Nat
  is_stopped_ : Bool
  is_open : Bool
  accepting : Option Uuid

inductive AcceptorEvent where
  /-- An accept completes. If there is another one, its flow has this id. -/
  | on_accept (error : Bool) (next : Uuid)
  | stop
  /-- The handler at a position stops. -/
  | stop_service (i : Nat)
  /-- `server::get_io_context`, which the commands `stats watch` and `logs` call. -/
  | get_io_context

namespace Acceptor

open connection (Traffic TrafficEvent)

/-- `init_accept`. -/
def init_accept (connection_service_limit : Nat) (a : Acceptor) (flow : Uuid) : Option Acceptor :=
  let (context, io_contexts) := a.io_contexts_.get_io_context
  (a.traffic.step connection_service_limit (.new_connection flow)).map fun traffic =>
    { a with
      io_contexts_ := io_contexts
      traffic := traffic
      contexts := a.contexts ++ [context]
      accepting := some flow }

/-- `start`, with the pool as it is then. -/
def start (connection_service_limit : Nat) (pool : IoContextPool) (flow : Uuid) :
    Option Acceptor :=
  init_accept connection_service_limit ⟨pool, .new, [], [], false, true, none⟩ flow

/-- `on_accept`. -/
def on_accept (connection_service_limit : Nat) (a : Acceptor) (connection : Uuid) (error : Bool)
    (next : Uuid) : Option Acceptor :=
  if error then
    (a.traffic.step connection_service_limit (.destroy connection)).bind fun traffic =>
      { a with traffic := traffic }.init_accept connection_service_limit next
  else
    (a.traffic.step connection_service_limit (.start connection)).bind fun traffic =>
      if a.is_stopped_ then
        -- The socket is closed.
        some { a with traffic := traffic, is_open := false, accepting := none }
      else { a with traffic := traffic }.init_accept connection_service_limit next

def step (connection_service_limit : Nat) (a : Acceptor) : AcceptorEvent → Option Acceptor
  | .on_accept error next =>
    a.accepting.bind fun connection => a.on_accept connection_service_limit connection error next
  | .stop => some { a with is_stopped_ := true }
  | .stop_service i =>
    (a.traffic.step connection_service_limit (.stop i)).map fun traffic =>
      { a with traffic := traffic }
  | .get_io_context =>
    let (context, io_contexts) := a.io_contexts_.get_io_context
    some { a with
      io_contexts_ := io_contexts
      command_contexts := a.command_contexts ++ [context] }

/-! ## Steps -/

variable {limit : Nat} {a a' : Acceptor} {flow : Uuid}

theorem init_accept_eq (hs : a.init_accept limit flow = some a') :
    ∃ traffic, a.traffic.step limit (.new_connection flow) = some traffic ∧
      a' = { a with
        io_contexts_ := a.io_contexts_.get_io_context.2
        traffic := traffic
        contexts := a.contexts ++ [a.io_contexts_.get_io_context.1]
        accepting := some flow } := by
  obtain ⟨traffic, htraffic, rfl⟩ := Option.map_eq_some_iff.mp hs
  exact ⟨traffic, htraffic, rfl⟩

/-- An accept completes: with an error another one begins, and with a connection that is started
one begins if the acceptor was not stopped. -/
inductive Accepts (limit : Nat) (a : Acceptor) (flow next : Uuid) (a' : Acceptor) : Prop
  | failed (traffic : Traffic) (destroys : a.traffic.step limit (.destroy flow) = some traffic)
      (again : { a with traffic := traffic }.init_accept limit next = some a')
  | accepted (traffic : Traffic) (starts : a.traffic.step limit (.start flow) = some traffic)
      (running : a.is_stopped_ = false)
      (again : { a with traffic := traffic }.init_accept limit next = some a')
  | closed (traffic : Traffic) (starts : a.traffic.step limit (.start flow) = some traffic)
      (stopped : a.is_stopped_ = true)
      (closes : a' = { a with traffic := traffic, is_open := false, accepting := none })

theorem step_on_accept {error : Bool} {next : Uuid}
    (hs : step limit a (.on_accept error next) = some a') :
    ∃ flow, a.accepting = some flow ∧ Accepts limit a flow next a' := by
  obtain ⟨flow, hflow, hs⟩ := Option.bind_eq_some_iff.mp hs
  refine ⟨flow, hflow, ?_⟩
  unfold on_accept at hs
  split at hs
  · obtain ⟨traffic, hdestroys, hs⟩ := Option.bind_eq_some_iff.mp hs
    exact .failed traffic hdestroys hs
  · obtain ⟨traffic, hstarts, hs⟩ := Option.bind_eq_some_iff.mp hs
    split at hs
    · rename_i hstopped
      exact .closed traffic hstarts hstopped (Option.some.inj hs).symm
    · rename_i hrunning
      exact .accepted traffic hstarts (Bool.not_eq_true _ ▸ hrunning) hs

/-! ## Contexts of the flows -/

def taken (a : Acceptor) : List Nat := a.contexts ++ a.command_contexts

/-- The contexts were taken in turn, from the first. -/
structure InTurn (size first : Nat) (a : Acceptor) : Prop where
  pool : a.io_contexts_.size_ = size
  taken : a.taken.Perm (turns size first a.taken.length)
  next : a.io_contexts_.next_ = (first + a.taken.length) % size

variable {size first : Nat}

/-- Another context is taken, by a flow or by a command. -/
theorem InTurn.take (h : InTurn size first a)
    (hpool : a'.io_contexts_ = a.io_contexts_.get_io_context.2)
    (htaken : a'.taken.Perm (a.io_contexts_.get_io_context.1 :: a.taken)) :
    InTurn size first a' := by
  have hcontext : a.io_contexts_.get_io_context.1 = (first + a.taken.length) % size := h.next
  have hlength : a'.taken.length = a.taken.length + 1 := htaken.length_eq
  refine ⟨?_, ?_, ?_⟩
  · rw [hpool, a.io_contexts_.size_get_io_context, h.pool]
  · rw [hlength]
    rw [hcontext] at htaken
    exact htaken.trans (perm_turns_succ h.taken)
  · rw [hpool, a.io_contexts_.next_get_io_context, h.next, h.pool, hlength, Nat.mod_add_mod,
      Nat.add_assoc]

theorem InTurn.init_accept (h : InTurn size first a) (hs : a.init_accept limit flow = some a') :
    InTurn size first a' := by
  obtain ⟨traffic, -, rfl⟩ := init_accept_eq hs
  refine h.take rfl ?_
  show ((a.contexts ++ [_]) ++ a.command_contexts).Perm _
  rw [List.append_assoc]
  exact List.perm_middle

theorem InTurn.step {e : AcceptorEvent} (h : InTurn size first a)
    (hs : step limit a e = some a') : InTurn size first a' := by
  -- The pool and the contexts stay as the traffic changes.
  have hkeep (traffic : Traffic) : InTurn size first { a with traffic := traffic } :=
    ⟨h.pool, h.taken, h.next⟩
  cases e with
  | on_accept error next =>
    obtain ⟨flow, -, haccepts⟩ := step_on_accept hs
    cases haccepts with
    | failed traffic destroys again => exact (hkeep traffic).init_accept again
    | accepted traffic starts running again => exact (hkeep traffic).init_accept again
    | closed traffic starts stopped closes =>
      subst closes
      exact ⟨h.pool, h.taken, h.next⟩
  | stop =>
    obtain rfl := Option.some.inj hs
    exact ⟨h.pool, h.taken, h.next⟩
  | stop_service i =>
    obtain ⟨traffic, -, rfl⟩ := Option.map_eq_some_iff.mp hs
    exact hkeep traffic
  | get_io_context =>
    obtain rfl := Option.some.inj hs
    refine h.take rfl ?_
    show (a.contexts ++ (a.command_contexts ++ [_])).Perm _
    rw [← List.append_assoc]
    exact List.perm_append_singleton _ _

/-- In every run no context is taken, by the flows and the commands together, more than once more
than any other one is. -/
theorem the_contexts_are_shared_evenly {pool : IoContextPool} {es : List AcceptorEvent} {i j : Nat}
    (hstart : start limit pool flow = some a) (hs : run (step limit) a es = some a')
    (hi : i < pool.size_) (hj : j < pool.size_) :
    a'.contexts.count i + a'.command_contexts.count i ≤
      a'.contexts.count j + a'.command_contexts.count j + 1 := by
  have hnew : InTurn pool.size_ pool.next_ ⟨pool, .new, [], [], false, true, none⟩ :=
    ⟨rfl, .refl _, (Nat.mod_eq_of_lt pool.in_range).symm⟩
  have h := (throughout_of_step (fun _ _ _ h hs => InTurn.step h hs) (hnew.init_accept hstart)
    (es ++ [])).run hs
  rw [← List.count_append, ← List.count_append]
  show a'.taken.count i ≤ a'.taken.count j + 1
  rw [h.taken.count_eq, h.taken.count_eq]
  exact count_turns_le _ _ hi hj

/-- The flows of a small acceptor. -/
def someFlow (n : Nat) : Uuid := ⟨n, 0, 0, 0, 0, .replicate 6 0⟩

/-- A failed accept, one that is served, and one that waits for its handler. -/
def someAccepts : List AcceptorEvent :=
  [.on_accept true (someFlow 2), .on_accept false (someFlow 3), .on_accept false (someFlow 4)]

theorem three_contexts_are_shared_evenly : ∃ a a', start 1 ⟨1, 3, by decide⟩ (someFlow 1) =
    some a ∧ run (step 1) a (.get_io_context :: someAccepts) = some a' ∧
    a'.contexts.count 2 + a'.command_contexts.count 2 ≤
      a'.contexts.count 0 + a'.command_contexts.count 0 + 1 := by
  have hruns : ((start 1 ⟨1, 3, by decide⟩ (someFlow 1)).bind fun a =>
      run (step 1) a (.get_io_context :: someAccepts)).isSome = true := by decide +kernel
  obtain ⟨a', hruns⟩ := Option.isSome_iff_exists.mp hruns
  obtain ⟨a, hstart, hs⟩ := Option.bind_eq_some_iff.mp hruns
  exact ⟨a, a', hstart, hs,
    the_contexts_are_shared_evenly hstart hs (by decide : 2 < 3) (by decide : 0 < 3)⟩

end Acceptor

end proxy
