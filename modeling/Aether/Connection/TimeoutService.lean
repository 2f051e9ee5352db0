-- The operations of a connection and the timer that they share,
-- `connection/timeout_service.cpp`, `connection/base_connection.cpp`, and the
-- operations of `connection/server_connection.cpp` that use the timer. The
-- buffers are left out, and so is the length of a timeout: the timer expires at
-- any time.
import Aether.Lib.Timer

open lib.timer

namespace proxy.connection

inductive IoMode where
  | regular
  | tunnel
  | no_timeout
  deriving DecidableEq, Repr

inductive OperationState where
  /-- Free means the connection has no pending operations. -/
  | free
  /-- Pending means the connection has at least one pending operation. -/
  | pending
  deriving DecidableEq, Repr

/-- The handler that waits on the timer is known by the operation that set it. -/
structure TimeoutService where
  timer_ : Timer Nat
  deriving DecidableEq, Repr

namespace TimeoutService

def new : TimeoutService := ⟨.new⟩

/-- To an expiry that never comes. -/
def reset_timer (t : TimeoutService) : TimeoutService := ⟨t.timer_.abort⟩

def set_timeout (t : TimeoutService) (handler : Nat) : TimeoutService :=
  ⟨t.timer_.abort.wait handler⟩

def cancel_timeout (t : TimeoutService) : TimeoutService := reset_timer ⟨t.timer_.abort⟩

end TimeoutService

structure BaseConnection where
  timeout_ : TimeoutService
  mode_ : IoMode
  is_open : Bool
  connected_ : Bool
  read_state_ : OperationState
  write_state_ : OperationState
  /-- How often the socket was shut down. -/
  shutdowns : Nat
  deriving DecidableEq, Repr

namespace BaseConnection

def new : BaseConnection := ⟨.new, .regular, false, false, .free, .free, 0⟩

def set_connected (c : BaseConnection) (connected : Bool) : BaseConnection :=
  { c with connected_ := connected }

def can_be_shutdown (c : BaseConnection) : Bool := c.is_open && c.connected_

def set_reading (c : BaseConnection) : BaseConnection := { c with read_state_ := .pending }

def finish_reading (c : BaseConnection) : BaseConnection := { c with read_state_ := .free }

def set_writing (c : BaseConnection) : BaseConnection := { c with write_state_ := .pending }

def finish_writing (c : BaseConnection) : BaseConnection := { c with write_state_ := .free }

def cancel_timeout (c : BaseConnection) : BaseConnection :=
  { c with timeout_ := c.timeout_.cancel_timeout }

/-- `set_timeout`, for an operation. -/
def set_timeout (c : BaseConnection) (operation : Nat) : BaseConnection :=
  match c.mode_ with
  | .regular => { c with timeout_ := c.timeout_.set_timeout operation }
  | .tunnel => { c with timeout_ := c.timeout_.set_timeout operation }
  | .no_timeout => c

def shutdown (c : BaseConnection) : BaseConnection :=
  { c with connected_ := false, shutdowns := c.shutdowns + 1 }

def disconnect (c : BaseConnection) : BaseConnection :=
  let c := c.cancel_timeout
  let c := if c.can_be_shutdown then c.shutdown else c
  { c with is_open := false }

def on_read (c : BaseConnection) (error : Bool) : BaseConnection :=
  let c := c.finish_reading.cancel_timeout
  if error then c.set_connected false else c

def on_write (c : BaseConnection) (untimed error : Bool) : BaseConnection :=
  let c := c.finish_writing
  let c := if !untimed then c.cancel_timeout else c
  if error then c.set_connected false else c

/-- What `server_connection::on_connect` does before it tries another endpoint. -/
def on_connect (c : BaseConnection) (error : Bool) : BaseConnection :=
  let c := c.cancel_timeout
  if error then c else c.set_connected true

def on_timeout (c : BaseConnection) : BaseConnection :=
  let c := c.cancel_timeout
  let c := if c.can_be_shutdown then c.shutdown else c
  c.finish_reading.finish_writing

/-- `timeout_service::on_timeout`, with the handler bound to it. -/
def on_timer (c : BaseConnection) (aborted : Bool) : BaseConnection :=
  -- Timer was not canceled.
  if !aborted then on_timeout { c with timeout_ := c.timeout_.reset_timer } else c

end BaseConnection

/-- The operations of a connection. `read_until_async` is a `read_async`. -/
inductive Operation where
  | read
  | read_available
  | read_async
  | write
  | write_async
  | write_untimed_async
  | resolve
  | connect
  deriving DecidableEq, Repr

/-- What an operation does before the socket has it. -/
def BaseConnection.begin (c : BaseConnection) (number : Nat) : Operation → BaseConnection
  | .read => c.set_reading.set_timeout number
  | .read_available => c.set_reading
  | .read_async => c.set_reading.set_timeout number
  | .write => c.set_writing.set_timeout number
  | .write_async => c.set_writing.set_timeout number
  | .write_untimed_async => c.set_writing
  | .resolve => c.set_timeout number
  | .connect => { c.set_timeout number with is_open := true }

/-- What an operation does when it has completed. -/
def BaseConnection.complete (c : BaseConnection) (error : Bool) : Operation → BaseConnection
  | .read => c.cancel_timeout.finish_reading
  | .read_available => c.finish_reading
  | .read_async => c.on_read error
  | .write => c.cancel_timeout.finish_writing
  | .write_async => c.on_write false error
  | .write_untimed_async => c.on_write true error
  | .resolve => c.cancel_timeout
  | .connect => c.on_connect error

/-! ## The connection and what it waits for -/

/-- A connection, and the operations that have not completed, each with its number. -/
structure Operations where
  base : BaseConnection
  pending : List (Nat × Operation)
  started : Nat
  deriving DecidableEq, Repr

inductive OperationEvent where
  | start (operation : Operation)
  /-- An operation of a number completes. -/
  | complete (number : Nat) (error : Bool)
  /-- The timer reaches its expiry time. -/
  | expire
  /-- A handler of the timer runs, at a place of the queue. -/
  | run (i : Nat)
  | set_mode (new_mode : IoMode)
  /-- The acceptor has a client for the connection. -/
  | accept
  | set_connected (connected : Bool)
  | disconnect
  deriving DecidableEq, Repr

namespace Operations

def new : Operations := ⟨.new, [], 0⟩

def timer (s : Operations) : Timer Nat := s.base.timeout_.timer_

def set_base (s : Operations) (base : BaseConnection) : Operations := { s with base := base }

def step (s : Operations) : OperationEvent → Option Operations
  | .start operation => some {
      base := s.base.begin s.started operation
      pending := s.pending ++ [(s.started, operation)]
      started := s.started + 1 }
  | .complete number error =>
    (s.pending.lookup number).map (fun operation => {
      base := s.base.complete error operation
      pending := s.pending.filter (·.1 ≠ number)
      started := s.started })
  | .expire => some (s.set_base { s.base with timeout_ := ⟨s.timer.expire⟩ })
  | .run i =>
    s.timer.queue[i]?.map (fun handler =>
      s.set_base ({ s.base with timeout_ := ⟨s.timer.take i⟩ }.on_timer handler.2))
  | .set_mode new_mode => some (s.set_base { s.base with mode_ := new_mode })
  | .accept => some (s.set_base { s.base with is_open := true, connected_ := true })
  | .set_connected connected => some (s.set_base (s.base.set_connected connected))
  | .disconnect => some (s.set_base s.base.disconnect)

end Operations

end proxy.connection
