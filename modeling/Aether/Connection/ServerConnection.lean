-- The connection to the server, `connection/server_connection.cpp` and
-- `connection/base_connection.cpp`, with the flow that owns it,
-- `connection/connection_flow.cpp`, and `base_service::set_server`.
--
-- The system takes a step for each call of a service and for each callback of
-- the socket. What the network does (whom the socket is connected to, which
-- callbacks are still to come) is in the system, beside the fields of the
-- classes. The output buffer, timers and interceptors are left out.
import Aether.Lib.Runs
import Aether.Tls.ServerStore

open proxy.tls.x509

namespace proxy.connection

/-- A value that came from a server, with the number of the endpoint. The number is not in the
code. -/
structure From (α : Type) where
  origin : Nat
  value : α
  deriving DecidableEq, Repr

abbrev Host := List UInt8

abbrev Port := UInt16

/-- The fields of `server_connection` and of its base. An `alpn_` that was never set is empty. -/
structure ServerConnection where
  input_ : List (From UInt8)
  connected_ : Bool
  tls_established_ : Bool
  cert_ : Option (From Certificate)
  cert_chain_ : List (From Certificate)
  alpn_ : Option (From (List UInt8))
  host_ : Host
  port_ : Port
  deriving DecidableEq, Repr

namespace ServerConnection

def new : ServerConnection := ⟨[], false, false, none, [], none, [], 0⟩

def secured (c : ServerConnection) : Bool := c.tls_established_

def cert (c : ServerConnection) : Option (From Certificate) := c.cert_

def get_cert_chain (c : ServerConnection) : List (From Certificate) := c.cert_chain_

def alpn (c : ServerConnection) : Option (From (List UInt8)) := c.alpn_

def input_buffer (c : ServerConnection) : List (From UInt8) := c.input_

def set_connected (c : ServerConnection) (connected : Bool) : ServerConnection :=
  { c with connected_ := connected }

def is_connected_to (c : ServerConnection) (host : Host) (port : Port) : Bool :=
  c.connected_ && c.host_ == host && c.port_ == port

end ServerConnection

/-- What a handshake gives. -/
structure Handshake where
  cert : Certificate
  chain : List Certificate
  alpn : Option (List UInt8)
  deriving DecidableEq, Repr

/-- The callback that a connect waits for. -/
inductive Connecting where
  | idle
  | resolving
  | connecting (endpoints_left : Nat)
  deriving DecidableEq, Repr

structure System where
  target_host_ : Host
  target_port_ : Port
  server : ServerConnection
  /-- `socket_.is_open()`. -/
  is_open : Bool
  /-- The number of the endpoint that the socket is connected to. -/
  peer : Option Nat
  connecting : Connecting
  /-- A handshake that is going on, and with whom. -/
  handshaking : Option (Option Nat)
  /-- The endpoint that a connect last succeeded to. Each new one gets the next number. -/
  current : Nat
  endpoint : Option (Host × Port)
  /-- The endpoints that a handshake succeeded with. -/
  handshaken : List Nat
  deriving DecidableEq, Repr

namespace System

def new : System := ⟨[], 0, .new, false, none, .idle, none, 0, none, []⟩

/-- `shutdown`, if the connection can be shut down. -/
def shutdown (s : System) : System :=
  if s.is_open && s.server.connected_ then { s with server := s.server.set_connected false } else s

/-- `disconnect`. -/
def disconnect (s : System) : System := { s.shutdown with is_open := false, peer := none }

/-- `base_service::set_server`, and `connection_flow::set_server` in it. -/
def set_server (s : System) (host : Host) (port : Port) : System :=
  if s.server.is_connected_to host port then s
  else
    let s := if s.server.connected_ then s.disconnect else s
    { s with target_host_ := host, target_port_ := port }

/-- `connect_async` to the target. -/
def connect_async (s : System) (has_been_closed : Bool) : System :=
  let host := s.target_host_
  let port := s.target_port_
  -- Already have an open connection.
  if s.server.is_connected_to host port && !has_been_closed then s
  else
    -- Need a new connection.
    let s := if s.server.connected_ then s.disconnect else s
    { s with
      server := { s.server with host_ := host, port_ := port }
      connecting := .resolving }

/-- `on_resolve`, with the number of the endpoints that were found, if there was no error. -/
def on_resolve (s : System) : Option Nat → System
  | none => { s with connecting := .idle }
  -- No endpoints found.
  | some 0 => { s with connecting := .idle }
  | some (more + 1) => { s with is_open := true, connecting := .connecting more }

/-- The endpoint of the connect is not that of the last one. -/
def IsNew (s : System) : Prop := s.endpoint ≠ some (s.server.host_, s.server.port_)

instance (s : System) : Decidable s.IsNew := inferInstanceAs (Decidable (_ ≠ _))

/-- The number of the endpoint that is connected to. -/
def number (s : System) : Nat := if s.IsNew then s.current + 1 else s.current

/-- `on_connect`. -/
def on_connect (s : System) (more : Nat) (success : Bool) : System :=
  if success then
    { s with
      server := s.server.set_connected true
      connecting := .idle
      peer := some s.number
      current := s.number
      endpoint := some (s.server.host_, s.server.port_) }
  else
    match more with
    -- Didn't connect, but other endpoints to try.
    | more + 1 => { s with connecting := .connecting more }
    -- Failed to connect.
    | 0 => { s with connecting := .idle }

/-- A read that commits the bytes it was given. -/
def on_read (s : System) (origin : Nat) (bytes : List UInt8) (error : Bool) : System :=
  let server := { s.server with input_ := s.server.input_ ++ bytes.map (From.mk origin) }
  { s with server := if error then server.set_connected false else server }

/-- A service takes bytes out of the input buffer. -/
def consume (s : System) (n : Nat) : System :=
  { s with server := { s.server with input_ := s.server.input_.drop n } }

def on_write (s : System) (error : Bool) : System :=
  { s with server := if error then s.server.set_connected false else s.server }

/-- `on_handshake`. A failed one leaves everything. -/
def on_handshake (s : System) (origin : Nat) : Option Handshake → System
  | none => { s with handshaking := none }
  | some handshake =>
    { s with
      server := { s.server with
        cert_ := some ⟨origin, handshake.cert⟩
        -- Copy certificate chain.
        cert_chain_ := s.server.cert_chain_ ++ handshake.chain.map (From.mk origin)
        alpn_ :=
          match handshake.alpn with
          | some proto => some ⟨origin, proto⟩
          | none => s.server.alpn_
        tls_established_ := true }
      handshaking := none
      handshaken := origin :: s.handshaken }

end System

inductive Event where
  | set_server (host : Host) (port : Port)
  | connect_async (has_been_closed : Bool)
  | on_resolve (endpoints : Option Nat)
  | on_connect (success : Bool)
  | on_read (bytes : List UInt8) (error : Bool)
  | consume (n : Nat)
  | on_write (error : Bool)
  | on_timeout
  | establish_tls_async
  | on_handshake (result : Option Handshake)
  | disconnect
  deriving DecidableEq, Repr

/-- A step of the system. A callback comes only for what it was asked for, bytes only from the peer
of the socket, and a handshake succeeds only with the peer that it was begun with. -/
def step (s : System) : Event → Option System
  | .set_server host port => some (s.set_server host port)
  | .connect_async has_been_closed => some (s.connect_async has_been_closed)
  | .on_resolve endpoints =>
    if s.connecting = .resolving then some (s.on_resolve endpoints) else none
  | .on_connect success =>
    match s.connecting with
    | .connecting more => some (s.on_connect more success)
    | _ => none
  | .on_read bytes error =>
    match s.peer with
    | some origin => some (s.on_read origin bytes error)
    | none => if bytes = [] then some (s.on_read 0 bytes error) else none
  | .consume n => some (s.consume n)
  | .on_write error => some (s.on_write error)
  | .on_timeout => some s.shutdown
  | .establish_tls_async => some { s with handshaking := some s.peer }
  | .on_handshake none =>
    if s.handshaking.isSome then some (s.on_handshake 0 none) else none
  | .on_handshake (some handshake) =>
    match s.peer with
    | some origin =>
      if s.handshaking = some (some origin) then some (s.on_handshake origin (some handshake))
      else none
    | none => none
  | .disconnect => some s.disconnect

/-- What a service sees of its server is of the endpoint that was last connected to. -/
structure Clean (s : System) : Prop where
  input : ∀ byte ∈ s.server.input_buffer, byte.origin = s.current
  secured : s.server.secured = true → s.current ∈ s.handshaken
  alpn : ∀ alpn, s.server.alpn = some alpn → alpn.origin = s.current
  cert : ∀ cert, s.server.cert = some cert → cert.origin = s.current
  chain : ∀ cert ∈ s.server.get_cert_chain, cert.origin = s.current

end proxy.connection
