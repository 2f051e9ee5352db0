-- The tunnel between two connections, `tunnel/tunnel_loop.cpp` and
-- `tunnel/tunnel_service.cpp`, and the service that most often hands over to it,
-- the reads of `tls/tls_service.cpp`.
--
-- A callback of the socket is posted, so the system takes a step when an
-- operation of a socket completes and another when its handler runs. The bytes
-- that a socket gave and took are in the system, beside the fields of the
-- classes. Timers, their modes, interceptors and the flag `connected_` are left
-- out: a loop sees of them only the error that an operation ends with.
import Aether.Lib.Runs
import Aether.Tls.ClientHello
import Aether.Tls.HandshakeReader
import Mathlib.Logic.Function.Basic

open lib.runs lib.cursor proxy.tls.handshake

namespace proxy.tunnel

/-- The fields of `base_connection` that a tunnel uses. -/
structure BaseConnection where
  input_ : List UInt8
  output_ : List UInt8
  deriving DecidableEq, Repr

/-- The two connections of a flow. -/
inductive Party where
  | client
  | server
  deriving DecidableEq, Repr

def Party.other : Party → Party
  | client => server
  | server => client

/-- What a loop waits for: an operation of a socket, or its handler, which is posted. -/
inductive Waiting where
  | nothing
  | reading
  | on_read (error : Bool)
  | writing
  | on_write (error : Bool)
  deriving DecidableEq, Repr

/-- `tunnel_loop`. The constructor leaves `finished_` without a value. -/
structure TunnelLoop where
  finished_ : Option Bool
  waiting : Waiting
  deriving DecidableEq, Repr

def TunnelLoop.new : TunnelLoop := ⟨none, .nothing⟩

/-- The service that has the flow. -/
inductive Service where
  /-- `tls_service` that reads a Client Hello. -/
  | tls (client_hello_reader_ : HandshakeReader)
  /-- `tls_service` that has read one, and goes on with it. -/
  | intercepted
  /-- `tunnel_service` that connects to the server. -/
  | connecting
  /-- `tunnel_service` that could not connect. -/
  | unreachable
  | tunneling
  deriving DecidableEq, Repr

structure System where
  connection : Party → BaseConnection
  /-- The loop whose source is the party: `upstream_` of the client, `downstream_` of the server. -/
  loop : Party → TunnelLoop
  service : Service
  /-- How often `stop` ran. -/
  stops : Nat
  read : Party → List UInt8
  written : Party → List UInt8

namespace System

def set_connection (s : System) (p : Party) (c : BaseConnection) : System :=
  { s with connection := Function.update s.connection p c }

def set_loop (s : System) (p : Party) (l : TunnelLoop) : System :=
  { s with loop := Function.update s.loop p l }

def stop (s : System) : System := { s with stops := s.stops + 1 }

/-- `tunnel_service::on_finish`. -/
def on_finish (s : System) : System :=
  if (s.loop .server).finished_ = some true ∧ (s.loop .client).finished_ = some true then s.stop
  else s

/-! ## The loop from a source -/

/-- `tunnel_loop::finish`. -/
def finish (s : System) (source : Party) : System :=
  (s.set_loop source ⟨some true, .nothing⟩).on_finish

/-- `tunnel_loop::read`. -/
def read_ (s : System) (source : Party) : System :=
  s.set_loop source { s.loop source with waiting := .reading }

/-- `tunnel_loop::write`. The input of the source goes to the output of the destination. -/
def write (s : System) (source : Party) : System :=
  let destination := source.other
  let moved := (s.connection source).input_
  let s := s.set_connection source { s.connection source with input_ := [] }
  let s := s.set_connection destination
    { s.connection destination with output_ := (s.connection destination).output_ ++ moved }
  s.set_loop source { s.loop source with waiting := .writing }

/-- `tunnel_loop::start`. -/
def start_loop (s : System) (source : Party) : System :=
  (s.set_loop source { s.loop source with finished_ := some false }).write source

def on_read (s : System) (source : Party) (error : Bool) : System :=
  if error then s.finish source else s.write source

def on_write (s : System) (source : Party) (error : Bool) : System :=
  if error then s.finish source else s.read_ source

/-! ## The service -/

def initiate_tunnel (s : System) : System :=
  (({ s with service := .tunneling }).start_loop .server).start_loop .client

/-- `tunnel_service::start`. -/
def start_tunnel (s : System) (server_connected : Bool) : System :=
  if server_connected then s.initiate_tunnel else { s with service := .connecting }

/-- `tunnel_service::on_connect_server`. -/
def on_connect_server (s : System) (error : Bool) : System :=
  if error then ({ s with service := .unreachable }).stop else s.initiate_tunnel

/-- `handle_client_hello`. What is no Client Hello goes to a tunnel. -/
def handle_client_hello (s : System) (reader : HandshakeReader) (server_connected : Bool) :
    Option System :=
  match (from_raw_data reader.get_bytes).value with
  | .ok _ => some { s with service := .intercepted }
  | .error (.error _) => some (s.start_tunnel server_connected)
  | .error _ => none

/-- `tls_service::on_read_client_hello`, after the bytes are committed. The reader gets all of the
input buffer, and takes nothing from it. -/
def on_read_client_hello (s : System) (reader : HandshakeReader) (bytes_transferred : Nat)
    (error server_connected : Bool) : Option System :=
  if error then some (s.start_tunnel server_connected)
  else
    match reader.read (s.connection .client).input_ bytes_transferred with
    | .error (.state _ _) => some (s.start_tunnel server_connected)
    | .error _ => none
    | .ok read =>
      if read.remaining = 0 then s.handle_client_hello read.reader server_connected
      else some { s with service := .tls read.reader }

/-- A read of the socket of a party completes, with the bytes that it commits. -/
def commit (s : System) (p : Party) (bytes : List UInt8) : System :=
  let s := s.set_connection p
    { s.connection p with input_ := (s.connection p).input_ ++ bytes }
  { s with read := Function.update s.read p (s.read p ++ bytes) }

/-- The socket of a party takes bytes of the output buffer. -/
def consume (s : System) (p : Party) (n : Nat) : System :=
  let taken := (s.connection p).output_.take n
  let s := s.set_connection p
    { s.connection p with output_ := (s.connection p).output_.drop n }
  { s with written := Function.update s.written p (s.written p ++ taken) }

end System

/-- How the flow came to where a tunnel may follow. -/
inductive Entry where
  | tls_service
  | tunnel_service (server_connected : Bool)
  deriving DecidableEq, Repr

/-- The start of a service, with what the connections have in their buffers. -/
def System.start (connection : Party → BaseConnection) : Entry → System
  | .tls_service => ⟨connection, fun _ => .new, .tls .new, 0, fun _ => [], fun _ => []⟩
  | .tunnel_service server_connected =>
    System.start_tunnel ⟨connection, fun _ => .new, .connecting, 0, fun _ => [], fun _ => []⟩
      server_connected

inductive Event where
  /-- `tls_service` is given a read, and the server is connected or not. -/
  | client_hello (bytes : List UInt8) (error server_connected : Bool)
  | connected (error : Bool)
  /-- The read from a source completes. -/
  | read (source : Party) (bytes : List UInt8) (error : Bool)
  /-- Some of what is written from a source is taken by the socket of the destination. -/
  | taken (source : Party) (n : Nat)
  /-- That write completes, with all of the bytes or an error. -/
  | written (source : Party) (error : Bool)
  /-- The handler that is posted for the loop from a source runs. -/
  | handler (source : Party)
  deriving DecidableEq, Repr

def step (s : System) : Event → Option System
  | .client_hello bytes error server_connected =>
    match s.service with
    | .tls reader =>
      (s.commit .client bytes).on_read_client_hello reader bytes.length error server_connected
    | _ => none
  | .connected error =>
    match s.service with
    | .connecting => some (s.on_connect_server error)
    | _ => none
  | .read source bytes error =>
    match (s.loop source).waiting with
    | .reading =>
      some ((s.commit source bytes).set_loop source
        { s.loop source with waiting := .on_read error })
    | _ => none
  | .taken source n =>
    match (s.loop source).waiting with
    | .writing => some (s.consume source.other n)
    | _ => none
  | .written source error =>
    match (s.loop source).waiting with
    | .writing =>
      if error ∨ (s.connection source.other).output_ = [] then
        some (s.set_loop source { s.loop source with waiting := .on_write error })
      else none
    | _ => none
  | .handler source =>
    match (s.loop source).waiting with
    | .on_read error => some (s.on_read source error)
    | .on_write error => some (s.on_write source error)
    | _ => none

end proxy.tunnel
