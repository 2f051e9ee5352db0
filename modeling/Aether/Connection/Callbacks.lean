-- The asynchronous calls of the two connections and the handlers that they are
-- given, `connection/server_connection.cpp` and `connection/client_connection.cpp`.
--
-- A handler moves from the call into a callback that asio is given, from there
-- into the next, and at last into one that is posted. The system has the
-- callbacks that asio still owes. What a handshake leaves in the connection to
-- the server is in `ServerConnection.lean`.
import Aether.Error
import Aether.Lib.Runs
import Aether.Util.Text
import Mathlib.Data.List.Basic

open lib.runs util.string

namespace proxy.connection.callbacks

/-- `boost::system::error_code`. -/
inductive ErrorCode where
  | success
  | host_unreachable
  | other (value : Nat)
  deriving DecidableEq, Repr

/-- A callback that asio was given, with the handler that was moved into it. -/
inductive Callback where
  | posted (handler : Nat) (code : ErrorCode)
  | resolve (handler : Nat)
  /-- A connect to one endpoint, with the number of those that are left to try. -/
  | connect (handler : Nat) (endpoints_left : Nat)
  | server_handshake (handler : Nat)
  | client_handshake (handler : Nat)
  deriving DecidableEq, Repr

def Callback.handler : Callback → Nat
  | posted handler _ => handler
  | resolve handler => handler
  | connect handler _ => handler
  | server_handshake handler => handler
  | client_handshake handler => handler

/-- The fields of `client_connection` that a handshake sets. -/
structure ClientConnection where
  input_ : Text
  connected_ : Bool
  tls_established_ : Bool
  sni_ : Text
  alpn_ : Text
  cipher_name_ : Text
  ssl_method_ : Text
  deriving DecidableEq, Repr

/-- `SSL_METHODS`. -/
def ssl_methods : List Text :=
  [text "SSLv23", text "SSLv2", text "SSLv3", text "TLSv1", text "TLSv1.1", text "TLSv1.2",
    text "TLSv1.3"]

/-- `string_to_ssl_method`. A method is here its name. -/
def string_to_ssl_method (str : Text) : Except Error Text :=
  match ssl_methods.find? (iequals_fn str) with
  | some method => .ok method
  | none => .error (default_error .invalid_ssl_method)

/-- What the library tells of a handshake with the client that succeeded. There is a server name if
the client sent one. -/
structure Details where
  servername : Option Text
  alpn : Option Text
  cipher_name : Text
  version : Text
  deriving DecidableEq, Repr

/-- What becomes of the context of a handshake with the server: the error of `create_ssl_context` if
there is one, whether the name of the host is set, and the error of its verification. -/
structure ServerContext where
  create_ssl_context : Except Error Unit
  set_tlsext_host_name : Bool
  enable_hostname_verification : Except Error Unit

def ServerContext.result (c : ServerContext) : Except Error Unit := do
  c.create_ssl_context
  if !c.set_tlsext_host_name then
    .error (proxy_error .ssl_context_error "Failed to set SNI extension")
  else c.enable_hostname_verification

/-- The same with the client: whether the key, the certificate, each certificate of the chain and
the parameters of Diffie-Hellman are set, if there are any. -/
structure ClientContext where
  create_ssl_context : Except Error Unit
  use_private_key : Bool
  use_certificate : Bool
  add_extra_chain_cert : List Bool
  set0_tmp_dh_pkey : Option Bool

def ClientContext.result (c : ClientContext) : Except Error Unit := do
  c.create_ssl_context
  if !c.use_private_key then
    .error (proxy_error .ssl_context_error "Failed to set private key")
  else if !c.use_certificate then
    .error (proxy_error .ssl_context_error "Failed to set client certificate")
  else if !c.add_extra_chain_cert.all id then
    .error (proxy_error .ssl_context_error "Failed to add certificate to client chain")
  else if c.set0_tmp_dh_pkey = some false then
    .error (proxy_error .ssl_context_error
      "Failed to set Diffie-Hellman parameters for client context")
  else .ok ()

structure State where
  connected_ : Bool
  host_ : Text
  port_ : UInt16
  client : ClientConnection
  pending : List Callback
  /-- The number of calls so far. A handler has the number of its call. -/
  calls : Nat
  /-- The calls that returned ok. -/
  accepted : List Nat
  /-- The handlers that were invoked, each with the code that it was given. -/
  invoked : List (Nat × ErrorCode)
  deriving DecidableEq, Repr

namespace State

def new : State := ⟨false, [], 0, ⟨[], true, false, [], [], [], []⟩, [], 0, [], []⟩

/-- Asio is given a callback. -/
def give (s : State) (c : Callback) : State := { s with pending := s.pending ++ [c] }

/-- A call begins, and returns ok. -/
def accept (s : State) : State :=
  { s with calls := s.calls + 1, accepted := s.accepted ++ [s.calls] }

/-- A call returns an error. Its handler is destroyed with it. -/
def refuse (s : State) : State := { s with calls := s.calls + 1 }

/-! ## The connection to the server -/

def is_connected_to (s : State) (host : Text) (port : UInt16) : Bool :=
  s.connected_ && s.host_ == host && s.port_ == port

def connect_async (s : State) (host : Text) (port : UInt16) (has_been_closed : Bool) : State :=
  let handler := s.calls
  -- Already have an open connection.
  if s.is_connected_to host port && !has_been_closed then
    s.accept.give (.posted handler .success)
  else
    -- Need a new connection, where there is an old one.
    ({ s with connected_ := false, host_ := host, port_ := port }).accept.give (.resolve handler)

/-- `on_resolve`, with the number of endpoints that were found. -/
def on_resolve (s : State) (handler : Nat) (err : ErrorCode) (endpoints : Nat) : State :=
  if err ≠ .success then s.give (.posted handler err)
  else
    match endpoints with
    -- No endpoints found.
    | 0 => s.give (.posted handler .host_unreachable)
    | left + 1 => s.give (.connect handler left)

def on_connect (s : State) (handler : Nat) (err : ErrorCode) (endpoints_left : Nat) : State :=
  if err = .success then ({ s with connected_ := true }).give (.posted handler err)
  else
    match endpoints_left with
    -- Didn't connect, but other endpoints to try.
    | left + 1 => s.give (.connect handler left)
    -- Failed to connect.
    | 0 => s.give (.posted handler err)

/-- `server_connection::establish_tls_async`: what it leaves, and its result. -/
def establish_tls_with_server (s : State) (c : ServerContext) : State × Except Error Unit :=
  match c.result with
  | .ok () => (s.accept.give (.server_handshake s.calls), .ok ())
  | .error e => (s.refuse, .error e)

/-- `server_connection::on_handshake`. -/
def on_server_handshake (s : State) (handler : Nat) (err : ErrorCode) : State :=
  s.give (.posted handler err)

/-! ## The connection to the client -/

/-- `client_connection::establish_tls_async`. -/
def establish_tls_with_client (s : State) (c : ClientContext) : State × Except Error Unit :=
  match c.result with
  | .ok () => (s.accept.give (.client_handshake s.calls), .ok ())
  | .error e => (s.refuse, .error e)

def set_client (s : State) (client : ClientConnection) : State := { s with client := client }

/-- `client_connection::on_handshake`. -/
def on_client_handshake (s : State) (handler : Nat) (err : ErrorCode) (details : Details) :
    State × Except Error Unit :=
  let s := s.set_client { s.client with input_ := [] }
  if err ≠ .success then (s, .error (default_error .downstream_handshake_failed))
  else
    match details.servername with
    -- A string cannot be set to a null pointer.
    | none => (s, .error .undefined)
    | some servername =>
      let s := s.set_client { s.client with
        sni_ := servername
        alpn_ := details.alpn.getD s.client.alpn_
        cipher_name_ := details.cipher_name }
      match string_to_ssl_method details.version with
      | .error e => (s, .error e)
      | .ok method =>
        let s := s.set_client { s.client with ssl_method_ := method, tls_established_ := true }
        (s.give (.posted handler err), .ok ())

/-- The callback around it, which drops an error. After what is undefined nothing is called. -/
def client_handshake (s : State) (handler : Nat) (err : ErrorCode) (details : Details) : State :=
  match s.on_client_handshake handler err details with
  | (s, .ok ()) => s
  | (s, .error (.state _ _)) => s.set_client { s.client with connected_ := false }
  | (s, .error _) => { s with pending := [] }

/-- The callback at a place of the list is called, and is owed no more. -/
def take (s : State) (i : Nat) : State := { s with pending := s.pending.eraseIdx i }

def invoke (s : State) (handler : Nat) (code : ErrorCode) : State :=
  { s with invoked := s.invoked ++ [(handler, code)] }

end State

inductive Event where
  | connect_async (host : Text) (port : UInt16) (has_been_closed : Bool)
  | establish_tls_with_server (c : ServerContext)
  | establish_tls_with_client (c : ClientContext)
  /-- Asio calls the callback at a place, with an error code and what else it has to tell. -/
  | callback (i : Nat) (err : ErrorCode) (endpoints : Nat) (details : Details)

def step (s : State) : Event → Option State
  | .connect_async host port has_been_closed => some (s.connect_async host port has_been_closed)
  | .establish_tls_with_server c => some (s.establish_tls_with_server c).1
  | .establish_tls_with_client c => some (s.establish_tls_with_client c).1
  | .callback i err endpoints details =>
    match s.pending[i]? with
    | none => none
    | some (.posted handler code) => some ((s.take i).invoke handler code)
    | some (.resolve handler) => some ((s.take i).on_resolve handler err endpoints)
    | some (.connect handler left) => some ((s.take i).on_connect handler err left)
    | some (.server_handshake handler) => some ((s.take i).on_server_handshake handler err)
    | some (.client_handshake handler) => some ((s.take i).client_handshake handler err details)

/-! ## Where each handler is -/

namespace State

/-- How often a handler was invoked, and how often it is in a callback that asio owes. -/
def invocations (s : State) (handler : Nat) : Nat := (s.invoked.map Prod.fst).count handler

def owed (s : State) (handler : Nat) : Nat := (s.pending.map Callback.handler).count handler

end State

/-- The handler of a call that returned ok was invoked once, or is in one callback, and that of a
call that did not is nowhere. -/
structure Settled (s : State) : Prop where
  once : ∀ handler ∈ s.accepted, s.invocations handler + s.owed handler = 1
  never : ∀ handler, handler ∉ s.accepted → s.invocations handler = 0 ∧ s.owed handler = 0

/-- A handshake with the client that ends well: it succeeds, the client named the server, and the
version is one that the proxy knows. -/
def EndsWell (err : ErrorCode) (details : Details) : Prop :=
  err = .success ∧ details.servername.isSome ∧ ssl_methods.any (iequals_fn details.version)

instance (err : ErrorCode) (details : Details) : Decidable (EndsWell err details) :=
  inferInstanceAs (Decidable (_ ∧ _ ∧ _))

/-- The step ends no handshake with the client but well. -/
def HandshakeEndsWell (s : State) : Event → Prop
  | .callback i err _ details =>
    ∀ handler, s.pending[i]? = some (.client_handshake handler) → EndsWell err details
  | _ => True

/-- The handlers of accepted calls have different numbers, none of which is that of a call to
come. -/
structure Numbered (s : State) : Prop where
  accepted : ∀ handler ∈ s.accepted, handler < s.calls
  nodup : s.accepted.Nodup

end proxy.connection.callbacks
