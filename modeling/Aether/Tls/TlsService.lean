-- The service for TLS, `tls/tls_service.cpp`, with `base_service::connect_server_async` and the
-- two handshakes that it starts.
--
-- It reads a Client Hello, connects to the server, and shakes hands with the server and then with
-- the client. As in the service for HTTP, a handler leaves what is still to come, and interceptors
-- are functions that come with the end of an operation.
import Aether.Connection.Callbacks
import Aether.Http.HttpService
import Aether.Tls.AlpnSelection
import Aether.Tls.HandshakeReader

open util.string lib.cursor proxy.connection proxy.tls.handshake proxy.tls.x509
open proxy.connection.callbacks (Details ServerContext ClientContext string_to_ssl_method)
open proxy.http.http1 (ErrorCode ErrorState ServiceKind Flow)

namespace proxy.tls

/-! ## Contexts -/

/-- The two sets of options of `ssl_context_args`. -/
inductive SslOptions where
  | default_options
  | sslv23_options
  deriving DecidableEq, Repr

/-- A method is its name. -/
def get_options_for_method (method : Text) : SslOptions :=
  if method = text "SSLv23" then .sslv23_options else .default_options

/-- `ssl_context_args`. The callbacks of the library are there or not. -/
structure SslContextArgs where
  verify : Bool
  method : Text
  options : SslOptions
  verify_file : Text
  verify_callback : Bool
  cipher_suites : List Nat
  alpn_protos : List Text
  alpn_select_callback : Bool
  server_alpn : Option Text
  deriving DecidableEq, Repr

/-- `ssl_server_context_args`, less its keys. -/
structure SslServerContextArgs where
  base_args : SslContextArgs
  cert : MemoryCertificate
  cert_chain : Option (List Certificate)
  deriving DecidableEq, Repr

/-- `CIPHER_SUITE_NAMES`. A suite is its number. -/
def cipher_suite_names : List Nat :=
  [0x01, 0x02, 0x03, 0x04, 0x05, 0x06, 0x07, 0x08, 0x09, 0x0a, 0x0b, 0x0c, 0x0d, 0x0e, 0x0f, 0x10,
    0x11, 0x12, 0x13, 0x14, 0x15, 0x16, 0x17, 0x18, 0x19, 0x1a, 0x1b, 0x1e, 0x1f, 0x20, 0x21, 0x22,
    0x23, 0x24, 0x25, 0x26, 0x27, 0x28, 0x29, 0x2a, 0x2b, 0x2c, 0x2d, 0x2e, 0x2f, 0x30, 0x31, 0x32,
    0x33, 0x34, 0x35, 0x36, 0x37, 0x38, 0x39, 0x3a, 0x3b, 0x3c, 0x3d, 0x3e, 0x3f, 0x40, 0x41, 0x42,
    0x43, 0x44, 0x45, 0x46, 0x60, 0x61, 0x62, 0x63, 0x64, 0x65, 0x66, 0x67, 0x68, 0x69, 0x6a, 0x6b,
    0x6c, 0x6d, 0x80, 0x81, 0x82, 0x83, 0x84, 0x85, 0x86, 0x87, 0x88, 0x89, 0x8a, 0x8b, 0x8c, 0x8d,
    0x96, 0x97, 0x98, 0x99, 0x9a, 0x9b, 0x9c, 0x9d, 0x9e, 0x9f, 0xa0, 0xa1, 0xa2, 0xa3, 0xa4, 0xa5,
    0xa6, 0xa7, 0xba, 0xbb, 0xbc, 0xbd, 0xbe, 0xbf, 0x5600, 0x1301, 0x1302, 0x1303, 0x1304, 0x1305,
    0xc001, 0xc002, 0xc003, 0xc004, 0xc005, 0xc006, 0xc007, 0xc008, 0xc009, 0xc00a, 0xc00b, 0xc00c,
    0xc00d, 0xc00e, 0xc00f, 0xc010, 0xc011, 0xc012, 0xc013, 0xc014, 0xc015, 0xc016, 0xc017, 0xc018,
    0xc019, 0xc01a, 0xc01b, 0xc01c, 0xc01d, 0xc01e, 0xc01f, 0xc020, 0xc021, 0xc022, 0xc023, 0xc024,
    0xc025, 0xc026, 0xc027, 0xc028, 0xc029, 0xc02a, 0xc02b, 0xc02c, 0xc02d, 0xc02e, 0xc02f, 0xc030,
    0xc031, 0xc032, 0xc033, 0xc034, 0xc035, 0xc036, 0xc037, 0xc038, 0xc039, 0xc03A, 0xc03B, 0xc072,
    0xc073, 0xc074, 0xc075, 0xc076, 0xc077, 0xc078, 0xc079, 0xc094, 0xc095, 0xc096, 0xc097, 0xc098,
    0xc099, 0xc09A, 0xc09B, 0xc09c, 0xc09d, 0xc09e, 0xc09f, 0xc0a0, 0xc0a1, 0xc0a2, 0xc0a3, 0xc0a4,
    0xc0a5, 0xc0a6, 0xc0a7, 0xc0a8, 0xc0a9, 0xc0aa, 0xc0ab, 0xc0ac, 0xc0ad, 0xc0ae, 0xc0af, 0xcc13,
    0xcc14, 0xcc15, 0xcca8, 0xcca9, 0xccaa, 0xccab, 0xccac, 0xccad, 0xccae, 0xff00, 0xff01,
    0x010080, 0x020080, 0x030080, 0x040080, 0x050080, 0x060040, 0x060140, 0x0700c0, 0x0701c0,
    0x080080, 0xff0800, 0xff0810]

def cipher_is_valid (cipher : Nat) : Bool := cipher_suite_names.contains cipher

/-- The suites that the client is offered. -/
def default_client_ciphers : List Nat :=
  [0xc02b, 0xc02f, 0xc02c, 0xc030, 0xcc14, 0xcc13, 0x9e, 0x9f, 0xcc15, 0xc023, 0xc027, 0xc009,
    0xc013, 0xc024, 0xc028, 0xc00a, 0xc014, 0x67, 0x6b, 0x9c, 0x9d, 0x3c, 0x3d, 0x2f, 0x35, 0x0a]

/-! ## The state -/

/-- What is to come after a handler: an operation, by the handler that it calls, or another service,
or none. -/
inductive Continuation where
  | on_read_client_hello
  | on_connect_server
  | on_establish_tls_with_server
  | on_establish_tls_with_client
  | switch_service (next : ServiceKind)
  | stop
  deriving DecidableEq, Repr

/-- The fields of `client_connection` that the service uses. -/
structure Client where
  connected_ : Bool
  tls_established_ : Bool
  alpn_ : Text
  deriving DecidableEq, Repr

structure TlsService where
  flow_ : Flow
  client : Client
  client_hello_reader_ : HandshakeReader
  client_hello_msg_ : Option ClientHello
  ssl_client_context_args_ : Option SslContextArgs
  ssl_server_context_args_ : Option SslServerContextArgs
  /-- The store is that of all flows. -/
  server_store_ : ServerStore
  outstanding : List Continuation
  /-- The code that a connect has posted its handler with. -/
  posted : Option ErrorCode

/-- The events whose interceptors the service runs. -/
inductive FlowEvent where
  | server_connect
  | tls_established
  | tls_error
  | certificate_search
  | certificate_create
  deriving DecidableEq, Repr

/-- What an interceptor may change of the flow. -/
structure Intercepted where
  error : ErrorState
  intercept_tls_ : Bool
  intercept_websocket_ : Bool
  deriving DecidableEq, Repr

/-- The end of an operation, with what the handler finds while it runs. -/
structure Completion where
  error : ErrorCode
  /-- The bytes that a read commits. -/
  bytes : List UInt8
  /-- What a handshake with the server gives, and what one with the client does. -/
  handshake : Option Handshake
  details : Details
  has_been_closed : Bool
  server_context : ServerContext
  client_context : ClientContext
  intercept : FlowEvent → Intercepted → Intercepted
  certificate : FlowEvent → CertificateInterface → CertificateInterface

/-- The options that the service uses, its library, and the file of `client_store`. -/
structure Components where
  ssl_verify : Bool
  ssl_server_method : Text
  ssl_client_method : Text
  ssl_negotiate_alpn : Bool
  ssl_negotiate_ciphers : Bool
  ssl_supply_server_chain_to_client : Bool
  cert_file : Text
  /-- The path of the certificate of the proxy. -/
  chain_file : Text
  ssl : OpenSsl

namespace TlsService

def leave (s : TlsService) (k : Continuation) : TlsService :=
  { s with outstanding := s.outstanding ++ [k] }

def stop (s : TlsService) : TlsService := s.leave .stop

def set_error (s : TlsService) (error : ErrorState) : TlsService :=
  { s with flow_ := { s.flow_ with error := error } }

def set_server (s : TlsService) (server : System) : TlsService :=
  { s with flow_ := { s.flow_ with server := server } }

def set_input (s : TlsService) (input : Text) : TlsService :=
  { s with flow_ := { s.flow_ with client_input := input } }

/-- The connection to the server. -/
def server (s : TlsService) : ServerConnection := s.flow_.server.server

/-- `interceptors_.<category>.run`. -/
def intercept (s : TlsService) (t : Completion) (event : FlowEvent) : TlsService :=
  let i := t.intercept event ⟨s.flow_.error, s.flow_.intercept_tls_, s.flow_.intercept_websocket_⟩
  { s with flow_ := { s.flow_ with
    error := i.error
    intercept_tls_ := i.intercept_tls_
    intercept_websocket_ := i.intercept_websocket_ } }

/-- The message of an error of the connection to the server. -/
def server_message (s : TlsService) (what : String) : Text :=
  text what ++ s.server.host_ ++ text ":" ++ decimal s.server.port_.toNat

/-- An error of an operation, which the interceptors are told of. -/
def fail_operation (s : TlsService) (t : Completion) (code : errc) (message : Text) : TlsService :=
  (s.set_error ⟨t.error, some code, message⟩).intercept t .tls_error

/-- The end of a call for a `result` that holds an error. -/
def fail (s : TlsService) : Error → Except Error TlsService
  | .state code message => .ok (s.set_error ⟨.success, some code, text message⟩).stop
  | e => .error e

/-! ## The Client Hello -/

def read_client_hello (s : TlsService) : TlsService := s.leave .on_read_client_hello

/-- This is NOT a Client Hello message, so TLS is the wrong protocol to use. -/
def handle_not_client_hello (s : TlsService) : TlsService :=
  s.leave (.switch_service .tunnel_service)

/-- `connect_server`. The handler is posted at once if the connection is open. -/
def connect_server (s : TlsService) (t : Completion) : TlsService :=
  let server := s.flow_.server
  let open_ := server.server.is_connected_to server.target_host_ server.target_port_ &&
    !t.has_been_closed
  ({ s with posted := if open_ then some .success else none }.set_server
    (server.connect_async t.has_been_closed)).leave .on_connect_server

def handle_client_hello (s : TlsService) (t : Completion) : Except Error TlsService :=
  match (from_raw_data s.client_hello_reader_.get_bytes).value with
  | .ok message => .ok ({ s with client_hello_msg_ := some message }.connect_server t)
  | .error (.error _) => .ok s.handle_not_client_hello
  | .error _ => .error .undefined

def on_read_client_hello (s : TlsService) (t : Completion) : Except Error TlsService :=
  -- There may be data in the stream that is still intended for the server.
  if t.error ≠ .success then .ok s.handle_not_client_hello
  else
    match s.client_hello_reader_.read s.flow_.client_input t.bytes.length with
    | .error (.state _ _) => .ok s.handle_not_client_hello
    | .error e => .error e
    | .ok read =>
      let s := { s with client_hello_reader_ := read.reader }
      if read.remaining = 0 then s.handle_client_hello t
      -- Need to read again (unlikely).
      else .ok s.read_client_hello

/-! ## The certificate -/

/-- What the service sees of the server. -/
def server_end (s : TlsService) : ServerEnd :=
  ⟨s.server.connected_, s.server.host_, s.server.secured,
    match s.server.cert with
    | some cert => cert.value
    -- It is not read where no handshake succeeded.
    | none => ⟨none, none, [], false⟩⟩

/-- `get_certificate_for_client`, with its interceptors. -/
def get_certificate_for_client (s : TlsService) (c : Components) (t : Completion)
    (message : ClientHello) : TlsService × Except Error Obtained :=
  match client_interface s.server_end message with
  | .error e => (s, .error e)
  | .ok ci =>
    -- Allow this stage to be intercepted, which is a bit dangerous!
    let s := s.intercept t .certificate_search
    let ci := t.certificate .certificate_search ci
    match s.server_store_.get_certificate ci with
    | some cert => (s, .ok ⟨s.server_store_, cert⟩)
    | none =>
      let s := s.intercept t .certificate_create
      (s, s.server_store_.create_certificate c.ssl (t.certificate .certificate_create ci))

/-! ## The handshake with the client -/

/-- The arguments of the context for the client. -/
def server_context_args (s : TlsService) (c : Components) (cert : MemoryCertificate) :
    SslServerContextArgs :=
  { base_args := {
      verify := false
      method := c.ssl_client_method
      options := get_options_for_method c.ssl_client_method
      verify_file := c.chain_file
      verify_callback := true
      cipher_suites := default_client_ciphers
      alpn_protos := []
      alpn_select_callback := true
      server_alpn :=
        if s.server.secured then some ((s.server.alpn.map From.value).getD []) else none }
    cert := cert
    cert_chain :=
      if c.ssl_supply_server_chain_to_client && s.server.connected_ && s.server.secured then
        some (s.server.get_cert_chain.map From.value)
      else none }

/-- `establish_tls_with_client`, with `establish_tls_with_client_impl` in it. -/
def establish_tls_with_client (s : TlsService) (c : Components) (t : Completion) :
    Except Error TlsService :=
  match s.client_hello_msg_ with
  -- The message is not there to copy from.
  | none => .error .undefined
  | some message =>
    match s.get_certificate_for_client c t message with
    | (s, .error e) => s.fail e
    | (s, .ok obtained) =>
      let s := { s with
        server_store_ := obtained.store
        ssl_server_context_args_ := some (s.server_context_args c obtained.cert) }
      match t.client_context.result with
      | .error e => s.fail e
      | .ok () => .ok (s.leave .on_establish_tls_with_client)

/-- `client_connection::on_handshake`. -/
def client_on_handshake (s : TlsService) (t : Completion) : TlsService × Except Error Unit :=
  let s := s.set_input []
  if t.error ≠ .success then (s, .error (default_error .downstream_handshake_failed))
  else
    match t.details.servername with
    -- A string cannot be set to a null pointer.
    | none => (s, .error .undefined)
    | some _ =>
      let s := { s with client := { s.client with
        alpn_ := t.details.alpn.getD s.client.alpn_ } }
      match string_to_ssl_method t.details.version with
      | .error e => (s, .error e)
      | .ok _ => ({ s with client := { s.client with tls_established_ := true } }, .ok ())

def on_establish_tls_with_client (s : TlsService) (t : Completion) : TlsService :=
  -- Client is not going to continue if its handshake failed.
  if t.error ≠ .success then
    (s.fail_operation t .downstream_handshake_failed s.flow_.error.message_).stop
  else
    -- TLS is successfully established within the connection objects.
    let s := s.intercept t .tls_established
    if s.client.alpn_ = default_alpn || s.client.alpn_ = [] then
      -- Any TLS errors are reported to the client by the HTTP service.
      s.leave (.switch_service .http_service)
    else if s.flow_.error.boost_error_code_ = .success && !s.flow_.error.has_proxy_error then
      s.leave (.switch_service .tunnel_service)
    else s.stop

/-! ## The handshake with the server -/

/-- `std::string::rfind`: the last position. -/
def rfind (src pattern : Text) : Option Nat :=
  match src with
  | [] => if pattern = [] then some 0 else none
  | c :: rest =>
    match rfind rest pattern with
    | some pos => some (pos + 1)
    | none => if pattern <+: c :: rest then some 0 else none

/-- The protocols that the server is offered. -/
def offered_protos (s : TlsService) (c : Components) (message : ClientHello) : List Text :=
  -- If client TLS is established already, use client's negotiated ALPN by default.
  if s.client.tls_established_ then [s.client.alpn_]
  else if !message.alpn.isEmpty && !c.ssl_negotiate_alpn then
    -- Remove unsupported protocols to be sure the server picks one we can read.
    (message.alpn.filter fun protocol =>
      !(rfind protocol (text "h2-") == some 0 || protocol == text "SPDY")).filter
        (· != text "h2")
  -- Set default ALPN.
  else [default_alpn]

def client_context_args (s : TlsService) (c : Components) (message : ClientHello) :
    SslContextArgs where
  verify := c.ssl_verify
  method := c.ssl_server_method
  options := get_options_for_method c.ssl_server_method
  verify_file := c.cert_file
  verify_callback := false
  -- Use only ciphers we have named with the server.
  cipher_suites :=
    if c.ssl_negotiate_ciphers then [] else message.cipher_suites.filter cipher_is_valid
  alpn_protos := s.offered_protos c message
  alpn_select_callback := false
  server_alpn := none

/-- `establish_tls_with_server`, with `establish_tls_with_server_impl` in it. -/
def establish_tls_with_server (s : TlsService) (c : Components) (t : Completion) :
    Except Error TlsService :=
  match s.client_hello_msg_ with
  | none =>
    s.fail (proxy_error .tls_service_error
      "Must parse Client Hello message before establishing TLS with server")
  | some message =>
    let s := { s with ssl_client_context_args_ := some (s.client_context_args c message) }
    match t.server_context.result with
    | .error e => s.fail e
    | .ok () =>
      .ok ((s.set_server { s.flow_.server with handshaking := some s.flow_.server.peer }).leave
        .on_establish_tls_with_server)

def on_establish_tls_with_server (s : TlsService) (c : Components) (t : Completion) :
    Except Error TlsService :=
  let s :=
    if t.error ≠ .success then
      s.fail_operation t .upstream_handshake_failed
        (s.server_message "Could not establish TLS with ")
    else s
  -- Establish TLS with client and report the error later.
  s.establish_tls_with_client c t

/-- `on_connect_server`, with that of `base_service` around it. -/
def on_connect_server (s : TlsService) (c : Components) (t : Completion) :
    Except Error TlsService :=
  if t.error ≠ .success then
    -- Establish TLS with client and report the error later.
    (s.fail_operation t .upstream_connect_error
      (s.server_message "Could not connect to ")).establish_tls_with_client c t
  else (s.intercept t .server_connect).establish_tls_with_server c t

/-! ## Runs -/

/-- `start`, of a new service. -/
def start (flow : Flow) (client : Client) (store : ServerStore) : TlsService :=
  read_client_hello ⟨flow, client, .new, none, none, none, store, [], none⟩

inductive Event where
  | complete (k : Continuation) (t : Completion)
  /-- A callback of the connection to the server, outside of the operations of the service. -/
  | callback (e : connection.Event) (err : ErrorCode)
  /-- The services of other flows use the store. -/
  | other_store (store : ServerStore)

/-- The callbacks of a connect. If one ends it, the handler is posted with a code. -/
def server_callback (s : TlsService) (e : connection.Event) (err : ErrorCode) :
    Option TlsService :=
  (connection.step s.flow_.server e).bind (fun server =>
    let ended := s.flow_.server.connecting != .idle && server.connecting == .idle
    let code := if e = .on_connect true then .success else err
    if ended && code == .success && e != .on_connect true then none
    else
      some { s.set_server server with posted := if ended then some code else s.posted })

/-- An operation ends, and its handler runs. A handler that does not return leaves no state. -/
def complete (c : Components) (s : TlsService) (t : Completion) :
    Continuation → Option TlsService
  | .on_read_client_hello =>
    ((s.set_input (s.flow_.client_input ++ t.bytes)).on_read_client_hello t).toOption
  | .on_connect_server =>
    if s.posted = some t.error then
      ({ s with posted := none }.on_connect_server c t).toOption
    else none
  | .on_establish_tls_with_server =>
    if t.error = .success ↔ t.handshake.isSome then
      (connection.step s.flow_.server (.on_handshake t.handshake)).bind (fun server =>
        ((s.set_server server).on_establish_tls_with_server c t).toOption)
    else none
  | .on_establish_tls_with_client =>
    match s.client_on_handshake t with
    | (s, .ok ()) => some (s.on_establish_tls_with_client t)
    -- The error is dropped, and the handler with it.
    | (s, .error (.state _ _)) => some { s with client := { s.client with connected_ := false } }
    | (_, .error _) => none
  | .switch_service _ | .stop => none

def step (c : Components) (s : TlsService) : Event → Option TlsService
  | .complete k t =>
    if k ∈ s.outstanding then complete c { s with outstanding := s.outstanding.erase k } t k
    else none
  | .callback e err =>
    if proxy.http.http1.HttpService.is_callback e then s.server_callback e err else none
  | .other_store store => some { s with server_store_ := store }

end TlsService

end proxy.tls
