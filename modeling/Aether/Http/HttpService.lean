-- The service for HTTP, `http1/http_service.cpp`, with what it uses of
-- `base_service.cpp`.
--
-- A handler leaves continuations: the operations that it starts, a switch to
-- another service, or a stop. Interceptors are functions that come with the end of
-- an operation, so each run of one may do something else. Those for events of the
-- server see no exchange, and are left out.
import Aether.Connection.ServerConnection
import Aether.Http.TargetValidation

open util.string util.buffer proxy.connection

namespace proxy.websocket.handshake

/-! ## Handshakes of WebSocket -/

def is_upgrade (msg : http.Message) : Bool :=
  msg.header_has_token (text "Connection") (text "Upgrade") true &&
    msg.header_has_token (text "Upgrade") (text "websocket") true

/-- `is_handshake` of a request. -/
def is_request_handshake (req : http.Request) : Bool :=
  is_upgrade req.toMessage &&
    req.header_has_value (text "Sec-WebSocket-Version") (text "13") false &&
    req.header_is_nonempty (text "Sec-WebSocket-Key")

/-- `is_handshake` of a response. -/
def is_response_handshake (res : http.Response) : Bool :=
  is_upgrade res.toMessage && res.header_is_nonempty (text "Sec-WebSocket-Accept")

end proxy.websocket.handshake

namespace proxy.http.http1

/-! ## The state -/

/-- `boost::system::error_code`. -/
inductive ErrorCode where
  | success
  | operation_aborted
  | eof
  | other (value : Nat)
  deriving DecidableEq, Repr

/-- `error_state`. -/
structure ErrorState where
  boost_error_code_ : ErrorCode
  proxy_error_code_ : Option errc
  message_ : Text
  deriving DecidableEq, Repr

inductive ServiceKind where
  | http_service
  | websocket_service
  | tunnel_service
  | tls_service
  deriving DecidableEq, Repr

/-- What is to come after a handler: an operation, by the handler that it calls, or another service,
or none. -/
inductive Continuation where
  | on_read_request_head
  | on_read_request_body
  | on_connect_server
  | on_forward_request
  | on_read_response_head
  | on_read_response_body
  | on_forward_response
  | on_send_connect_response
  | on_write_error_response
  | switch_service (next : ServiceKind)
  | stop
  deriving DecidableEq, Repr

/-- The fields of `connection_flow` that the service uses. -/
structure Flow where
  client_input : Text
  server : System
  intercept_tls_ : Bool
  intercept_websocket_ : Bool
  error : ErrorState
  deriving DecidableEq, Repr

/-- A request that was written for the server, and the endpoint that a connect had last succeeded
to. -/
structure Forwarded where
  request : Request
  endpoint : Option (Host × Port)
  deriving DecidableEq, Repr

/-- A response that was written for the client, and the one that the server gave for it. -/
structure Delivered where
  request : Request
  received : Option Response
  response : Response
  deriving DecidableEq, Repr

/-- The service and its flow. The continuations are those that are still to come. A connect that is
over has posted its handler with a code. The last two fields have all that was written. -/
structure HttpService where
  parser_ : HttpParser
  flow_ : Flow
  outstanding : List Continuation
  posted : Option ErrorCode
  forwarded : List Forwarded
  delivered : List Delivered
  deriving DecidableEq, Repr

inductive HttpEvent where
  | any_request
  | connect
  | request
  | websocket_handshake
  | response
  | error
  deriving DecidableEq, Repr

/-- What an interceptor may change. -/
structure Intercepted where
  exchange_ : Exchange
  intercept_tls_ : Bool
  intercept_websocket_ : Bool
  deriving DecidableEq, Repr

/-- The end of an operation, with what the handler finds while it runs: the bytes that the operation
added to the buffer, what the interceptors do, whether the connection to the server has been closed,
and what the synchronous write ends with. -/
structure Completion where
  error : ErrorCode
  bytes_transferred : Nat
  data : Text
  intercept : HttpEvent → Intercepted → Intercepted
  has_been_closed : Bool
  write_err : ErrorCode

/-- The options that the service uses, the id of the flow, and the texts of the error codes of the
library. -/
structure Components where
  port : Port
  body_size_limit : Nat
  ssl_passthrough : Bool
  ssl_passthrough_strict : Bool
  websocket_passthrough : Bool
  websocket_passthrough_strict : Bool
  id : Text
  message : ErrorCode → Text
  print : ErrorCode → Text

namespace ErrorState

def new : ErrorState := ⟨.success, none, []⟩

def has_proxy_error (e : ErrorState) : Bool := e.proxy_error_code_.isSome

def set_boost_error (e : ErrorState) (code : ErrorCode) : ErrorState :=
  { e with boost_error_code_ := code }

/-- The message of the code of the proxy. -/
def proxy_message (e : ErrorState) : Text :=
  match e.proxy_error_code_ with
  | some code => text code.message
  | none => text "Success"

def get_message_or_proxy (e : ErrorState) : Text :=
  if e.message_ = [] then e.proxy_message else e.message_

def message (c : Components) (e : ErrorState) : Text :=
  if e.message_ ≠ [] then e.message_
  else
    e.proxy_message ++
      if e.boost_error_code_ ≠ .success then
        text " (boost: " ++ c.print e.boost_error_code_ ++ text ")"
      else []

end ErrorState

namespace HttpService

def exchange_ (s : HttpService) : Exchange := s.parser_.exchange_

def request (s : HttpService) : Request := s.exchange_.req_

def response (s : HttpService) : Response := s.exchange_.response

def set_exchange (s : HttpService) (exchange : Exchange) : HttpService :=
  { s with parser_ := { s.parser_ with exchange_ := exchange } }

def set_request (s : HttpService) (req : Request) : HttpService :=
  s.set_exchange (s.exchange_.set_request req)

def set_response (s : HttpService) (res : Response) : HttpService :=
  s.set_exchange (s.exchange_.set_response res)

def set_error (s : HttpService) (error : ErrorState) : HttpService :=
  { s with flow_ := { s.flow_ with error := error } }

def set_server_connection (s : HttpService) (server : System) : HttpService :=
  { s with flow_ := { s.flow_ with server := server } }

/-- A continuation is left. -/
def leave (s : HttpService) (k : Continuation) : HttpService :=
  { s with outstanding := s.outstanding ++ [k] }

/-- `interceptors_.http.run`. -/
def intercept (s : HttpService) (t : Completion) (event : HttpEvent) : HttpService :=
  let i := t.intercept event ⟨s.exchange_, s.flow_.intercept_tls_, s.flow_.intercept_websocket_⟩
  { s.set_exchange i.exchange_ with
    flow_ := { s.flow_ with
      intercept_tls_ := i.intercept_tls_
      intercept_websocket_ := i.intercept_websocket_ } }

/-- The stream over the input buffer of the client, and the buffer after a read. -/
def client_stream (s : HttpService) : Istream := Istream.new s.flow_.client_input

def client_read (s : HttpService) (p : HttpParser) (inp : Istream) : HttpService :=
  { s with parser_ := p, flow_ := { s.flow_ with client_input := inp.rdbuf } }

/-- The same of the server. -/
def server_input (s : HttpService) : Text := s.flow_.server.server.input_.map From.value

def server_stream (s : HttpService) : Istream := Istream.new s.server_input

def server_read (s : HttpService) (p : HttpParser) (inp : Istream) : HttpService :=
  let taken := s.server_input.length - inp.rdbuf.length
  { s.set_server_connection (s.flow_.server.consume taken) with parser_ := p }

def stop (s : HttpService) : HttpService := s.leave .stop

/-! ## Errors -/

def server_name : Text := text "Aether"

def full_server_name : Text := text "Aether 2.0"

def error_page (status : Status) (msg : Text) : Text :=
  let reason := match status_to_reason status with
    | .ok reason => reason
    | .error _ => text "Unknown status code"
  let title := decimal status.to_size ++ text " " ++ reason
  text "<html><head>" ++ text "<title>" ++ title ++ text "</title>" ++ text "</head><body>" ++
    text "<h1>" ++ title ++ text "</h1>" ++ text "<p>" ++ msg ++ text "</p>" ++
    text "</body></html>"

def error_response (status : Status) (msg : Text) : Response :=
  let res := { Response.new with status_ := status, body_ := error_page status msg }
  { res with toMessage := (((res.add_header (text "Server") full_server_name).add_header
      (text "Connection") (text "close")).add_header
      (text "Content-Type") (text "text/html")).set_content_length }

/-- A response is put into the output buffer of the client. -/
def deliver (s : HttpService) (received : Option Response) (res : Response) : HttpService :=
  { s with delivered := s.delivered ++ [⟨s.request, received, res⟩] }

def send_error_response (s : HttpService) (status : Status) (msg : Text) : HttpService :=
  let s := s.set_response (error_response status msg)
  (s.deliver none s.response).leave .on_write_error_response

/-- The end of a handler for a `result` that holds an error. -/
def fail (s : HttpService) (status : Status) : Error → Except Error HttpService
  | .state code message =>
    .ok ((s.set_error ⟨.success, some code, text message⟩).send_error_response status
      (text message))
  | e => .error e

/-- The end of a handler for an operation that failed. -/
def fail_operation (s : HttpService) (c : Components) (aborted other : Status)
    (error : ErrorCode) : HttpService :=
  let s := s.set_error (s.flow_.error.set_boost_error error)
  s.send_error_response (if error = .operation_aborted then aborted else other) (c.message error)

/-! ## The response -/

def forward_response (s : HttpService) (received : Option Response) : HttpService :=
  (s.deliver received s.response).leave .on_forward_response

def modify_response (s : HttpService) (c : Components) (t : Completion) : HttpService :=
  let received := s.response
  let s := s.set_response { s.response with
    toMessage := s.response.set_header_to_value (server_name ++ text "-Connection-Id") c.id }
  (s.intercept t .response).forward_response (some received)

/-- `read_response_body`, with `read_response_body_impl` in it. -/
def read_response_body (s : HttpService) (c : Components) (t : Completion) (eof : Bool) :
    Except Error HttpService :=
  match s.parser_.read_body s.server_stream .response with
  | .error e => s.fail .internal_server_error e
  | .ok (done, p, inp) =>
    let s := s.server_read p inp
    if done then .ok (s.modify_response c t)
    else if eof then
      -- Body is not finished, and nothing more to read.
      let err := ⟨.eof, some .malformed_response_body, []⟩
      .ok ((s.set_error err).send_error_response .internal_server_error (err.message c))
    else .ok (s.leave .on_read_response_body)

def on_read_response_body (s : HttpService) (c : Components) (t : Completion) :
    Except Error HttpService :=
  if t.error ≠ .success then
    -- This may be desired if reading body until end of stream.
    if t.error = .eof then s.read_response_body c t true
    else .ok (s.fail_operation c .gateway_timeout .internal_server_error t.error)
  else s.read_response_body c t (t.bytes_transferred == 0)

def read_response_head (s : HttpService) : HttpService := s.leave .on_read_response_head

/-- `on_read_response_head`, with `on_read_response_head_impl` in it. -/
def on_read_response_head (s : HttpService) (c : Components) (t : Completion) :
    Except Error HttpService :=
  if t.error ≠ .success then
    .ok (s.fail_operation c .gateway_timeout .internal_server_error t.error)
  else
    let s := s.set_exchange s.exchange_.make_response
    match s.parser_.read_response_line s.server_stream with
    | .error e => s.fail .internal_server_error e
    | .ok (p, inp) =>
      match p.read_headers inp .response with
      | .error e => (s.server_read p inp).fail .internal_server_error e
      | .ok (p, inp) => (s.server_read p inp).read_response_body c t false

/-! ## The server -/

def forbidden_hosts : List Host := [text "localhost", text "127.0.0.1", text "::1"]

/-- `base_service::set_server`. -/
def set_server (s : HttpService) (c : Components) (host : Host) (port : Port) :
    HttpService × Except Error Unit :=
  if s.flow_.server.server.is_connected_to host port then (s, .ok ())
  else
    let server := s.flow_.server.set_server host port
    let s := s.set_server_connection server
    if server.target_host_ ∈ forbidden_hosts ∧ server.target_port_ = c.port then
      (s, .error (default_error .self_connect))
    else (s, .ok ())

/-- `connect_server`. The handler is posted at once if the connection is open. -/
def connect_server (s : HttpService) (t : Completion) : HttpService :=
  let server := s.flow_.server
  let open_ := server.server.is_connected_to server.target_host_ server.target_port_ &&
    !t.has_been_closed
  let s := { s with posted := if open_ then some .success else none }
  (s.set_server_connection (server.connect_async t.has_been_closed)).leave .on_connect_server

/-- A request is put into the output buffer of the server. -/
def send (s : HttpService) : HttpService :=
  { s with forwarded := s.forwarded ++ [⟨s.request, s.flow_.server.endpoint⟩] }

def forward_request (s : HttpService) : HttpService := s.send.leave .on_forward_request

def on_connect_server (s : HttpService) (c : Components) (t : Completion) : HttpService :=
  if t.error ≠ .success then s.fail_operation c .gateway_timeout .bad_gateway t.error
  else s.forward_request

def on_forward_request (s : HttpService) (c : Components) (t : Completion) : HttpService :=
  if t.error ≠ .success then s.fail_operation c .gateway_timeout .internal_server_error t.error
  else s.read_response_head

/-! ## The request -/

def continue_response : Response := ⟨⟨.http1_1, .empty, []⟩, .continue_⟩

def connect_response : Response := ⟨⟨.http1_1, .empty, []⟩, .ok⟩

def send_connect_response (s : HttpService) : HttpService :=
  (s.deliver none s.response).leave .on_send_connect_response

/-- The case of a CONNECT in `handle_request_impl`. -/
def handle_connect (s : HttpService) (c : Components) (t : Completion) :
    Except Error HttpService :=
  let s := s.intercept t .connect
  match s.set_server c s.request.host_name s.request.host_port with
  | (s, .error e) => s.fail .bad_request e
  | (s, .ok ()) =>
    -- An interceptor may set a response.
    let s := if s.exchange_.has_response then s else s.set_response connect_response
    .ok s.send_connect_response

/-- The case of a request that expects a response before its body. The response is written at
once. -/
def handle_expect (s : HttpService) (t : Completion) : HttpService :=
  let s := s.deliver none continue_response
  if t.write_err ≠ .success then s.stop
  else s.set_request { s.request with toMessage := s.request.remove_header (text "Expect") }

/-- The other case. -/
def handle_other (s : HttpService) (c : Components) (t : Completion) : Except Error HttpService :=
  let s := s.intercept t .request
  match s.set_server c s.request.host_name s.request.host_port with
  | (s, .error e) => s.fail .bad_request e
  | (s, .ok ()) =>
    if s.exchange_.has_response then .ok (s.forward_response none)
    else
      -- Must get the response from the server.
      let s :=
        if websocket.handshake.is_request_handshake s.request then
          s.intercept t .websocket_handshake
        else s
      .ok (s.connect_server t)

/-- The request as the interceptors of all requests leave it. -/
def intercept_request (s : HttpService) (t : Completion) (req : Request) : HttpService :=
  let s := (s.set_request req).intercept t .any_request
  -- Insert Via header.
  s.set_request { s.request with
    toMessage := s.request.add_header (text "Via") (text "1.1 aether") }

/-- `handle_request`, with `handle_request_impl` in it. -/
def handle_request (s : HttpService) (c : Components) (t : Completion) :
    Except Error HttpService :=
  match validate_target s.flow_.server.server.secured s.request with
  | .error e => s.fail .bad_request e
  | .ok req =>
    let s := s.intercept_request t req
    if s.request.target_.form = .authority then s.handle_connect c t
    else if s.request.header_has_value (text "Expect") (text "100-continue") false then
      .ok (s.handle_expect t)
    else s.handle_other c t

/-- `read_request_body`, with `read_request_body_impl` in it. -/
def read_request_body (s : HttpService) (c : Components) (t : Completion) :
    Except Error HttpService :=
  match s.parser_.read_body s.client_stream .request with
  | .error e => s.fail .bad_request e
  | .ok (done, p, inp) =>
    let s := s.client_read p inp
    if done then s.handle_request c t else .ok (s.leave .on_read_request_body)

def on_read_request_body (s : HttpService) (c : Components) (t : Completion) :
    Except Error HttpService :=
  if t.error ≠ .success then .ok (s.fail_operation c .request_timeout .bad_request t.error)
  else s.read_request_body c t

def read_request_head (s : HttpService) : HttpService := s.leave .on_read_request_head

def on_read_request_head (s : HttpService) (c : Components) (t : Completion) :
    Except Error HttpService :=
  if t.error ≠ .success then
    -- No new request started.
    if t.bytes_transferred = 0 then .ok s.stop
    else .ok (s.fail_operation c .request_timeout .bad_request t.error)
  else
    match s.parser_.read_request_line s.client_stream with
    | .error e => s.fail .bad_request e
    | .ok (p, inp) =>
      match p.read_headers inp .request with
      | .error e => (s.client_read p inp).fail .bad_request e
      | .ok (p, inp) => (s.client_read p inp).read_request_body c t

/-! ## The end of an exchange -/

def handle_response (s : HttpService) (c : Components) : HttpService :=
  if s.request.should_close_connection || s.response.should_close_connection then s.stop
  else if s.response.status_ = .switching_protocols then
    if !c.websocket_passthrough_strict &&
        (!c.websocket_passthrough || s.flow_.intercept_websocket_) &&
        websocket.handshake.is_request_handshake s.request &&
        websocket.handshake.is_response_handshake s.response then
      s.leave (.switch_service .websocket_service)
    else s.leave (.switch_service .tunnel_service)
  else s.leave (.switch_service .http_service)

def on_forward_response (s : HttpService) (c : Components) (t : Completion) : HttpService :=
  if t.error ≠ .success then (s.set_error (s.flow_.error.set_boost_error t.error)).stop
  else s.handle_response c

def on_send_connect_response (s : HttpService) (c : Components) : HttpService :=
  if s.response.is_2xx then
    -- Interceptors can mask a CONNECT request and treat it like a normal request.
    if s.exchange_.mask_connect_ then s.leave (.switch_service .http_service)
    else if c.ssl_passthrough_strict || (c.ssl_passthrough && !s.flow_.intercept_tls_) then
      s.leave (.switch_service .tunnel_service)
    else s.leave (.switch_service .tls_service)
  else if s.response.is_3xx then s.leave (.switch_service .http_service)
  else s.stop

def on_write_error_response (s : HttpService) (t : Completion) : HttpService :=
  (s.intercept t .error).stop

/-- `start`, of a new service. -/
def start (s : HttpService) (c : Components) : HttpService :=
  let s := { s with parser_ := HttpParser.new c.body_size_limit .new }
  -- Errors may be stored up to be sent over HTTP.
  if s.flow_.error.has_proxy_error then
    s.send_error_response .bad_gateway s.flow_.error.get_message_or_proxy
  else s.read_request_head

/-! ## Runs -/

/-- The handler that an operation calls. -/
def handle (s : HttpService) (c : Components) (t : Completion) :
    Continuation → Except Error HttpService
  | .on_read_request_head => s.on_read_request_head c t
  | .on_read_request_body => s.on_read_request_body c t
  | .on_connect_server => .ok (s.on_connect_server c t)
  | .on_forward_request => .ok (s.on_forward_request c t)
  | .on_read_response_head => s.on_read_response_head c t
  | .on_read_response_body => s.on_read_response_body c t
  | .on_forward_response => .ok (s.on_forward_response c t)
  | .on_send_connect_response => .ok (s.on_send_connect_response c)
  | .on_write_error_response => .ok (s.on_write_error_response t)
  -- No operation calls these.
  | .switch_service next => .ok (s.leave (.switch_service next))
  | .stop => .ok s.stop

/-- What the end of an operation leaves in the connections. -/
def arrive (s : HttpService) (t : Completion) : Continuation → Option HttpService
  | .on_read_request_head | .on_read_request_body =>
    some { s with flow_ := { s.flow_ with client_input := s.flow_.client_input ++ t.data } }
  | .on_connect_server => if s.posted = some t.error then some { s with posted := none } else none
  | .on_forward_request =>
    (connection.step s.flow_.server (.on_write (t.error != .success))).map s.set_server_connection
  | .on_read_response_head | .on_read_response_body =>
    (connection.step s.flow_.server (.on_read t.data (t.error != .success))).map
      s.set_server_connection
  | .on_forward_response | .on_send_connect_response | .on_write_error_response => some s
  | .switch_service _ | .stop => none

/-- A callback of the connection to the server, outside of the operations of the service. If it ends
a connect, the handler is posted with a code. -/
def server_callback (s : HttpService) (e : connection.Event) (err : ErrorCode) :
    Option HttpService :=
  (connection.step s.flow_.server e).bind (fun server =>
    let ended := s.flow_.server.connecting != .idle && server.connecting == .idle
    let code := if e = .on_connect true then .success else err
    if ended && code == .success && e != .on_connect true then none
    else
      some { s.set_server_connection server with
        posted := if ended then some code else s.posted })

/-- The callbacks of a connect, and those of a timeout. -/
def is_callback : connection.Event → Bool
  | .on_resolve _ | .on_connect _ | .on_timeout => true
  | _ => false

/-- What a service that is not this one does with the connection to the server: all but a new target
and a close. It begins a connect only if none is going on. -/
def of_other_service (server : System) : connection.Event → Bool
  | .set_server _ _ | .disconnect => false
  | .connect_async _ => server.connecting == .idle
  | _ => true

inductive Event where
  /-- A service of this kind begins. -/
  | start
  | complete (k : Continuation) (t : Completion)
  | callback (e : connection.Event) (err : ErrorCode)
  /-- A step of another service, and what it leaves in the flow. -/
  | other_server (e : connection.Event)
  | other_flow (client_input : Text) (error : ErrorState) (intercept_tls intercept_websocket : Bool)

/-- A service of this kind is next, or one that leads to it. That one switches when its connect is
over. -/
def starts (s : HttpService) : Bool :=
  (s.outstanding == [.switch_service .http_service] ||
    s.outstanding == [.switch_service .tls_service]) && s.flow_.server.connecting == .idle

/-- Another service is at work. -/
def left_to_other (s : HttpService) : Bool :=
  s.outstanding == [.switch_service .tls_service] ||
    s.outstanding == [.switch_service .websocket_service] ||
    s.outstanding == [.switch_service .tunnel_service]

/-- A step of the service, or of what it works with. A handler that does not return leaves none. -/
def step (c : Components) (s : HttpService) : Event → Option HttpService
  | .start => if s.starts then some ({ s with outstanding := [] }.start c) else none
  | .complete k t =>
    if k ∈ s.outstanding then
      ({ s with outstanding := s.outstanding.erase k }.arrive t k).bind
        (fun s => (s.handle c t k).toOption)
    else none
  | .callback e err => if is_callback e then s.server_callback e err else none
  | .other_server e =>
    if s.left_to_other && of_other_service s.flow_.server e then
      (connection.step s.flow_.server e).map s.set_server_connection
    else none
  | .other_flow client_input error intercept_tls intercept_websocket =>
    if s.left_to_other then
      some { s with flow_ := { s.flow_ with
        client_input := client_input
        error := error
        intercept_tls_ := intercept_tls
        intercept_websocket_ := intercept_websocket } }
    else none

/-- A client has connected. -/
def new (c : Components) : HttpService :=
  ⟨.new c.body_size_limit .new, ⟨[], .new, false, false, .new⟩, [.switch_service .http_service],
    none, [], []⟩

end HttpService

end proxy.http.http1
