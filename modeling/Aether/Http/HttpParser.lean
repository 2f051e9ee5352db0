-- The parser of messages, `http1/http_parser.cpp`.
--
-- A call that fails leaves the parser to nobody, so it gives only the error. The
-- fields are those of the class, but that those of the body stand together.
import Aether.Http.Message
import Aether.Util.Istream

open util.string util.buffer

namespace proxy.http.http1

inductive MessageMode where
  | unknown
  | request
  | response
  deriving DecidableEq, Repr

inductive BodySizeType where
  | none
  | given
  | chunked
  | all
  deriving DecidableEq, Repr

structure BodyParsingState where
  mode : MessageMode
  type : BodySizeType
  expected_size : Nat
  read : Nat
  finished : Bool
  next_chunk_size_known : Bool
  deriving DecidableEq, Repr

def BodyParsingState.new : BodyParsingState := ⟨.unknown, .none, 0, 0, false, false⟩

/-- What a body leaves between two calls: `state_` and the segments of the body. -/
structure BodyReader where
  state_ : BodyParsingState
  chunk_header_buf_ : CountedSegment
  chunk_suffix_buf_ : CountedSegment
  body_buf_ : CountedSegment
  deriving DecidableEq, Repr

def BodyReader.new : BodyReader := ⟨.new, .new, .new, .new⟩

/-- The segments of the lines. -/
structure LineSegments where
  request_method_buf_ : CountedSegment
  request_target_buf_ : CountedSegment
  request_version_buf_ : CountedSegment
  response_version_buf_ : CountedSegment
  response_code_buf_ : CountedSegment
  response_msg_buf_ : CountedSegment
  header_buf_ : CountedSegment
  deriving DecidableEq, Repr

def LineSegments.new : LineSegments := ⟨.new, .new, .new, .new, .new, .new, .new⟩

structure HttpParser where
  /-- `options_.body_size_limit`. -/
  body_size_limit : Nat
  exchange_ : Exchange
  lines : LineSegments
  body : BodyReader
  deriving DecidableEq, Repr

namespace HttpParser

def new (body_size_limit : Nat) (exchange : Exchange) : HttpParser :=
  ⟨body_size_limit, exchange, .new, .new⟩

def assert_not_unknown (mode : MessageMode) : Except Error Unit :=
  if mode = .unknown then .error (proxy_error .parser_error "Cannot parse data for unknown mode")
  else .ok ()

/-- `get_data_for_mode`. -/
def get_data_for_mode (p : HttpParser) (mode : MessageMode) : Except Error Message := do
  assert_not_unknown mode
  if mode = .request then return p.exchange_.req_.toMessage
  else return p.exchange_.response.toMessage

/-- A change of that data. A response is made if there is none. -/
def set_data_for_mode (p : HttpParser) (mode : MessageMode) (msg : Message) : HttpParser :=
  if mode = .request then
    { p with exchange_ := p.exchange_.set_request { p.exchange_.req_ with toMessage := msg } }
  else
    { p with
      exchange_ := p.exchange_.set_response { p.exchange_.response with toMessage := msg } }

/-! ## The head -/

def read_request_line (p : HttpParser) (inp : Istream) : Except Error (HttpParser × Istream) := do
  let failure := proxy_error .invalid_request_line "Could not read request line"
  let (method_buf, inp) := p.lines.request_method_buf_.read_until inp Message.SP
  if !method_buf.is_complete_ then .error failure else
  let (target_buf, inp) := p.lines.request_target_buf_.read_until inp Message.SP
  if !target_buf.is_complete_ then .error failure else
  let (version_buf, inp) := p.lines.request_version_buf_.read_until_string inp Message.CRLF
  if !version_buf.is_complete_ then .error failure else
  let verb ← string_to_method method_buf.string_view
  let vers ← string_to_version version_buf.string_view
  let target ← Url.parse_target target_buf.string_view verb
  let req := { p.exchange_.req_ with method_ := verb, version_ := vers, target_ := target }
  let lines := { p.lines with
    request_method_buf_ := ← method_buf.reset
    request_target_buf_ := ← target_buf.reset
    request_version_buf_ := ← version_buf.reset }
  return ({ p with exchange_ := p.exchange_.set_request req, lines := lines }, inp)

/-- The message of the line is discarded. -/
def read_response_line (p : HttpParser) (inp : Istream) : Except Error (HttpParser × Istream) := do
  let failure := proxy_error .invalid_response_line "Could not read response line"
  let (version_buf, inp) := p.lines.response_version_buf_.read_until inp Message.SP
  if !version_buf.is_complete_ then .error failure else
  let (code_buf, inp) := p.lines.response_code_buf_.read_until inp Message.SP
  if !code_buf.is_complete_ then .error failure else
  let (msg_buf, inp) := p.lines.response_msg_buf_.read_until_string inp Message.CRLF
  if !msg_buf.is_complete_ then .error failure else
  let vers ← string_to_version version_buf.string_view
  let res := { p.exchange_.response with
    version_ := vers
    status_ := string_to_status code_buf.string_view }
  let lines := { p.lines with
    response_version_buf_ := ← version_buf.reset
    response_code_buf_ := ← code_buf.reset
    response_msg_buf_ := ← msg_buf.reset }
  return ({ p with exchange_ := p.exchange_.set_response res, lines := lines }, inp)

/-- A line of `read_headers` that is not empty. -/
def read_field (line : Text) : Except Error Header :=
  match find line colon 0 with
  | none =>
    .error (proxy_error .invalid_header
      ("No value set for header \"" ++ display line ++ "\""))
  | some delim => .ok (line.take delim, trim (line.drop (delim + 1)))

/-- The loop of `read_headers`. Each turn takes a line from the stream. -/
def read_headers_loop : Nat → Message → CountedSegment → Istream →
    Except Error (Message × CountedSegment × Istream)
  | 0, msg, header_buf, inp => .ok (msg, header_buf, inp)
  | turns + 1, msg, header_buf, inp => do
    let (header_buf, inp) := header_buf.read_until_string inp Message.CRLF
    if !header_buf.is_complete_ then
      .error (proxy_error .invalid_header "Error when reading header")
    else if header_buf.string_view = [] then return (msg, ← header_buf.reset, inp)
    else
      let (name, value) ← read_field header_buf.string_view
      read_headers_loop turns (msg.add_header name value) (← header_buf.reset) inp

def read_headers (p : HttpParser) (inp : Istream) (mode : MessageMode) :
    Except Error (HttpParser × Istream) := do
  let msg ← p.get_data_for_mode mode
  let (msg, header_buf, inp) ←
    read_headers_loop (inp.rdbuf.length + 1) msg p.lines.header_buf_ inp
  let p := p.set_data_for_mode mode msg
  return ({ p with lines := { p.lines with header_buf_ := header_buf } }, inp)

/-- The head of a request, as the service has the parser read it. -/
def read_head (p : HttpParser) (head : Text) : Except Error HttpParser := do
  let (p, inp) ← p.read_request_line (Istream.new head)
  let (p, _) ← p.read_headers inp .request
  return p

/-! ## The body -/

/-- The cases of `expected_body_size` that come before the framing headers. -/
def has_no_body (p : HttpParser) (mode : MessageMode) : Bool :=
  let req := p.exchange_.req_
  if mode = .request then
    match req.get_header (text "Expect") with
    | .ok value => value == text "100-continue"
    | .error _ => false
  else
    match p.exchange_.res_ with
    | none => false
    | some res =>
      req.method_ == .HEAD || res.is_1xx || res.status_ == .no_content ||
        res.status_ == .not_modified || (res.status_ == .ok && req.method_ == .CONNECT)

/-- The size that `Content-Length` gives, from all of its values. -/
def content_length (sizes : List Text) : Except Error Nat :=
  -- No two that are adjacent may differ.
  if (sizes.zip sizes.tail).any (fun s => s.1 != s.2) then
    .error (proxy_error .invalid_body_size "Conflicting Content-Length headers")
  else
    match lexical_cast_long_long (sizes.headD []) with
    | none => .error (proxy_error .invalid_body_size "Invalid Content-Length value")
    | some size =>
      if size < 0 then .error (proxy_error .invalid_body_size "Invalid Content-Length value")
      else .ok size.toNat

def expected_body_size (p : HttpParser) (mode : MessageMode) :
    Except Error (BodySizeType × Nat) := do
  if p.has_no_body mode then return (.none, 0)
  else
    let msg ← p.get_data_for_mode mode
    if msg.chunked then return (.chunked, 0)
    else if msg.has_header (text "Content-Length") then
      return (.given, ← content_length (msg.get_all_of_header (text "Content-Length")))
    else if mode = .request then return (.none, 0)
    else return (.all, 0)

end HttpParser

namespace BodyReader

/-- What a turn of the loop over chunks comes to: the next turn, or a `break`. -/
inductive Turn where
  | next
  | stop
  deriving DecidableEq, Repr

/-- The end of a chunk: its data is in the body, and its suffix is next. -/
def read_chunk_suffix (r : BodyReader) (inp : Istream) :
    Except Error (Turn × BodyReader × Istream) := do
  let (suffix_buf, inp) := r.chunk_suffix_buf_.read_until_string inp Message.CRLF
  if !suffix_buf.is_complete_ then
    return (.stop, { r with chunk_suffix_buf_ := suffix_buf }, inp)
  else if suffix_buf.string_view ≠ [] then .error (default_error .invalid_chunked_body)
  else
    let r := { r with chunk_suffix_buf_ := ← suffix_buf.reset }
    -- This was the last chunk
    if r.state_.expected_size = 0 then
      return (.stop, { r with state_ := { r.state_ with finished := true } }, inp)
    else
      return (.next, { r with
        state_ := { r.state_ with
          read := size_add r.state_.read r.state_.expected_size
          next_chunk_size_known := false
          expected_size := 0 }
        -- Keep the chunk in the body buffer, but allow the next chunk to be read.
        body_buf_ := r.body_buf_.mark_as_incomplete }, inp)

/-- A chunk whose size is known. -/
def read_chunk_data (r : BodyReader) (inp : Istream) :
    Except Error (Turn × BodyReader × Istream) := do
  let (body_buf, inp) ← r.body_buf_.read_up_to_bytes inp r.state_.expected_size
  let r := { r with body_buf_ := body_buf }
  if !body_buf.is_complete_ then return (.stop, r, inp) else r.read_chunk_suffix inp

/-- The size of the chunk from its header, against the limit. -/
def set_chunk_size (r : BodyReader) (limit : Nat) (header_buf : CountedSegment) :
    Except Error BodyReader :=
  match parse_hexadecimal header_buf.string_view with
  | none => .error (default_error .invalid_chunked_body)
  | some size => do
    let header_buf ← header_buf.reset
    -- Going to exceed the limit.
    if limit < size_add r.state_.read size then .error (default_error .body_size_too_large)
    else
      return { r with
        chunk_header_buf_ := header_buf
        state_ := { r.state_ with expected_size := size, next_chunk_size_known := true } }

/-- A turn of the loop over chunks. -/
def read_chunk (limit : Nat) (r : BodyReader) (inp : Istream) :
    Except Error (Turn × BodyReader × Istream) := do
  if r.state_.next_chunk_size_known then r.read_chunk_data inp
  else
    let (header_buf, inp) := r.chunk_header_buf_.read_until_string inp Message.CRLF
    if !header_buf.is_complete_ then
      return (.stop, { r with chunk_header_buf_ := header_buf }, inp)
    else (← r.set_chunk_size limit header_buf).read_chunk_data inp

/-- The loop over chunks. Each turn but the last takes a suffix from the stream. -/
def read_chunks (limit : Nat) : Nat → BodyReader → Istream → Except Error (BodyReader × Istream)
  | 0, r, inp => .ok (r, inp)
  | turns + 1, r, inp => do
    match ← read_chunk limit r inp with
    | (.next, r, inp) => read_chunks limit turns r inp
    | (.stop, r, inp) => return (r, inp)

/-- The case of a given size. -/
def read_given (r : BodyReader) (inp : Istream) : Except Error (BodyReader × Istream) := do
  let (body_buf, inp) ← r.body_buf_.read_up_to_bytes inp r.state_.expected_size
  let r := { r with body_buf_ := body_buf }
  if body_buf.is_complete_ then
    return ({ r with
      state_ := { r.state_ with read := r.state_.expected_size, finished := true } }, inp)
  else return (r, inp)

/-- The case of a body until the end of the stream. -/
def read_until_eof (limit : Nat) (r : BodyReader) (inp : Istream) :
    Except Error (BodyReader × Istream) :=
  let (body_buf, inp) := r.body_buf_.read_all inp
  let body_buf := body_buf.mark_as_incomplete
  let just_read := body_buf.bytes_last_read
  let state := { r.state_ with read := size_add r.state_.read just_read }
  if limit < state.read then .error (default_error .body_size_too_large)
  else
    .ok ({ r with
      body_buf_ := body_buf
      state_ := { state with finished := state.finished || just_read == 0 } }, inp)

/-- A call, once the state is set up. -/
def read (limit : Nat) (r : BodyReader) (inp : Istream) : Except Error (BodyReader × Istream) :=
  match r.state_.type with
  | .chunked => read_chunks limit (inp.rdbuf.length + 1) r inp
  | .given => r.read_given inp
  | _ => r.read_until_eof limit inp

/-- The state of a body whose framing is known. -/
def start (limit : Nat) (mode : MessageMode) (type : BodySizeType) (size : Nat) (r : BodyReader) :
    Except Error BodyReader :=
  if limit < size then .error (default_error .body_size_too_large)
  else
    .ok { r with
      state_ := ⟨mode, type, if type = .all then limit else size, 0, false, false⟩ }

end BodyReader

namespace HttpParser

/-- The end of `read_body`: a body that is finished goes to its message. -/
def finish_body (p : HttpParser) (mode : MessageMode) : Except Error (Bool × HttpParser) := do
  if p.body.state_.finished then
    let msg ← p.get_data_for_mode mode
    let p := p.set_data_for_mode mode { msg with body_ := p.body.body_buf_.string_view }
    let body_buf ← p.body.body_buf_.reset
    return (true, { p with body := { p.body with state_ := .new, body_buf_ := body_buf } })
  else return (false, p)

/-- `read_body`: whether the body is complete, the parser, and the stream. -/
def read_body (p : HttpParser) (inp : Istream) (mode : MessageMode) :
    Except Error (Bool × HttpParser × Istream) := do
  if p.body.state_.mode = .unknown then
    let (type, size) ← p.expected_body_size mode
    if type = .none then return (true, p, inp)
    else
      let body ← p.body.start p.body_size_limit mode type size
      let (body, inp) ← body.read p.body_size_limit inp
      let (complete, p) ← { p with body := body }.finish_body mode
      return (complete, p, inp)
  else
    let (body, inp) ← p.body.read p.body_size_limit inp
    let (complete, p) ← { p with body := body }.finish_body mode
    return (complete, p, inp)

end HttpParser

end proxy.http.http1
