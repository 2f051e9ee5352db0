-- What stands on the first line of a message: the method, the version and the
-- status, `message/method.cpp`, `message/version.cpp` and `message/status.cpp`.
import Aether.Error
import Aether.Util.Bytes
import Aether.Util.Text

open util.bytes util.string

namespace proxy.http

/-! ## Methods -/

inductive Method where
  | GET | HEAD | POST | OPTIONS | PUT | DELETE | TRACE | CONNECT | COPY | LOCK | MKCOL | MOVE
  | PROPFIND | PROPPATCH | UNLOCK | SEARCH | BIND | REBIND | UNBIND | ACL | REPORT | MKACTIVITY
  | CHECKOUT | MERGE | MSEARCH | NOTIFY | SUBSCRIBE | UNSUBSCRIBE | PATCH | MKCALENDAR | LINK
  | UNLINK | PURGE
  deriving DecidableEq, Repr

/-- `HTTP_METHODS`. -/
def methods : List Method :=
  [.GET, .HEAD, .POST, .OPTIONS, .PUT, .DELETE, .TRACE, .CONNECT, .COPY, .LOCK, .MKCOL, .MOVE,
    .PROPFIND, .PROPPATCH, .UNLOCK, .SEARCH, .BIND, .REBIND, .UNBIND, .ACL, .REPORT, .MKACTIVITY,
    .CHECKOUT, .MERGE, .MSEARCH, .NOTIFY, .SUBSCRIBE, .UNSUBSCRIBE, .PATCH, .MKCALENDAR, .LINK,
    .UNLINK, .PURGE]

def Method.name : Method → String
  | GET => "GET"
  | HEAD => "HEAD"
  | POST => "POST"
  | OPTIONS => "OPTIONS"
  | PUT => "PUT"
  | DELETE => "DELETE"
  | TRACE => "TRACE"
  | CONNECT => "CONNECT"
  | COPY => "COPY"
  | LOCK => "LOCK"
  | MKCOL => "MKCOL"
  | MOVE => "MOVE"
  | PROPFIND => "PROPFIND"
  | PROPPATCH => "PROPPATCH"
  | UNLOCK => "UNLOCK"
  | SEARCH => "SEARCH"
  | BIND => "BIND"
  | REBIND => "REBIND"
  | UNBIND => "UNBIND"
  | ACL => "ACL"
  | REPORT => "REPORT"
  | MKACTIVITY => "MKACTIVITY"
  | CHECKOUT => "CHECKOUT"
  | MERGE => "MERGE"
  | MSEARCH => "MSEARCH"
  | NOTIFY => "NOTIFY"
  | SUBSCRIBE => "SUBSCRIBE"
  | UNSUBSCRIBE => "UNSUBSCRIBE"
  | PATCH => "PATCH"
  | MKCALENDAR => "MKCALENDAR"
  | LINK => "LINK"
  | UNLINK => "UNLINK"
  | PURGE => "PURGE"

/-- Each method has its name, so there is no error. -/
def method_to_string (m : Method) : Text := text m.name

def string_to_method (str : Text) : Except Error Method :=
  match methods.find? (fun m => method_to_string m == str) with
  | some m => .ok m
  | none => .error (default_error .invalid_method)

theorem string_to_method_to_string (m : Method) :
    string_to_method (method_to_string m) = .ok m := by
  cases m <;> decide

theorem method_to_string_of {str : Text} {m : Method} (h : string_to_method str = .ok m) :
    str = method_to_string m := by
  unfold string_to_method at h
  split at h
  · rename_i found hfind
    cases h
    have hfound := List.find?_some hfind
    exact (beq_iff_eq.mp hfound).symm
  · cases h

/-! ## Versions -/

inductive Version where
  | http1_0
  | http1_1
  | http2_0
  | http3_0
  deriving DecidableEq, Repr

/-- `HTTP_VERSIONS`. -/
def versions : List Version := [.http1_0, .http1_1, .http2_0, .http3_0]

def Version.name : Version → String
  | http1_0 => "HTTP/1.0"
  | http1_1 => "HTTP/1.1"
  | http2_0 => "HTTP/2.0"
  | http3_0 => "HTTP/3.0"

def version_to_string (v : Version) : Text := text v.name

def string_to_version (str : Text) : Except Error Version :=
  match versions.find? (fun v => version_to_string v == str) with
  | some v => .ok v
  | none => .error (default_error .invalid_version)

theorem string_to_version_to_string (v : Version) :
    string_to_version (version_to_string v) = .ok v := by
  cases v <;> decide

/-! ## Statuses -/

/-- `enum class status`, whose values are those of an `int`. One without a name is allowed. -/
structure Status where
  value : Int
  isInt : -2 ^ 31 ≤ value ∧ value < 2 ^ 31
  deriving DecidableEq, Repr

def code_to_status (code : Nat) : Status := ⟨toInt code, toInt_isInt code⟩

/-- A text that is no number is taken for 500. -/
def string_to_status (str : Text) : Status := code_to_status ((lexical_cast_size str).getD 500)

namespace Status

def continue_ : Status := code_to_status 100

def switching_protocols : Status := code_to_status 101

def ok : Status := code_to_status 200

def no_content : Status := code_to_status 204

def not_modified : Status := code_to_status 304

def bad_request : Status := code_to_status 400

def request_timeout : Status := code_to_status 408

def internal_server_error : Status := code_to_status 500

def bad_gateway : Status := code_to_status 502

def gateway_timeout : Status := code_to_status 504

/-- `static_cast<std::size_t>`. -/
def to_size (s : Status) : Nat := (s.value % 2 ^ 64).toNat

theorem to_size_lt (s : Status) : s.to_size < 2 ^ 64 := by
  unfold to_size
  omega

theorem code_to_size (s : Status) : code_to_status s.to_size = s := by
  obtain ⟨value, hlow, hhigh⟩ := s
  simp only [code_to_status, to_size, mk.injEq]
  unfold toInt
  rw [Int.bmod_def]
  split <;> omega

end Status

/-- `HTTP_STATUS_CODES`, with the reasons. -/
def status_codes : List (Nat × String) :=
  [(100, "Continue"), (101, "Switching Protocols"), (103, "Early Hints"), (200, "OK"),
    (201, "Created"), (202, "Accepted"), (203, "Non-Authoritative Information"),
    (204, "No Content"), (205, "Reset Content"), (206, "Partial Content"),
    (300, "Multiple Choices"), (301, "Moved Permanently"), (302, "Found"), (303, "See Other"),
    (304, "Not Modified"), (305, "Use Proxy"), (307, "Temporary Redirect"),
    (308, "Permanent Redirect"), (400, "Bad Request"), (401, "Unauthorized"),
    (402, "Payment Required"), (403, "Forbidden"), (404, "Not Found"),
    (405, "Method Not Allowed"), (406, "Not Acceptible"), (407, "Proxy Authentication Required"),
    (408, "Request Timeout"), (409, "Conflict"), (410, "Gone"), (411, "Length Required"),
    (412, "Precondition Failed"), (413, "Payload Too Large"), (414, "URI Too Long"),
    (415, "Unsupported Media Type"), (416, "Range Not Satisfiable"), (417, "Expectation Failed"),
    (418, "I'm a teapot"), (422, "Unprocessable Entity"), (425, "Too Early"),
    (426, "Upgrade Required"), (428, "Precondition Required"), (429, "Too Many Requests"),
    (431, "Request Header Fields Too Large"), (451, "Unavailable For Legal Reasons"),
    (500, "Internal Server Error"), (501, "Not Implemented"), (502, "Bad Gateway"),
    (503, "Service Unavailable"), (504, "Gateway Timeout"), (505, "HTTP Version Not Supported"),
    (506, "Variant Also Negotiates"), (507, "Insufficient Storage"), (508, "Loop Detected"),
    (510, "Not Extended"), (511, "Network Authentication Required")]

def status_to_reason (s : Status) : Except Error Text :=
  match status_codes.find? (fun code => code.1 == s.to_size) with
  | some code => .ok (text code.2)
  | none => .error (default_error .invalid_status)

/-- `out << result`: the value, or the message of the error. -/
def print_result : Except Error Text → Text
  | .ok value => value
  | .error (.state _ message) => text message
  | .error _ => []

end proxy.http
