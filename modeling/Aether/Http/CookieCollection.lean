-- Collections of cookies, `state/cookie_collection.cpp`, and the cookies of a
-- request, `message/request.cpp`.
import Aether.Http.Cookie
import Aether.Http.Message

open util.string lib.ordered_map

namespace proxy.http

structure CookieCollection where
  cookies_ : OrderedMap less Cookie
  deriving DecidableEq, Repr

namespace CookieCollection

def empty : CookieCollection := ⟨.empty⟩

/-- `set`. A cookie of the same name is assigned. -/
def set (cookies : CookieCollection) (cook : Cookie) : CookieCollection :=
  ⟨cookies.cookies_.insert_or_assign cook.name cook⟩

def get (cookies : CookieCollection) (name : Text) : Option Cookie := cookies.cookies_.find name

def request_string (cookies : CookieCollection) : Text :=
  match cookies.cookies_.entries with
  | [] => []
  | e :: entries =>
    e.2.request_string ++ entries.flatMap (fun e => text "; " ++ e.2.request_string)

/-- What a turn of the loop of `parse_request_header` adds. -/
def parse_cookie (header : Text) (i : Nat) (result : CookieCollection) :
    Except Error CookieCollection :=
  match entry_separator header i with
  | some separator => do
    let name ← substring header i (some separator)
    let value ← substring header (separator + 1) (find header semicolon i)
    pure (result.set (.new (trim name) (trim value)))
  | none => pure result

/-- The loop of `parse_request_header`, which goes on by one character before it looks for
anything. -/
def parse_cookies (header : Text) (i : Nat) (result : CookieCollection) :
    Except Error CookieCollection :=
  if i < header.length then do
    let result ← parse_cookie header (i + 1) result
    match _hend : find header semicolon (i + 1) with
    | some cookie_end => parse_cookies header cookie_end result
    | none => pure result
  else pure result
termination_by header.length - i
decreasing_by
  have hrange := find_range _hend
  omega

def parse_request_header (header : Text) : Except Error CookieCollection :=
  parse_cookies header 0 .empty

end CookieCollection

namespace Request

/-- `get_cookies`. -/
def get_cookies (req : Request) : Except Error CookieCollection :=
  CookieCollection.parse_request_header ((req.get_header (text "Cookie")).toOption.getD [])

/-- `set_cookies`. -/
def set_cookies (req : Request) (cookies : CookieCollection) : Request :=
  { req with toMessage := req.set_header_to_value (text "Cookie") cookies.request_string }

end Request

end proxy.http
