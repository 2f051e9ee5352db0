-- Messages, `message/message.cpp`, `message/request.cpp`, `message/response.cpp`
-- and `exchange.cpp`.
--
-- The headers are a `std::multimap` whose order does not look at case. A new
-- entry goes behind those of the same name, and `find` gives the first of them,
-- as the standard library of the project does it.
import Aether.Http.Url

open util.string

namespace proxy.http

/-! ## Headers -/

abbrev Header := Text × Text

/-- The order of the multimap: no header is less than one before it. -/
def Ordered (fields : List Header) : Prop := fields.Pairwise (fun f g => iless_fn g.1 f.1 = false)

@[ext] structure Headers where
  fields : List Header
  ordered : Ordered fields

/-- `std::multimap::emplace` into the fields: behind all that are not greater. -/
def emplace (name value : Text) : List Header → List Header
  | [] => [(name, value)]
  | f :: fields =>
    if iless_fn name f.1 then (name, value) :: f :: fields else f :: emplace name value fields

theorem mem_emplace {name value : Text} {fields : List Header} {f : Header} :
    f ∈ emplace name value fields ↔ f = (name, value) ∨ f ∈ fields := by
  induction fields with
  | nil => simp [emplace]
  | cons g fields ih =>
    unfold emplace
    split
    · simp
    · rw [List.mem_cons, ih, List.mem_cons]
      exact or_left_comm

theorem Ordered.emplace {fields : List Header} (h : Ordered fields) (name value : Text) :
    Ordered (emplace name value fields) := by
  induction fields with
  | nil => exact List.pairwise_singleton _ _
  | cons f fields ih =>
    obtain ⟨hf, hfields⟩ := List.pairwise_cons.mp h
    unfold http.emplace
    split
    · rename_i hless
      refine List.pairwise_cons.mpr ⟨?_, h⟩
      intro g hg
      by_contra hgless
      have hg : g = f ∨ g ∈ fields := List.mem_cons.mp hg
      have hlow : iless_fn g.1 f.1 = true := iless_trans (by simpa using hgless) hless
      rcases hg with rfl | hg
      · rw [iless_irrefl] at hlow
        cases hlow
      · rw [hf g hg] at hlow
        cases hlow
    · rename_i hnot
      refine List.pairwise_cons.mpr ⟨?_, ih hfields⟩
      intro g hg
      rcases mem_emplace.mp hg with rfl | hg
      · simpa using hnot
      · exact hf g hg

namespace Headers

instance : DecidableEq Headers := fun _ _ => decidable_of_iff _ Headers.ext_iff.symm

instance : Repr Headers := ⟨fun h n => reprPrec h.fields n⟩

def empty : Headers := ⟨[], List.Pairwise.nil⟩

def emplace (h : Headers) (name value : Text) : Headers :=
  ⟨http.emplace name value h.fields, h.ordered.emplace name value⟩

/-- The entries of a name, `equal_range`. -/
def equal_range (h : Headers) (name : Text) : List Header :=
  h.fields.filter (fun f => iequals_fn f.1 name)

def find (h : Headers) (name : Text) : Option Header :=
  h.fields.find? (fun f => iequals_fn f.1 name)

/-- `erase` of one entry, the first of a name. -/
def erase (h : Headers) (name : Text) : Headers :=
  ⟨h.fields.eraseP (fun f => iequals_fn f.1 name), h.ordered.sublist (List.eraseP_sublist)⟩

end Headers

/-! ## Messages -/

structure Message where
  version_ : Version
  headers_ : Headers
  body_ : Text
  deriving DecidableEq, Repr

namespace Message

def SP : UInt8 := 32

def CRLF : Text := [13, 10]

def new : Message := ⟨.http1_1, .empty, []⟩

def add_header (msg : Message) (name value : Text) : Message :=
  { msg with headers_ := msg.headers_.emplace name value }

/-- `remove_header`, which erases the first entry only. -/
def remove_header (msg : Message) (name : Text) : Message :=
  { msg with headers_ := msg.headers_.erase name }

def set_header_to_value (msg : Message) (name value : Text) : Message :=
  (msg.remove_header name).add_header name value

def has_header (msg : Message) (name : Text) : Bool := (msg.headers_.find name).isSome

def header_is_nonempty (msg : Message) (name : Text) : Bool :=
  (msg.headers_.equal_range name).all (fun f => f.2 != [])

def header_has_value (msg : Message) (name value : Text) (case_insensitive : Bool) : Bool :=
  (msg.headers_.equal_range name).any
    (fun f => if case_insensitive then iequals_fn f.2 value else f.2 == value)

def header_has_token (msg : Message) (name value : Text) (case_insensitive : Bool) : Bool :=
  (msg.headers_.equal_range name).any (fun f =>
    (split_trim f.2 44).any (fun str => if case_insensitive then iequals_fn str value
      else str == value))

def get_header (msg : Message) (name : Text) : Except Error Text :=
  match msg.headers_.find name with
  | some f => .ok f.2
  | none =>
    .error (proxy_error .header_not_found ("Header \"" ++ display name ++ "\" does not exist"))

def get_all_of_header (msg : Message) (name : Text) : List Text :=
  (msg.headers_.equal_range name).map Prod.snd

theorem has_header_iff (msg : Message) (name : Text) :
    msg.has_header name = true ↔ msg.get_all_of_header name ≠ [] := by
  unfold has_header Headers.find get_all_of_header Headers.equal_range
  rw [List.find?_isSome]
  simp [List.map_eq_nil_iff, List.filter_eq_nil_iff]

theorem get_header_ok {msg : Message} {name value : Text} (h : msg.get_header name = .ok value) :
    (msg.get_all_of_header name).head? = some value := by
  unfold get_header at h
  split at h
  · rename_i f hfind
    obtain rfl := Except.ok.inj h
    unfold get_all_of_header Headers.equal_range
    rw [List.head?_map, List.head?_filter]
    exact congrArg (Option.map Prod.snd) hfind
  · cases h

def set_content_length (msg : Message) : Message :=
  msg.add_header (text "Content-Length") (decimal msg.body_.length)

def should_close_connection (msg : Message) : Bool :=
  match msg.get_header (text "Connection") with
  | .ok connection =>
    if connection = text "keep-alive" then false
    else if connection = text "close" then true
    else msg.version_ == .http1_0
  | .error _ => msg.version_ == .http1_0

def chunked (msg : Message) : Bool :=
  msg.header_has_token (text "Transfer-Encoding") (text "chunked") false

/-- A field on its line. -/
def print_field (f : Header) : Text := f.1 ++ text ": " ++ f.2 ++ CRLF

/-- What `operator<<` writes behind the headers. -/
def print_body (msg : Message) : Text :=
  if msg.chunked then
    hexadecimal msg.body_.length ++ CRLF ++ msg.body_ ++ CRLF ++ text "0" ++ CRLF ++ CRLF
  else msg.body_

/-- `operator<<`. -/
def print (msg : Message) : Text :=
  msg.headers_.fields.flatMap print_field ++ CRLF ++ msg.print_body

end Message

/-- `request`. The default constructor leaves the method and the form of the target without a value,
and nothing reads them before the request line is read. -/
structure Request extends Message where
  method_ : Method
  target_ : Url
  deriving DecidableEq, Repr

namespace Request

def new : Request := ⟨.new, .GET, ⟨.origin, [], .new, [], []⟩⟩

def host_name (req : Request) : Text := req.target_.netloc.host

def host_port (req : Request) : UInt16 := req.target_.port_or_default 80

/-- `operator<<`. -/
def print (req : Request) : Text :=
  method_to_string req.method_ ++ [Message.SP] ++ req.target_.print ++ [Message.SP] ++
    version_to_string req.version_ ++ Message.CRLF ++ req.toMessage.print

end Request

structure Response extends Message where
  status_ : Status
  deriving DecidableEq, Repr

namespace Response

def new : Response := ⟨.new, .ok⟩

def is_1xx (res : Response) : Bool := res.status_.to_size / 100 == 1

def is_2xx (res : Response) : Bool := res.status_.to_size / 100 == 2

def is_3xx (res : Response) : Bool := res.status_.to_size / 100 == 3

/-- `operator<<`. -/
def print (res : Response) : Text :=
  version_to_string res.version_ ++ [Message.SP] ++ decimal res.status_.to_size ++ [Message.SP] ++
    print_result (status_to_reason res.status_) ++ Message.CRLF ++ res.toMessage.print

end Response

/-! ## Exchanges -/

structure Exchange where
  req_ : Request
  res_ : Option Response
  mask_connect_ : Bool
  deriving DecidableEq, Repr

namespace Exchange

def new : Exchange := ⟨.new, none, false⟩

/-- `make_response`. -/
def make_response (e : Exchange) : Exchange := { e with res_ := some .new }

def has_response (e : Exchange) : Bool := e.res_.isSome

/-- `response`, which makes one if there is none. -/
def response (e : Exchange) : Response := e.res_.getD .new

def set_response (e : Exchange) (res : Response) : Exchange := { e with res_ := some res }

def set_request (e : Exchange) (req : Request) : Exchange := { e with req_ := req }

end Exchange

end proxy.http
