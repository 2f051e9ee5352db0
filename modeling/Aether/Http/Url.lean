-- The target of a request, `message/url.cpp`.
--
-- The parsers read characters of a `std::string_view` without a look at its
-- length. A read behind the end is undefined, and `substr` from behind it throws.
import Aether.Http.StartLine

open util.string

namespace proxy.http

inductive TargetForm where
  | origin
  | absolute
  | authority
  | asterisk
  deriving DecidableEq, Repr

structure NetworkLocation where
  username : Text
  password : Text
  host : Text
  port : Option UInt16
  deriving DecidableEq, Repr

namespace NetworkLocation

def new : NetworkLocation := ⟨[], [], [], none⟩

/-- `empty`, which does not look at the port. -/
def empty (n : NetworkLocation) : Bool := n.username == [] && n.password == [] && n.host == []

def has_hostname (n : NetworkLocation) : Bool := n.host != []

def has_port (n : NetworkLocation) : Bool := n.port.isSome

end NetworkLocation

structure Url where
  form : TargetForm
  scheme : Text
  netloc : NetworkLocation
  path : Text
  search : Text
  deriving DecidableEq, Repr

/-! ## Strings by position -/

/-- `std::string_view::find`, at a position or after it. -/
def find (src : Text) (c : UInt8) (pos : Nat) : Option Nat :=
  ((src.drop pos).findIdx? (fun d => d == c)).map (pos + ·)

def find_first_of (src cs : Text) (pos : Nat) : Option Nat :=
  ((src.drop pos).findIdx? (fun d => cs.contains d)).map (pos + ·)

theorem find_eq_none {src : Text} {c : UInt8} {pos : Nat} (h : find src c pos = none) :
    c ∉ src.drop pos := by
  intro hmem
  have hnone := List.findIdx?_eq_none_iff.mp (Option.map_eq_none_iff.mp h) c hmem
  simp at hnone

/-- The text up to what was found, and the text after it. -/
theorem find_eq_some {src : Text} {c : UInt8} {pos i : Nat} (h : find src c pos = some i) :
    ∃ a b, src.drop pos = a ++ c :: b ∧ c ∉ a ∧ i = pos + a.length := by
  obtain ⟨k, hk, rfl⟩ := Option.map_eq_some_iff.mp h
  obtain ⟨hlt, hat, hbefore⟩ := List.findIdx?_eq_some_iff_getElem.mp hk
  refine ⟨(src.drop pos).take k, (src.drop pos).drop (k + 1), ?_, ?_, ?_⟩
  · rw [← beq_iff_eq.mp hat, ← List.drop_eq_getElem_cons hlt, List.take_append_drop]
  · intro hmem
    obtain ⟨j, hj, hjc⟩ := List.getElem_of_mem hmem
    rw [List.getElem_take] at hjc
    have hjk : j < k := Nat.lt_of_lt_of_le hj (List.length_take_le k _)
    exact hbefore j hjk (beq_iff_eq.mpr hjc)
  · rw [List.length_take, Nat.min_eq_left (Nat.le_of_lt hlt)]

/-- `operator[]`. -/
def char_at (src : Text) (pos : Nat) : Except Error UInt8 :=
  match src[pos]? with
  | some c => .ok c
  | none => .error .undefined

/-- `substring` to the end. -/
def substring_from (src : Text) (start : Nat) : Except Error Text :=
  if start ≤ src.length then .ok (src.drop start) else .error .terminated

/-- `substring`. From an end before the start the count wraps around, and is more than there is. -/
def substring (src : Text) (start : Nat) (stop : Option Nat) : Except Error Text :=
  match stop with
  | none => substring_from src start
  | some stop =>
    (substring_from src start).map
      (fun rest => if start ≤ stop then rest.take (stop - start) else rest)

def slash : UInt8 := 47

def colon : UInt8 := 58

def search_delims : Text := text ";?#"

/-- Whether two slashes stand at a position. The second is looked at only after the first. -/
def two_slashes (src : Text) (pos : Nat) : Except Error Bool := do
  if (← char_at src pos) = slash then return (← char_at src (pos + 1)) = slash
  else return false

namespace Url

def port_or_default (u : Url) (default : UInt16) : UInt16 := u.netloc.port.getD default

def make_authority_form (host : Text) (port : UInt16) : Url :=
  ⟨.authority, [], ⟨[], [], host, some port⟩, [], []⟩

def make_origin_form (path search : Text) : Url := ⟨.origin, [], .new, path, search⟩

/-! ## The parsers -/

def parse_port (str : Text) : Except Error UInt16 :=
  match lexical_cast_size str with
  | none => .error (proxy_error .invalid_target_port "Target port invalid")
  | some port =>
    if 2 ^ 16 ≤ port then
      .error (proxy_error .invalid_target_port "Target port out of range")
    else .ok (UInt16.ofNat port)

def parse_authority_form (str : Text) : Except Error Url :=
  -- Host and port are both required.
  match find str colon 0 with
  | none => .error (proxy_error .invalid_target_port "Missing port for authority form")
  | some port_pos =>
    (parse_port (str.drop (port_pos + 1))).map (make_authority_form (str.take port_pos))

def parse_origin_form (str : Text) : Url :=
  match find_first_of str search_delims 0 with
  | some earliest_delim => make_origin_form (str.take earliest_delim) (str.drop earliest_delim)
  | none => make_origin_form str []

/-- The password of `parse_netloc`, which is optional. -/
def parse_password (str : Text) (start user_end : Nat) : Except Error Text :=
  match find str colon start with
  | none => .ok []
  | some password_start =>
    if password_start < user_end then substring str (password_start + 1) (some user_end) else .ok []

/-- The user part of `parse_netloc` from `start`, and where the host begins. -/
def parse_user (str : Text) (start : Nat) (netloc : NetworkLocation) :
    Except Error (NetworkLocation × Nat) :=
  match find str 64 start with
  | none => .ok (netloc, start)
  | some user_end => do
    let password ← parse_password str start user_end
    let username ← substring str start (some user_end)
    return ({ netloc with username := username, password := password }, user_end)

def parse_netloc (str : Text) : Except Error NetworkLocation := do
  -- Start after the two slashes.
  let start := if ← two_slashes str 0 then 2 else 0
  let (netloc, start) ← parse_user str start .new
  -- Port is optional.
  match find str colon start with
  | none => return { netloc with host := ← substring_from str start }
  | some port_start =>
    match parse_port (← substring_from str (port_start + 1)) with
    | .ok port =>
      return { netloc with port := some port, host := ← substring str start (some port_start) }
    | .error _ => return { netloc with host := ← substring str start (some str.length) }

/-- `std::min` of two positions, where there may be none. -/
def min_pos : Option Nat → Option Nat → Option Nat
  | some a, some b => some (min a b)
  | some a, none => some a
  | none, b => b

/-- The case of `parse_absolute_form` with a netloc, which begins at a position. -/
def parse_with_netloc (str scheme : Text) (netloc_start : Nat) : Except Error Url := do
  let earliest_nonslash_delim := find_first_of str search_delims netloc_start
  let first_slash := find str slash netloc_start
  let netloc ←
    parse_netloc (← substring str netloc_start (min_pos earliest_nonslash_delim first_slash))
  match first_slash, earliest_nonslash_delim with
  | some first_slash, some delim =>
    if first_slash < delim then
      -- Path and search exists.
      return ⟨.absolute, scheme, netloc, ← substring str first_slash (some delim),
        ← substring_from str delim⟩
    else return ⟨.absolute, scheme, netloc, ← substring_from str first_slash, []⟩
  | some first_slash, none =>
    return ⟨.absolute, scheme, netloc, ← substring_from str first_slash, []⟩
  -- Search exists, but path does not exist.
  | none, some delim => return ⟨.absolute, scheme, netloc, [], ← substring_from str delim⟩
  | none, none => return ⟨.absolute, scheme, netloc, [], []⟩

/-- The scheme of an absolute form, and where it ends: at the first character if there is none. -/
def parse_scheme (str : Text) : Except Error (Text × Nat) := do
  match find str colon 0 with
  | none => return ([], 0)
  | some netloc_start =>
    if ← two_slashes str 0 then return ([], 0)
    else return (← substring str 0 (some netloc_start), netloc_start)

def parse_absolute_form (str : Text) : Except Error Url := do
  let (scheme, netloc_start) ← parse_scheme str
  if ← two_slashes str (netloc_start + 1) then parse_with_netloc str scheme (netloc_start + 3)
  else if (← char_at str (netloc_start + 1)) = slash then
    -- No netloc, but there is a path.
    let netloc_start := netloc_start + 2
    match find_first_of str search_delims netloc_start with
    | some delim =>
      return ⟨.absolute, scheme, .new, ← substring str netloc_start (some delim),
        ← substring_from str delim⟩
    | none => return ⟨.absolute, scheme, .new, ← substring_from str netloc_start, []⟩
  -- No netloc, no path, just search.
  else return ⟨.absolute, scheme, .new, [], ← substring_from str (netloc_start + 1)⟩

/-- `parse_target`. The method matters to a target that is neither `*` nor begins with a slash. -/
def parse_target (str : Text) (verb : Method) : Except Error Url := do
  if str = text "*" then return ⟨.asterisk, [], .new, [], []⟩
  else if (← char_at str 0) = slash then return parse_origin_form str
  else if verb = .CONNECT then parse_authority_form str
  else parse_absolute_form str

end Url

/-! ## Printing -/

namespace NetworkLocation

def to_host_string (n : NetworkLocation) : Text :=
  n.host ++ match n.port with
    | some port => colon :: decimal port.toNat
    | none => []

/-- `operator<<`. -/
def print (n : NetworkLocation) : Text :=
  if n.empty then []
  else
    (if n.username = [] then []
      else n.username ++ (if n.password = [] then [] else colon :: n.password) ++ [64]) ++
    n.to_host_string

end NetworkLocation

/-- `operator<<`. -/
def Url.print (u : Url) : Text :=
  match u.form with
  | .asterisk => text "*"
  | .origin => u.path ++ u.search
  | _ =>
    (if u.scheme = [] then []
      else u.scheme ++ [colon] ++ (if u.netloc.empty then [] else text "//")) ++
    u.netloc.print ++ u.path ++ u.search

end proxy.http
