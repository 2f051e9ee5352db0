-- Cookies, `state/cookie.cpp`.
--
-- The loops over a header are at a semicolon when a turn begins, and go on to the
-- next one. Dates and domains are left out.
import Aether.Http.TextPositions
import Aether.Lib.OrderedMap
import Aether.Util.TextOrder

open util.string lib.ordered_map

namespace proxy.http

def equal_sign : UInt8 := 61

def semicolon : UInt8 := 59

/-- The separator of the entry at a position, if it is less than the end of the entry. `npos` is the
greatest position. -/
def entry_separator (header : Text) (pos : Nat) : Option Nat :=
  (find header equal_sign pos).filter
    (fun separator => (find header semicolon pos).all (fun stop => separator < stop))

structure Cookie where
  name : Text
  value : Text
  attributes_ : OrderedMap iless_fn Text
  deriving DecidableEq, Repr

namespace Cookie

def new (name value : Text) : Cookie := ⟨name, value, .empty⟩

/-- What a turn of the loop of `parse_set_header` adds, from behind its semicolon. -/
def parse_attribute (header : Text) (i : Nat) (attributes : OrderedMap iless_fn Text) :
    Except Error (OrderedMap iless_fn Text) :=
  let attribute_end := find header semicolon i
  match entry_separator header i with
  | none => do
    let name ← substring header i attribute_end
    pure (attributes.emplace (trim name) [])
  | some separator => do
    let name ← substring header i (some separator)
    let value ← substring header (separator + 1) attribute_end
    pure (attributes.emplace (trim name) (trim value))

/-- The loop of `parse_set_header`. -/
def parse_attributes (header : Text) (i : Nat) (attributes : OrderedMap iless_fn Text) :
    Except Error (OrderedMap iless_fn Text) :=
  if i < header.length then do
    let attributes ← parse_attribute header (i + 1) attributes
    match _hend : find header semicolon (i + 1) with
    | some attribute_end => parse_attributes header attribute_end attributes
    | none => pure attributes
  else pure attributes
termination_by header.length - i
decreasing_by
  have hrange := find_range _hend
  omega

/-- `parse_set_header`. -/
def parse_set_header (header : Text) : Except Error (Option Cookie) :=
  match find header equal_sign 0 with
  | none => pure none
  | some separator => do
    let attribute_separator := find header semicolon 0
    let name ← substring header 0 (some separator)
    let value ← substring header (separator + 1) attribute_separator
    let attributes ←
      match attribute_separator with
      | some i => parse_attributes header i .empty
      | none => pure .empty
    pure (some ⟨trim name, trim value, attributes⟩)

def request_string (c : Cookie) : Text := c.name ++ [equal_sign] ++ c.value

/-- An attribute as `operator<<` writes it. -/
def print_attribute (pair : Text × Text) : Text :=
  text "; " ++ pair.1 ++ (if pair.2 = [] then [] else [equal_sign] ++ pair.2)

/-- `operator<<`. -/
def response_string (c : Cookie) : Text :=
  c.name ++ [equal_sign] ++ c.value ++ c.attributes_.entries.flatMap print_attribute

end Cookie

end proxy.http
