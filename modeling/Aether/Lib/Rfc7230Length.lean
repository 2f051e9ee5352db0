-- Where the body of a request ends by RFC 7230, section 3.3.3, from the values
-- of its framing headers. Nothing here is about the proxy.
import Aether.Lib.Numerals

open lib.numerals

namespace lib.rfc7230

/-! ## Lists of codings -/

/-- The elements of a list, cut at the commas that are not inside of a quoted string. In one a
backslash takes the next character with it. -/
def cutList (quoted : Bool) (element : List UInt8) : List UInt8 → List (List UInt8)
  | [] => [element]
  | [c] => if c = 44 ∧ !quoted then [element, []] else [element ++ [c]]
  | c :: d :: rest =>
    if c = 44 ∧ !quoted then element :: cutList false [] (d :: rest)
    else if c = 34 then cutList (!quoted) (element ++ [c]) (d :: rest)
    else if c = 92 ∧ quoted then cutList quoted (element ++ [c, d]) rest
    else cutList quoted (element ++ [c]) (d :: rest)

def optionalSpace (c : UInt8) : Bool := c == 32 || c == 9

def strip (s : List UInt8) : List UInt8 :=
  ((s.dropWhile optionalSpace).reverse.dropWhile optionalSpace).reverse

/-- The elements that are not empty. -/
def elements (s : List UInt8) : List (List UInt8) :=
  ((cutList false [] s).map strip).filter (fun e => e != [])

def lower (c : UInt8) : UInt8 := if 65 ≤ c ∧ c ≤ 90 then c + 32 else c

def chunkedName : List UInt8 := [99, 104, 117, 110, 107, 101, 100]

/-- The last coding over all of the fields is `chunked`. -/
def LastChunked (fields : List (List UInt8)) : Prop :=
  (fields.flatMap elements).getLast?.map (fun e => e.map lower) = some chunkedName

instance (fields : List (List UInt8)) : Decidable (LastChunked fields) :=
  inferInstanceAs (Decidable (_ = _))

/-! ## Lengths -/

def decimalDigit (c : UInt8) : Option Nat :=
  if 48 ≤ c ∧ c ≤ 57 then some (c.toNat - 48) else none

/-- The number that one or more digits make. -/
def decimalNumber (s : List UInt8) : Option Nat :=
  if s = [] then none else (s.mapM decimalDigit).map (value 10)

/-- All the fields are the same. -/
def Same (fields : List (List UInt8)) : Prop := ∀ v ∈ fields, v = fields.headD []

instance (fields : List (List UInt8)) : Decidable (Same fields) :=
  inferInstanceAs (Decidable (∀ v ∈ fields, _))

inductive BodyLength where
  | chunked
  | sized (n : Nat)
  | empty
  deriving DecidableEq, Repr

/-- The length of the body of a request, or none where it is an error, from the values of
`Transfer-Encoding` and of `Content-Length`. -/
def requestLength (codings lengths : List (List UInt8)) : Option BodyLength :=
  if codings ≠ [] then if LastChunked codings then some .chunked else none
  else if lengths ≠ [] then
    if Same lengths then (decimalNumber (lengths.headD [])).map .sized else none
  else some .empty

theorem requestLength_coded {codings lengths : List (List UInt8)} (h : codings ≠ []) :
    requestLength codings lengths = if LastChunked codings then some .chunked else none :=
  if_pos h

theorem requestLength_sized {lengths : List (List UInt8)} (h : lengths ≠ []) :
    requestLength [] lengths =
      if Same lengths then (decimalNumber (lengths.headD [])).map .sized else none := by
  unfold requestLength
  rw [if_neg (by simp), if_pos h]

theorem requestLength_empty : requestLength [] [] = some .empty := rfl

end lib.rfc7230
