-- Operations on strings, `util/string.hpp` and `util/string.cpp`, and what they
-- use of the standard library and of `boost::lexical_cast`.
--
-- A string is the list of its bytes. The locale is that of "C", which is never
-- set. The order of two characters beyond ASCII, which `std::tolower` leaves
-- open, is here that of their bytes.
import Aether.Lib.Numerals
import Mathlib.Data.List.TakeWhile

open lib.numerals

namespace util.string

abbrev Text := List UInt8

/-- A literal of the source. -/
def text (literal : String) : Text := literal.toList.map (fun c => UInt8.ofNat c.toNat)

/-- A string in the text of an error. -/
def display (src : Text) : String := String.ofList (src.map (fun c => Char.ofNat c.toNat))

/-- The string at a pointer, up to a NUL. The characters of a `std::string` are followed by one. -/
def c_string (data : Text) : Text := data.takeWhile (· ≠ 0)

theorem c_string_of_notMem {data : Text} (h : 0 ∉ data) : c_string data = data := by
  apply List.takeWhile_eq_self_iff.mpr
  intro c hc
  simpa using fun heq : c = 0 => h (heq ▸ hc)

theorem mem_c_string {c : UInt8} {data : Text} (h : c ∈ c_string data) : c ≠ 0 ∧ c ∈ data :=
  ⟨by simpa using List.mem_takeWhile_imp h, List.takeWhile_subset _ h⟩

/-! ## Case -/

def tolower (c : UInt8) : UInt8 := if 65 ≤ c ∧ c ≤ 90 then c + 32 else c

/-- What two strings are compared by. -/
def lowercase (src : Text) : List Nat := src.map (fun c => (tolower c).toNat)

def iequals_fn (a b : Text) : Bool := lowercase a == lowercase b

/-- `std::lexicographical_compare`. -/
def iless_fn (a b : Text) : Bool := decide (lowercase a < lowercase b)

theorem iless_irrefl (a : Text) : iless_fn a a = false := by
  simp [iless_fn]

theorem iless_trans {a b c : Text} (h : iless_fn a b = true) (h' : iless_fn b c = true) :
    iless_fn a c = true := by
  simp only [iless_fn, decide_eq_true_eq] at *
  exact List.lt_trans h h'

/-! ## White space -/

/-- The default of the parameter `whitespace`. -/
def whitespace (c : UInt8) : Bool := c == 32 || c == 9

/-- From the first to the last character that is no white space. -/
def trim (src : Text) : Text :=
  ((src.dropWhile whitespace).reverse.dropWhile whitespace).reverse

/-- `split_trim`. An entry that is all white space is left out. -/
def split_trim (src : Text) (delim : UInt8) : List Text :=
  (src.splitOn delim).filterMap
    (fun entry => if entry.all whitespace then none else some (trim entry))

/-! ## Numbers -/

def isspace (c : UInt8) : Bool := c == 32 || (9 ≤ c && c ≤ 13)

def minus : UInt8 := 45

def plus : UInt8 := 43

/-- Whether there is a minus, and what comes after a sign. -/
def sign : Text → Bool × Text
  | [] => (false, [])
  | c :: cs => if c = minus then (true, cs) else if c = plus then (false, cs) else (false, c :: cs)

def digit (c : UInt8) : Option Nat := if 48 ≤ c ∧ c ≤ 57 then some (c.toNat - 48) else none

def hex_digit (c : UInt8) : Option Nat :=
  if 48 ≤ c ∧ c ≤ 57 then some (c.toNat - 48)
  else if 97 ≤ c ∧ c ≤ 102 then some (c.toNat - 87)
  else if 65 ≤ c ∧ c ≤ 70 then some (c.toNat - 55)
  else none

/-- A `size_t` with a sign in front. -/
def negate (negative : Bool) (n : Nat) : Nat := if negative then (2 ^ 64 - n) % 2 ^ 64 else n

/-- The number of decimal digits, of which there is one or more. -/
def digits (src : Text) : Option Nat := if src = [] then none else (src.mapM digit).map (value 10)

/-- Digits have no sign. -/
theorem sign_of_digits {src : Text} {n : Nat} (h : digits src = some n) :
    sign src = (false, src) := by
  cases src with
  | nil => cases h
  | cons c cs =>
    have hc : digit c ≠ none := by
      intro hc
      simp [digits, hc] at h
    have hminus : c ≠ minus := by rintro rfl; exact hc rfl
    have hplus : c ≠ plus := by rintro rfl; exact hc rfl
    simp only [sign, if_neg hminus, if_neg hplus]

/-- A text with a character that is no digit is no number. -/
theorem digits_of_notMem {src : Text} {c : UInt8} (hc : digit c = none) (hmem : c ∈ src) :
    digits src = none := by
  have hmapM : src.mapM digit = none := by
    induction src with
    | nil => cases hmem
    | cons d cs ih =>
      rw [List.mapM_cons]
      rcases List.mem_cons.mp hmem with rfl | hmem
      · rw [hc]
        rfl
      · rw [ih hmem]
        cases digit d <;> rfl
  unfold digits
  rw [hmapM]
  split <;> rfl

/-- `boost::lexical_cast<std::size_t>`, or none where it throws. All of the text is a number, and a
minus is taken modulo 2^64. -/
def lexical_cast_size (src : Text) : Option Nat :=
  let (negative, rest) := sign src
  (digits rest).bind (fun n => if n < 2 ^ 64 then some (negate negative n) else none)

/-- `boost::lexical_cast<long long>`. -/
def lexical_cast_long_long (src : Text) : Option Int :=
  let (negative, rest) := sign src
  (digits rest).bind (fun n =>
    if negative then if n ≤ 2 ^ 63 then some (-n) else none
    else if n < 2 ^ 63 then some n else none)

theorem lexical_cast_long_long_lt {src : Text} {x : Int}
    (h : lexical_cast_long_long src = some x) : x < 2 ^ 63 := by
  unfold lexical_cast_long_long at h
  generalize sign src = signed at h
  obtain ⟨negative, rest⟩ := signed
  obtain ⟨n, -, h⟩ := Option.bind_eq_some_iff.mp h
  split at h
  · split at h
    · obtain rfl := Option.some.inj h
      omega
    · cases h
  · split at h
    · obtain rfl := Option.some.inj h
      omega
    · cases h

/-- `boost::lexical_cast<int>`. -/
def lexical_cast_int (src : Text) : Option Int :=
  let (negative, rest) := sign src
  (digits rest).bind (fun n =>
    if negative then if n ≤ 2 ^ 31 then some (-n) else none
    else if n < 2 ^ 31 then some n else none)

/-- `std::num_get` of a `size_t` with `std::hex`: the number, and the characters after it, or none
where `failbit` is set. -/
def get_hex (src : Text) : Option (Nat × Text) :=
  let (negative, rest) := sign (src.dropWhile isspace)
  -- The base may be written in front.
  let rest := match rest with
    | 48 :: c :: cs => if c = 120 ∨ c = 88 then cs else rest
    | _ => rest
  let found := rest.takeWhile (fun c => (hex_digit c).isSome)
  let n := value 16 (found.filterMap hex_digit)
  if found = [] ∨ 2 ^ 64 ≤ n then none
  else some (negate negative n, rest.dropWhile (fun c => (hex_digit c).isSome))

def parse_hexadecimal (src : Text) : Option Nat :=
  match get_hex src with
  | none => none
  | some (n, rest) => if rest.all isspace then some n else none

/-- `out << n`. -/
def decimal (n : Nat) : Text := (numeral 10 n).map (fun d => UInt8.ofNat (48 + d))

/-- The digits that are written are read as the number. -/
theorem digits_decimal (n : Nat) : digits (decimal n) = some n := by
  have hne : decimal n ≠ [] := by
    unfold decimal
    simpa using numeral_ne_nil 10 n
  have hchar : ∀ d < 10, digit (UInt8.ofNat (48 + d)) = some d := by decide
  have hmapM : (decimal n).mapM digit = some (numeral 10 n) :=
    mapM_map hchar (fun d hd => numeral_lt (by decide) hd)
  unfold digits
  rw [if_neg hne, hmapM, Option.map_some, value_numeral]

theorem lexical_cast_int_decimal {n : Nat} (h : n < 2 ^ 31) :
    lexical_cast_int (decimal n) = some (n : Int) := by
  have hdigits := digits_decimal n
  simp only [lexical_cast_int, sign_of_digits hdigits, hdigits, Option.bind_some, if_pos h,
    Bool.false_eq_true, if_false]

def hex_character (d : Nat) : UInt8 := UInt8.ofNat (if d < 10 then 48 + d else 87 + d)

/-- `out << std::hex << n`. -/
def hexadecimal (n : Nat) : Text := (numeral 16 n).map hex_character

end util.string
