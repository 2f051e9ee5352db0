-- The options of the command line, `program/options_parser.cpp` and its header.
--
-- What the options are written to is a state. The descriptions and the texts of the defaults, which
-- are only printed, are left out.
import Aether.Util.Text
import Std.Data.TreeMap.Lemmas

open util.string

namespace program

/-- `util::generic_error`, or a character that is read outside of a string. -/
inductive Failure where
  | generic_error (message : Text)
  | undefined
  deriving DecidableEq, Repr

/-- `find('=')`: the position of the first one. -/
def find_eq (str : Text) : Option Nat := str.findIdx? (· == 61)

theorem find_eq_of_plain {name : Text} (h : 61 ∉ name) : find_eq name = none := by
  rw [find_eq, List.findIdx?_eq_none_iff]
  intro c hc
  rw [beq_eq_false_iff_ne]
  rintro rfl
  exact h hc

theorem find_eq_append {name : Text} (h : 61 ∉ name) (value : Text) :
    find_eq (name ++ 61 :: value) = some name.length := by
  have hnone := find_eq_of_plain h
  unfold find_eq at hnone ⊢
  rw [List.findIdx?_append, hnone, List.findIdx?_cons]
  simp

/-- A text is plain, or a name and a value. -/
theorem plain_or_append (str : Text) :
    61 ∉ str ∨ ∃ name value, str = name ++ 61 :: value ∧ 61 ∉ name := by
  by_cases h : 61 ∈ str
  · exact Or.inr (List.eq_append_cons_of_mem h)
  · exact Or.inl h

/-- `command_line_option`. The destination is changed in the state `σ`. A type that is not
convertible to the other one has no `static_cast`. -/
structure CommandLineOption (σ In Out : Type) where
  name : Option Text
  letter : Option UInt8
  destination : Out → σ → σ
  required : Bool
  default_value : Option In
  validate : Option (In → Bool)
  converter : Option (In → Out)
  static_cast : Option (In → Out)

namespace CommandLineOption

variable {σ In Out : Type}

/-- How a value becomes one of the destination. -/
def convert (o : CommandLineOption σ In Out) : Option (In → Out) := o.converter <|> o.static_cast

/-- An assignment to the destination. A conversion that is not there is not called. -/
def assign (o : CommandLineOption σ In Out) (value : In) (s : σ) : σ :=
  match o.convert with
  | some convert => o.destination (convert value) s
  | none => s

def is_valid (o : CommandLineOption σ In Out) (value : In) : Bool :=
  match o.validate with
  | some validate => validate value
  | none => true

end CommandLineOption

/-- `stored_option`. The parser gives no state if the value is invalid. -/
structure StoredOption (σ : Type) where
  name : Option Text
  letter : Option UInt8
  is_boolean : Bool
  required_id : Option Nat
  help_string : Text
  parser : Text → σ → Option σ

namespace StoredOption

variable {σ : Type}

/-- `generate_help_string`. It is not called with neither a letter nor a name. -/
def generate_help_string (name : Option Text) (letter : Option UInt8) : Text :=
  match letter with
  | some letter =>
    text "-" ++ [letter] ++
      match name with
      | some name => text ", --" ++ name
      | none => []
  | none => text "--" ++ name.getD []

def required (o : StoredOption σ) : Bool := o.required_id.isSome

/-- The call of the parser. -/
def parse (o : StoredOption σ) (str : Text) (s : σ) : Except Failure σ :=
  match o.parser str s with
  | some s => .ok s
  | none => .error (.generic_error (text "Invalid value for option " ++ o.help_string))

end StoredOption

/-- `options_parser`. -/
structure OptionsParser (σ : Type) where
  option_map_ : Std.TreeMap Text (StoredOption σ)
  num_required_ : Nat

def string_to_bool (str : Text) (default : Bool) : Bool :=
  let lower := str.map tolower
  if lower = text "true" then true else if lower = text "false" then false else default

namespace OptionsParser

variable {σ In Out : Type}

def new : OptionsParser σ := ⟨∅, 0⟩

/-! ## Options -/

def validate_option (option : CommandLineOption σ In Out) : Except Failure Unit :=
  if option.name.isNone && option.letter.isNone then
    .error (.generic_error (text "One of option name or letter must be specified"))
  else if option.static_cast.isNone && option.converter.isNone then
    .error (.generic_error
      (text "No converter defined for option with non-convertible output type"))
  else .ok ()

/-- The end of `add_option_internal`. An option with a help string that is there already is not
stored. -/
def store (p : OptionsParser σ) (required : Bool) (name : Option Text) (letter : Option UInt8)
    (is_boolean : Bool) (parser : Text → σ → Option σ) : OptionsParser σ :=
  let help_string := StoredOption.generate_help_string name letter
  let required_id := if required then some p.num_required_ else none
  { option_map_ := p.option_map_.insertIfNew help_string
      ⟨name, letter, is_boolean, required_id, help_string, parser⟩
    num_required_ := if required then p.num_required_ + 1 else p.num_required_ }

/-- `add_option_internal`, with `boost::lexical_cast`. -/
def add_option_internal (lexical_cast : Text → Option In) (p : OptionsParser σ)
    (option : CommandLineOption σ In Out) (s : σ) : OptionsParser σ × σ :=
  let s := match option.default_value with
    | some value => option.assign value s
    | none => s
  (p.store option.required option.name option.letter false (fun str s =>
    match lexical_cast str with
    | some value => if option.is_valid value then some (option.assign value s) else none
    | none => none), s)

/-- The same of a boolean option, which needs no value. -/
def add_boolean_internal (p : OptionsParser σ) (option : CommandLineOption σ Bool Out) (s : σ) :
    OptionsParser σ × σ :=
  let s := option.assign (option.default_value.getD false) s
  (p.store option.required option.name option.letter true (fun str s =>
    let value := string_to_bool str true
    if option.is_valid value then some (option.assign value s) else none), s)

def add_option (lexical_cast : Text → Option In) (p : OptionsParser σ)
    (option : CommandLineOption σ In Out) (s : σ) : Except Failure (OptionsParser σ × σ) := do
  validate_option option
  return p.add_option_internal lexical_cast option s

def add_boolean (p : OptionsParser σ) (option : CommandLineOption σ Bool Out) (s : σ) :
    Except Failure (OptionsParser σ × σ) := do
  validate_option option
  return p.add_boolean_internal option s

/-! ## The command line -/

/-- The options in the order of the map. -/
def options (p : OptionsParser σ) : List (StoredOption σ) := p.option_map_.toList.map (·.2)

def find_name (p : OptionsParser σ) (name : Text) : Option (StoredOption σ) :=
  p.options.find? (fun option => option.name == some name)

def find_letter (p : OptionsParser σ) (letter : UInt8) : Option (StoredOption σ) :=
  p.options.find? (fun option => option.letter == some letter)

/-- The part before it, and the part behind it. -/
def before_eq (curr : Text) : Text :=
  match find_eq curr with
  | some eq => curr.take eq
  | none => curr

def unknown_option (word : Text) : Failure := .generic_error (text "Unknown option " ++ word)

def missing_value (option : StoredOption σ) : Failure :=
  .generic_error (text "Missing value for option " ++ option.help_string)

/-- The option is seen, if it has to be. -/
def see (option : StoredOption σ) (required : List Bool) : List Bool :=
  match option.required_id with
  | some id => required.set id true
  | none => required

/-- The option that a word of the loop names, and the value behind its `=`. -/
def match_option (p : OptionsParser σ) (curr : Text) :
    Except Failure (StoredOption σ × Option Text) :=
  match curr with
  | [] => .error .undefined
  | dash :: word =>
    -- Not an option.
    if dash ≠ 45 then .error (unknown_option curr)
    else
      match word with
      | [] => .error .undefined
      | letter :: _ =>
        let is_full_name := letter == 45
        let matched :=
          if is_full_name then p.find_name ((before_eq curr).drop 2) else p.find_letter letter
        match matched with
        | none => .error (unknown_option (before_eq curr))
        | some option =>
          .ok (option,
            if is_full_name then (find_eq curr).map (fun eq => curr.drop (eq + 1)) else none)

/-- The loop of `parse`, with the words that are left. -/
def parse_loop (p : OptionsParser σ) : List Text → List Bool → σ →
    Except Failure (List Text × List Bool × σ)
  | [], required, s => .ok ([], required, s)
  | curr :: rest, required, s =>
    -- End of options.
    if curr = text "--" then .ok (rest, required, s)
    else
      match p.match_option curr with
      | .error e => .error e
      | .ok (option, value) =>
        let required := see option required
        match value with
        -- Use value after the equal sign.
        | some value => do
          let s ← option.parse value s
          p.parse_loop rest required s
        | none =>
          -- Boolean option, no value required.
          if option.is_boolean then do
            let s ← option.parse [] s
            p.parse_loop rest required s
          else
            -- Use next value for option requiring a value.
            match rest with
            | [] => .error (missing_value option)
            | value :: rest => do
              let s ← option.parse value s
              p.parse_loop rest required s

/-- `parse`. The result is the index after the last one read. -/
def parse (p : OptionsParser σ) (argv : List Text) (s : σ) : Except Failure (Nat × σ) := do
  let (rest, required, s) ← p.parse_loop argv.tail (List.replicate p.num_required_ false) s
  -- Check if all required arguments were seen.
  if required.any (fun b => !b) then
    .error (.generic_error (text "Missing 1 or more required arguments"))
  else return (argv.length - rest.length, s)

end OptionsParser

end program
