-- The properties of the certificates of the proxy, `program/properties.cpp`: what the lines of a
-- file give, and that a file that is written reads back.
import Aether.Program.OptionsParser

open util.string

namespace program

/-- `properties`. The map has no order that anything sees. -/
structure Properties where
  props_ : Std.TreeMap Text Text

namespace Properties

def new : Properties := ⟨∅⟩

/-- `get`, of a key that is a literal. -/
def get (p : Properties) (key : Text) : Option Text := p.props_[c_string key]?

/-- The lines that `std::getline` gives. The last one need not end. -/
def getlines : Text → List Text
  | [] => []
  | c :: rest =>
    if c = 10 then [] :: getlines rest
    else
      match getlines rest with
      | [] => [[c]]
      | line :: lines => (c :: line) :: lines

/-- The loop of `parse_file`. -/
def parse_lines : List Text → Properties → Properties × Except Failure Unit
  | [], p => (p, .ok ())
  | line :: lines, p =>
    match line with
    | [] => parse_lines lines p
    | c :: _ =>
      -- A comment.
      if c = 35 then parse_lines lines p
      else
        match find_eq line with
        | some 0 =>
          (p, .error (.generic_error (text "Malformed property \"" ++ line ++ text "\"")))
        | none =>
          (p, .error (.generic_error
            (text "Property \"" ++ line ++ text "\" does not have a value")))
        | some split_loc =>
          parse_lines lines
            ⟨p.props_.insertIfNew (line.take split_loc) (line.drop (split_loc + 1))⟩

/-- `parse_file`, of a file that can be opened or not. -/
def parse_file (p : Properties) (file_path : Text) (file : Option Text) :
    Properties × Except Failure Unit :=
  match file with
  | none =>
    (p, .error (.generic_error (text "Could not open properties file \"" ++ file_path ++
      text "\" for reading")))
  | some content => parse_lines (getlines content) p

/-! ## What the lines give -/

/-- A line that says nothing. -/
def Skipped (line : Text) : Prop := line = [] ∨ line.head? = some 35

/-- A line that gives a property. -/
def Gives (line name value : Text) : Prop :=
  line = name ++ 61 :: value ∧ name ≠ [] ∧ 61 ∉ name ∧ name.head? ≠ some 35

/-- The properties of the lines up to the first that is malformed, which they end at if there is
one. -/
inductive Reads : List Text → List (Text × Text) → Option Text → Prop
  | all : Reads [] [] none
  | skip {line lines props bad} (skipped : Skipped line) (rest : Reads lines props bad) :
      Reads (line :: lines) props bad
  | prop {line lines name value props bad} (gives : Gives line name value)
      (rest : Reads lines props bad) : Reads (line :: lines) ((name, value) :: props) bad
  | bad {line lines} (said : ¬ Skipped line) (malformed : ∀ name value, ¬ Gives line name value) :
      Reads (line :: lines) [] (some line)

/-- Each file is read in one way. -/
theorem exists_reads (lines : List Text) : ∃ props bad, Reads lines props bad := by
  induction lines with
  | nil => exact ⟨[], none, .all⟩
  | cons line lines ih =>
    obtain ⟨props, bad, hrest⟩ := ih
    by_cases hskipped : Skipped line
    · exact ⟨props, bad, .skip hskipped hrest⟩
    · by_cases hgives : ∃ name value, Gives line name value
      · obtain ⟨name, value, hgives⟩ := hgives
        exact ⟨_, bad, .prop hgives hrest⟩
      · exact ⟨[], some line, .bad hskipped fun name value h => hgives ⟨name, value, h⟩⟩

theorem parse_lines_skip {line : Text} (h : Skipped line) (lines : List Text) (p : Properties) :
    parse_lines (line :: lines) p = parse_lines lines p := by
  rcases h with rfl | hcomment
  · rfl
  · cases line with
    | nil => cases hcomment
    | cons c rest =>
      obtain rfl := Option.some.inj hcomment
      rfl

theorem parse_lines_gives {line name value : Text} (h : Gives line name value) (lines : List Text)
    (p : Properties) :
    parse_lines (line :: lines) p = parse_lines lines ⟨p.props_.insertIfNew name value⟩ := by
  obtain ⟨rfl, hname, hplain, hcomment⟩ := h
  have hfind := find_eq_append hplain value
  have htake : (name ++ 61 :: value).take name.length = name := List.take_left' rfl
  have hdrop : (name ++ 61 :: value).drop (name.length + 1) = value := by simp
  cases name with
  | nil => exact absurd rfl hname
  | cons c name =>
    have hc : c ≠ 35 := fun h => hcomment (congrArg some h)
    rw [List.cons_append] at hfind htake hdrop ⊢
    rw [parse_lines.eq_3, if_neg hc, hfind]
    simp only [List.length_cons] at htake hdrop ⊢
    rw [htake, hdrop]

theorem parse_lines_bad {line : Text} (hsaid : ¬ Skipped line)
    (hbad : ∀ name value, ¬ Gives line name value) (lines : List Text) (p : Properties) :
    ∃ e, parse_lines (line :: lines) p = (p, .error e) := by
  obtain ⟨hnonempty, hcomment⟩ := not_or.mp hsaid
  cases line with
  | nil => exact absurd rfl hnonempty
  | cons c rest =>
    have hc : c ≠ 35 := fun h => hcomment (congrArg some h)
    rw [parse_lines.eq_3, if_neg hc]
    rcases plain_or_append (c :: rest) with hplain | ⟨name, value, heq, hplain⟩
    · rw [find_eq_of_plain hplain]
      exact ⟨_, rfl⟩
    · have hname : name = [] := by
        by_contra hname
        refine hbad name value ⟨heq, hname, hplain, fun hhead => ?_⟩
        cases name with
        | nil => exact hname rfl
        | cons d name =>
          obtain ⟨rfl, -⟩ := List.cons.inj heq
          exact hc (Option.some.inj hhead)
      subst hname
      rw [heq, find_eq_append hplain]
      exact ⟨_, rfl⟩

/-- A property that is there is not changed. -/
theorem parse_lines_reads {lines : List Text} {props : List (Text × Text)} {bad : Option Text}
    (h : Reads lines props bad) (p : Properties) :
    ((parse_lines lines p).2 = .ok () ↔ bad = none) ∧
      ∀ key : Text, (parse_lines lines p).1.props_[key]? =
        p.props_[key]?.or (props.lookup key) := by
  induction h generalizing p with
  | all => exact ⟨iff_of_true rfl rfl, fun key => (Option.or_none).symm⟩
  | skip skipped rest ih =>
    rw [parse_lines_skip skipped]
    exact ih p
  | @prop line lines name value props bad gives rest ih =>
    rw [parse_lines_gives gives]
    obtain ⟨hok, hprops⟩ := ih ⟨p.props_.insertIfNew name value⟩
    refine ⟨hok, fun key => (hprops key).trans ?_⟩
    simp only [Std.TreeMap.getElem?_insertIfNew, Std.compare_eq_iff_eq, List.lookup_cons]
    by_cases hkey : name = key
    · subst hkey
      rw [beq_self_eq_true]
      by_cases hthere : name ∈ p.props_
      · rw [if_neg (not_and_not_right.mpr fun _ => hthere)]
        obtain ⟨old, hold⟩ := Option.isSome_iff_exists.mp
          (Std.TreeMap.isSome_getElem?_eq_contains.trans (Std.TreeMap.contains_iff_mem.mpr hthere))
        rw [hold]
        rfl
      · rw [if_pos ⟨rfl, hthere⟩, Std.TreeMap.getElem?_eq_none hthere]
        rfl
    · rw [if_neg fun h => hkey h.1, beq_eq_false_iff_ne.mpr fun h => hkey h.symm]
  | bad said malformed =>
    obtain ⟨e, he⟩ := parse_lines_bad said malformed _ p
    rw [he]
    exact ⟨iff_of_false nofun nofun, fun key => (Option.or_none).symm⟩

/-- A file gives the properties up to its first malformed line, the first of a name, and the file is
read well iff there is no such line. -/
theorem files_are_read (file_path content : Text) : ∃ props bad,
    Reads (getlines content) props bad ∧
      ((new.parse_file file_path (some content)).2 = .ok () ↔ bad = none) ∧
      ∀ key : Text,
        (new.parse_file file_path (some content)).1.props_[key]? = props.lookup key := by
  obtain ⟨props, bad, h⟩ := exists_reads (getlines content)
  obtain ⟨hok, hprops⟩ := parse_lines_reads h new
  refine ⟨props, bad, h, hok, fun key => (hprops key).trans ?_⟩
  rw [new, Std.TreeMap.getElem?_emptyc, Option.none_or]

/-! ## Files that are written -/

/-- A file of the properties, each on its line. -/
def write (props : List (Text × Text)) : Text :=
  props.flatMap fun prop => prop.1 ++ 61 :: prop.2 ++ [10]

/-- A property that a line can hold. -/
structure Writable (prop : Text × Text) : Prop where
  nonempty : prop.1 ≠ []
  plain : 61 ∉ prop.1
  said : prop.1.head? ≠ some 35
  one_line : 10 ∉ prop.1 ∧ 10 ∉ prop.2

theorem getlines_line {line : Text} (h : 10 ∉ line) (rest : Text) :
    getlines (line ++ 10 :: rest) = line :: getlines rest := by
  induction line with
  | nil => rfl
  | cons c line ih =>
    obtain ⟨hc, hline⟩ := not_or.mp (List.mem_cons.not.mp h)
    rw [List.cons_append, getlines, if_neg fun h => hc h.symm, ih hline]

theorem reads_write {props : List (Text × Text)} (h : ∀ prop ∈ props, Writable prop) :
    Reads (getlines (write props)) props none := by
  induction props with
  | nil => exact .all
  | cons prop props ih =>
    obtain ⟨hprop, hprops⟩ := List.forall_mem_cons.mp h
    have hline : 10 ∉ prop.1 ++ 61 :: prop.2 := by
      simp [hprop.one_line.1, hprop.one_line.2]
    have hwrite : write (prop :: props) = (prop.1 ++ 61 :: prop.2) ++ 10 :: write props := by
      simp [write]
    rw [hwrite, getlines_line hline]
    exact .prop ⟨rfl, hprop.nonempty, hprop.plain, hprop.said⟩ (ih hprops)

/-- What is written is read back: each name has the first of its values. -/
theorem written_properties_are_read (file_path : Text) {props : List (Text × Text)}
    (h : ∀ prop ∈ props, Writable prop) :
    (new.parse_file file_path (some (write props))).2 = .ok () ∧
      ∀ key, 0 ∉ key →
        (new.parse_file file_path (some (write props))).1.get key = props.lookup key := by
  obtain ⟨hok, hprops⟩ := parse_lines_reads (reads_write h) new
  refine ⟨hok.mpr rfl, fun key hkey => ?_⟩
  rw [get, c_string_of_notMem hkey]
  refine (hprops key).trans ?_
  rw [new, Std.TreeMap.getElem?_emptyc, Option.none_or]

/-- A property whose value has a `=`, and one of the same name. -/
def twice : List (Text × Text) := [(text "password", text "a=b"), (text "password", text "c")]

theorem a_name_is_read_with_its_first_value :
    (new.parse_file [] (some (write twice))).2 = .ok () ∧ ∀ key, 0 ∉ key →
      (new.parse_file [] (some (write twice))).1.get key = twice.lookup key := by
  refine written_properties_are_read [] ?_
  intro prop hprop
  simp only [twice, List.mem_cons, List.not_mem_nil, or_false] at hprop
  rcases hprop with rfl | rfl
  · exact ⟨by decide, by decide, by decide, by decide⟩
  · exact ⟨by decide, by decide, by decide, by decide⟩

end Properties

end program
