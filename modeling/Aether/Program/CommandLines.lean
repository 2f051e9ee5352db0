-- Which command lines the parser accepts, and what it makes of them.
import Aether.Error
import Aether.Program.OptionsParser
import Mathlib.Tactic.Common

open util.string proxy

namespace program.OptionsParser

/-! ## Lines -/

section

variable {σ : Type}

/-- A word that names an option, and the value that it holds. -/
inductive Word (p : OptionsParser σ) : Text → StoredOption σ → Option Text → Prop
  | value {option} (name value : Text) (plain : 61 ∉ name)
      (found : p.find_name name = some option) :
      Word p (45 :: 45 :: (name ++ 61 :: value)) option (some value)
  | full {option} (name : Text) (plain : 61 ∉ name) (nonempty : name ≠ [])
      (found : p.find_name name = some option) : Word p (45 :: 45 :: name) option none
  /-- What is behind the letter is not read. -/
  | letter {option} (letter : UInt8) (rest : Text) (short : letter ≠ 45)
      (found : p.find_letter letter = some option) : Word p (45 :: letter :: rest) option none

/-- The options of a line with their values, and the words behind the end of options. -/
inductive Line (p : OptionsParser σ) :
    List Text → List (StoredOption σ × Text) → List Text → Prop
  | all : Line p [] [] []
  | stop (rest : List Text) : Line p (text "--" :: rest) [] rest
  | holds {word value option args given rest} (names : Word p word option (some value))
      (line : Line p args given rest) : Line p (word :: args) ((option, value) :: given) rest
  | flag {word option args given rest} (names : Word p word option none)
      (boolean : option.is_boolean = true) (line : Line p args given rest) :
      Line p (word :: args) ((option, []) :: given) rest
  | takes {word value option args given rest} (names : Word p word option none)
      (valued : option.is_boolean = false) (line : Line p args given rest) :
      Line p (word :: value :: args) ((option, value) :: given) rest

/-- All values are written to their destinations, in their order. -/
def write_all : List (StoredOption σ × Text) → σ → Option σ
  | [], s => some s
  | (option, value) :: given, s => (option.parser value s).bind (write_all given)

/-- The flags of the options that have to be seen. -/
def see_all (given : List (StoredOption σ × Text)) (required : List Bool) : List Bool :=
  given.foldl (fun required pair => see pair.1 required) required

/-! ## Words -/

variable {p : OptionsParser σ} {curr : Text} {option : StoredOption σ} {value : Option Text}

theorem before_eq_append {name : Text} (h : 61 ∉ name) (value : Text) :
    before_eq (name ++ 61 :: value) = name := by
  unfold before_eq
  rw [find_eq_append h]
  exact List.take_left' rfl

theorem before_eq_of_plain {name : Text} (h : 61 ∉ name) : before_eq name = name := by
  unfold before_eq
  rw [find_eq_of_plain h]

/-- Behind the two dashes. -/
theorem not_mem_dashes {name : Text} (h : 61 ∉ name) : (61 : UInt8) ∉ 45 :: 45 :: name := by
  simpa using h

theorem match_option_of_word (h : Word p curr option value) :
    p.match_option curr = .ok (option, value) := by
  cases h with
  | value name value plain found =>
    have hdashes := not_mem_dashes plain
    have hfind : find_eq (45 :: 45 :: (name ++ 61 :: value)) = some (name.length + 2) :=
      find_eq_append hdashes value
    have hbefore : before_eq (45 :: 45 :: (name ++ 61 :: value)) = 45 :: 45 :: name :=
      before_eq_append hdashes value
    unfold match_option
    simp only [ne_eq, not_true_eq_false, if_false, beq_self_eq_true, if_true, hbefore,
      List.drop_succ_cons, List.drop_zero, found, hfind, Option.map_some]
    have hdrop : (name ++ 61 :: value).drop (name.length + 1) = value := by simp
    rw [hdrop]
  | full name plain nonempty found =>
    have hdashes := not_mem_dashes plain
    unfold match_option
    simp only [ne_eq, not_true_eq_false, if_false, beq_self_eq_true, if_true,
      before_eq_of_plain hdashes, List.drop_succ_cons, List.drop_zero, found,
      find_eq_of_plain hdashes, Option.map_none]
  | letter letter rest short found =>
    unfold match_option
    simp only [ne_eq, not_true_eq_false, if_false, beq_eq_false_iff_ne.mpr short, found,
      Bool.false_eq_true]

theorem match_option_iff (hcurr : curr ≠ text "--") :
    p.match_option curr = .ok (option, value) ↔ Word p curr option value := by
  refine ⟨fun h => ?_, match_option_of_word⟩
  unfold match_option at h
  split at h
  · cases h
  · split at h
    · cases h
    · rename_i dash word hdash
      obtain rfl := not_not.mp hdash
      split at h
      · cases h
      · rename_i letter name
        simp only at h
        by_cases hfull : letter = 45
        · subst hfull
          simp only [beq_self_eq_true, if_true] at h
          split at h
          · cases h
          · rename_i found
            obtain ⟨rfl, rfl⟩ := Prod.mk.inj (Except.ok.inj h)
            rcases plain_or_append name with hplain | ⟨before, value, rfl, hbefore⟩
            · have hdashes := not_mem_dashes hplain
              rw [find_eq_of_plain hdashes]
              rw [before_eq_of_plain hdashes] at found
              refine .full name hplain ?_ found
              rintro rfl
              exact hcurr rfl
            · have hdashes := not_mem_dashes hbefore
              have hfind : find_eq (45 :: 45 :: (before ++ 61 :: value)) =
                  some (before.length + 2) := find_eq_append hdashes value
              have hname : before_eq (45 :: 45 :: (before ++ 61 :: value)) = 45 :: 45 :: before :=
                before_eq_append hdashes value
              have hdrop : (before ++ 61 :: value).drop (before.length + 1) = value := by simp
              rw [hname] at found
              simp only [hfind, Option.map_some, List.drop_succ_cons, hdrop]
              exact .value before value hbefore found
        · rw [beq_eq_false_iff_ne.mpr hfull] at h
          simp only [Bool.false_eq_true, if_false] at h
          split at h
          · cases h
          · rename_i found
            obtain ⟨rfl, rfl⟩ := Prod.mk.inj (Except.ok.inj h)
            exact .letter letter name hfull found

/-! ## The loop -/

theorem parse_ok {str : Text} {s s' : σ} :
    option.parse str s = .ok s' ↔ option.parser str s = some s' := by
  unfold StoredOption.parse
  cases option.parser str s <;> simp

theorem not_end_of_word (h : Word p curr option value) : curr ≠ text "--" := by
  cases h with
  | value name value plain found =>
    intro h
    have hlength := congrArg List.length h
    simp [text] at hlength
  | full name plain nonempty found =>
    intro h
    exact nonempty (List.cons.inj (List.cons.inj h).2).2
  | letter letter rest short found =>
    intro h
    exact short (List.cons.inj (List.cons.inj h).2).1

/-- The result of the loop, after the words of an option. -/
inductive Turn (p : OptionsParser σ) (args : List Text) (option : StoredOption σ)
    (required : List Bool) (s : σ) (r : List Text × List Bool × σ) : Option Text → Prop
  | holds {value s₁} (written : option.parser value s = some s₁)
      (rest : p.parse_loop args (see option required) s₁ = .ok r) :
      Turn p args option required s r (some value)
  | flag {s₁} (boolean : option.is_boolean = true) (written : option.parser [] s = some s₁)
      (rest : p.parse_loop args (see option required) s₁ = .ok r) :
      Turn p args option required s r none
  | takes {value later s₁} (valued : option.is_boolean = false) (next : args = value :: later)
      (written : option.parser value s = some s₁)
      (rest : p.parse_loop later (see option required) s₁ = .ok r) :
      Turn p args option required s r none

theorem parse_loop_stop (args : List Text) (required : List Bool) (s : σ) :
    p.parse_loop (text "--" :: args) required s = .ok (args, required, s) := by
  rw [parse_loop.eq_2, if_pos rfl]

/-- One turn of the loop. -/
theorem parse_loop_cons_iff {args : List Text} {required : List Bool} {s : σ}
    {r : List Text × List Bool × σ} (hcurr : curr ≠ text "--") :
    p.parse_loop (curr :: args) required s = .ok r ↔
      ∃ option value, Word p curr option value ∧ Turn p args option required s r value := by
  rw [parse_loop.eq_2, if_neg hcurr]
  constructor
  · intro h
    split at h
    · cases h
    · rename_i option value hmatch
      refine ⟨option, value, (match_option_iff hcurr).mp hmatch, ?_⟩
      simp only at h
      split at h
      · obtain ⟨s₁, hwritten, hrest⟩ := bind_eq_ok.mp h
        exact .holds (parse_ok.mp hwritten) hrest
      · split at h
        · rename_i hboolean
          obtain ⟨s₁, hwritten, hrest⟩ := bind_eq_ok.mp h
          exact .flag hboolean (parse_ok.mp hwritten) hrest
        · rename_i hvalued
          split at h
          · cases h
          · obtain ⟨s₁, hwritten, hrest⟩ := bind_eq_ok.mp h
            exact .takes (Bool.not_eq_true _ ▸ hvalued) rfl (parse_ok.mp hwritten) hrest
  · rintro ⟨option, value, hword, hturn⟩
    rw [match_option_of_word hword]
    cases hturn with
    | holds written rest => exact bind_eq_ok.mpr ⟨_, parse_ok.mpr written, rest⟩
    | flag boolean written rest =>
      simp only [boolean, if_true]
      exact bind_eq_ok.mpr ⟨_, parse_ok.mpr written, rest⟩
    | takes valued next written rest =>
      subst next
      simp only [valued, Bool.false_eq_true, if_false]
      exact bind_eq_ok.mpr ⟨_, parse_ok.mpr written, rest⟩

/-- The loop ends well on the lines, and on no other words. -/
theorem parse_loop_iff {args rest : List Text} {required required' : List Bool} {s s' : σ} :
    p.parse_loop args required s = .ok (rest, required', s') ↔
      ∃ given, Line p args given rest ∧ write_all given s = some s' ∧
        required' = see_all given required := by
  constructor
  · intro h
    induction hlength : args.length using Nat.strong_induction_on generalizing args required s with
    | _ n ih =>
      subst hlength
      cases args with
      | nil =>
        obtain ⟨rfl, hrest⟩ := Prod.mk.inj (Except.ok.inj h)
        obtain ⟨rfl, rfl⟩ := Prod.mk.inj hrest
        exact ⟨[], .all, rfl, rfl⟩
      | cons curr args =>
        by_cases hcurr : curr = text "--"
        · subst hcurr
          rw [parse_loop_stop] at h
          obtain ⟨rfl, hrest⟩ := Prod.mk.inj (Except.ok.inj h)
          obtain ⟨rfl, rfl⟩ := Prod.mk.inj hrest
          exact ⟨[], .stop _, rfl, rfl⟩
        · obtain ⟨option, value, hword, hturn⟩ := (parse_loop_cons_iff hcurr).mp h
          cases hturn with
          | holds written hrest =>
            obtain ⟨given, hline, hwritten, rfl⟩ := ih _ (Nat.lt_succ_self _) hrest rfl
            exact ⟨_, .holds hword hline, Option.bind_eq_some_iff.mpr ⟨_, written, hwritten⟩, rfl⟩
          | flag boolean written hrest =>
            obtain ⟨given, hline, hwritten, rfl⟩ := ih _ (Nat.lt_succ_self _) hrest rfl
            exact ⟨_, .flag hword boolean hline,
              Option.bind_eq_some_iff.mpr ⟨_, written, hwritten⟩, rfl⟩
          | @takes value later s₁ valued next written hrest =>
            subst next
            obtain ⟨given, hline, hwritten, rfl⟩ :=
              ih later.length (by simp only [List.length_cons]; omega) hrest rfl
            exact ⟨_, .takes hword valued hline,
              Option.bind_eq_some_iff.mpr ⟨_, written, hwritten⟩, rfl⟩
  · rintro ⟨given, hline, hwritten, rfl⟩
    induction hline generalizing required s with
    | all =>
      obtain rfl := Option.some.inj hwritten
      rfl
    | stop rest =>
      obtain rfl := Option.some.inj hwritten
      exact parse_loop_stop _ _ _
    | holds names line ih =>
      obtain ⟨s₁, hs₁, hwritten⟩ := Option.bind_eq_some_iff.mp hwritten
      exact (parse_loop_cons_iff (not_end_of_word names)).mpr
        ⟨_, _, names, .holds hs₁ (ih hwritten)⟩
    | flag names boolean line ih =>
      obtain ⟨s₁, hs₁, hwritten⟩ := Option.bind_eq_some_iff.mp hwritten
      exact (parse_loop_cons_iff (not_end_of_word names)).mpr
        ⟨_, _, names, .flag boolean hs₁ (ih hwritten)⟩
    | takes names valued line ih =>
      obtain ⟨s₁, hs₁, hwritten⟩ := Option.bind_eq_some_iff.mp hwritten
      exact (parse_loop_cons_iff (not_end_of_word names)).mpr
        ⟨_, _, names, .takes valued rfl hs₁ (ih hwritten)⟩

/-! ## Required options -/

theorem length_see (option : StoredOption σ) (required : List Bool) :
    (see option required).length = required.length := by
  unfold see
  split
  · exact List.length_set
  · rfl

theorem getElem_see (option : StoredOption σ) (required : List Bool) (id : Nat) :
    (see option required)[id]? = some true ↔
      id < required.length ∧ (option.required_id = some id ∨ required[id]? = some true) := by
  unfold see
  split
  · rename_i id' hid
    rw [hid, List.getElem?_set, Option.some.injEq]
    by_cases hsame : id' = id
    · subst hsame
      by_cases hlt : id' < required.length <;> simp [hlt]
    · rw [if_neg hsame]
      refine ⟨fun h => ⟨?_, Or.inr h⟩, fun h => h.2.resolve_left hsame⟩
      exact (List.getElem?_eq_some_iff.mp h).1
  · rename_i hid
    rw [hid]
    refine ⟨fun h => ⟨(List.getElem?_eq_some_iff.mp h).1, Or.inr h⟩, fun h => ?_⟩
    exact h.2.resolve_left nofun

/-- An option is seen if it is given, or was seen before. -/
theorem getElem_see_all (given : List (StoredOption σ × Text)) (required : List Bool) (id : Nat) :
    (see_all given required)[id]? = some true ↔ id < required.length ∧
      ((∃ pair ∈ given, pair.1.required_id = some id) ∨ required[id]? = some true) := by
  induction given generalizing required with
  | nil =>
    refine ⟨fun h => ⟨(List.getElem?_eq_some_iff.mp h).1, Or.inr h⟩, fun h => h.2.resolve_left ?_⟩
    rintro ⟨pair, hpair, -⟩
    cases hpair
  | cons pair given ih =>
    show (see_all given (see pair.1 required))[id]? = some true ↔ _
    rw [ih, length_see, getElem_see, List.exists_mem_cons_iff]
    refine and_congr_right fun hlt => ?_
    rw [and_iff_right hlt, or_assoc]
    exact or_left_comm

theorem length_see_all (given : List (StoredOption σ × Text)) (required : List Bool) :
    (see_all given required).length = required.length := by
  induction given generalizing required with
  | nil => rfl
  | cons pair given ih => exact (ih _).trans (length_see _ _)

/-- All of the required options are given. -/
def Covers (p : OptionsParser σ) (given : List (StoredOption σ × Text)) : Prop :=
  ∀ id < p.num_required_, ∃ pair ∈ given, pair.1.required_id = some id

theorem covers_iff {given : List (StoredOption σ × Text)} :
    (see_all given (List.replicate p.num_required_ false)).any (fun b => !b) = false ↔
      Covers p given := by
  rw [List.any_eq_false]
  constructor
  · intro h id hid
    have hlt : id < (see_all given (List.replicate p.num_required_ false)).length := by
      rw [length_see_all, List.length_replicate]
      exact hid
    have hseen := h _ (List.getElem_mem hlt)
    have htrue : (see_all given (List.replicate p.num_required_ false))[id]? = some true := by
      rw [List.getElem?_eq_getElem hlt]
      simpa using hseen
    refine ((getElem_see_all _ _ _).mp htrue).2.resolve_right ?_
    simp [List.getElem?_replicate]
  · intro h b hb
    obtain ⟨id, hid, rfl⟩ := List.getElem_of_mem hb
    have hlt : id < p.num_required_ := by
      simpa [length_see_all] using hid
    have htrue := (getElem_see_all given (List.replicate p.num_required_ false) id).mpr
      ⟨by simpa using hlt, Or.inl (h id hlt)⟩
    rw [List.getElem?_eq_getElem hid] at htrue
    simp [Option.some.inj htrue]

theorem line_of_parse {argv : List Text} {s s' : σ} {i : Nat} (h : p.parse argv s = .ok (i, s')) :
    ∃ given rest, Line p argv.tail given rest ∧ write_all given s = some s' ∧ Covers p given ∧
      i = argv.length - rest.length := by
  obtain ⟨⟨rest, required, s₁⟩, hloop, h⟩ := bind_eq_ok.mp h
  obtain ⟨given, hline, hwritten, rfl⟩ := parse_loop_iff.mp hloop
  simp only at h
  split at h
  · cases h
  · rename_i hall
    obtain ⟨rfl, rfl⟩ := Prod.mk.inj (Except.ok.inj h)
    exact ⟨given, rest, hline, hwritten, covers_iff.mp (Bool.not_eq_true _ ▸ hall), rfl⟩

/-- A command line is accepted iff its words are a line that covers the required options and whose
values can be written. The index is that of the words that are left. -/
theorem a_command_line_is_accepted_iff {argv : List Text} {s s' : σ} {i : Nat} :
    p.parse argv s = .ok (i, s') ↔ ∃ given rest, Line p argv.tail given rest ∧
      write_all given s = some s' ∧ Covers p given ∧ i = argv.length - rest.length := by
  refine ⟨line_of_parse, ?_⟩
  rintro ⟨given, rest, hline, hwritten, hcovers, rfl⟩
  refine bind_eq_ok.mpr ⟨_, parse_loop_iff.mpr ⟨given, hline, hwritten, rfl⟩, ?_⟩
  simp only [covers_iff.mpr hcovers, Bool.false_eq_true, if_false]
  rfl

end

/-! ## The options that are there -/

section

variable {σ : Type}

/-- An option as it was added: whether it is required, and its help string. -/
structure Added where
  required : Bool
  help_string : Text

def added {In Out : Type} (option : CommandLineOption σ In Out) : Added :=
  ⟨option.required, StoredOption.generate_help_string option.name option.letter⟩

/-- The parsers that some calls of `add_option` leave. -/
inductive Built : List Added → OptionsParser σ → Prop
  | new : Built [] new
  | option {adds p p' s s'} {In Out : Type} (lexical_cast : Text → Option In)
      (option : CommandLineOption σ In Out) (built : Built adds p)
      (adds_it : p.add_option lexical_cast option s = .ok (p', s')) :
      Built (adds ++ [added option]) p'
  | boolean {adds p p' s s'} {Out : Type} (option : CommandLineOption σ Bool Out)
      (built : Built adds p) (adds_it : p.add_boolean option s = .ok (p', s')) :
      Built (adds ++ [added option]) p'

/-- How many of the options are required. -/
def required_of (adds : List Added) : Nat := adds.countP Added.required

/-- The map has the options that were the first with their help strings, and each that is required
has the number of those before it. -/
structure Numbered (adds : List Added) (p : OptionsParser σ) : Prop where
  count : p.num_required_ = required_of adds
  keys : ∀ key, key ∈ p.option_map_ ↔ ∃ a ∈ adds, a.help_string = key
  ids : ∀ key option id, p.option_map_[key]? = some option → option.required_id = some id →
    ∃ before after, adds = before ++ ⟨true, key⟩ :: after ∧ id = required_of before ∧
      ∀ a ∈ before, a.help_string ≠ key

variable {p : OptionsParser σ} {adds : List Added}

theorem numbered_store {required : Bool} {name : Option Text} {letter : Option UInt8}
    {is_boolean : Bool} {parser : Text → σ → Option σ} (h : Numbered adds p) :
    Numbered (adds ++ [⟨required, StoredOption.generate_help_string name letter⟩])
      (p.store required name letter is_boolean parser) := by
  generalize hkey : StoredOption.generate_help_string name letter = help_string
  refine ⟨?_, fun key => ?_, fun key option id hoption hid => ?_⟩
  · unfold store required_of
    rw [List.countP_append, h.count]
    cases required <;> rfl
  · simp only [store, hkey, Std.TreeMap.mem_insertIfNew, h.keys, List.mem_append,
      List.mem_singleton, Std.compare_eq_iff_eq]
    constructor
    · rintro (rfl | ⟨a, ha, rfl⟩)
      · exact ⟨_, Or.inr rfl, rfl⟩
      · exact ⟨a, Or.inl ha, rfl⟩
    · rintro ⟨a, ha | rfl, rfl⟩
      · exact Or.inr ⟨a, ha, rfl⟩
      · exact Or.inl rfl
  · simp only [store, hkey, Std.TreeMap.getElem?_insertIfNew, Std.compare_eq_iff_eq] at hoption
    split at hoption
    · rename_i hnew
      obtain ⟨rfl, hnew⟩ := hnew
      obtain rfl := Option.some.inj hoption
      cases required with
      | false => cases hid
      | true =>
        refine ⟨adds, [], rfl, ?_, fun a ha heq => hnew ((h.keys _).mpr ⟨a, ha, heq⟩)⟩
        rw [← h.count]
        exact (Option.some.inj hid).symm
    · obtain ⟨before, after, rfl, hcount, hfirst⟩ := h.ids key option id hoption hid
      exact ⟨before, after ++ [_], List.append_assoc .., hcount, hfirst⟩

theorem Built.numbered (h : Built adds p) : Numbered adds p := by
  induction h with
  | new => exact ⟨rfl, fun key => by simp [OptionsParser.new], fun key option id h => by
      simp [OptionsParser.new] at h⟩
  | option lexical_cast option built adds_it ih =>
    obtain ⟨-, -, hadds⟩ := bind_eq_ok.mp adds_it
    obtain ⟨rfl, -⟩ := Prod.mk.inj (Except.ok.inj hadds)
    exact numbered_store ih
  | boolean option built adds_it ih =>
    obtain ⟨-, -, hadds⟩ := bind_eq_ok.mp adds_it
    obtain ⟨rfl, -⟩ := Prod.mk.inj (Except.ok.inj hadds)
    exact numbered_store ih

/-- Two required options with the same number before them are one. -/
theorem before_eq_of_required_of {before before' after after' : List Added} {a a' : Added}
    (ha : a.required = true) (ha' : a'.required = true)
    (h : before ++ a :: after = before' ++ a' :: after')
    (hcount : required_of before = required_of before') : before = before' := by
  induction before generalizing before' with
  | nil =>
    cases before' with
    | nil => rfl
    | cons b before' =>
      obtain ⟨rfl, -⟩ := List.cons.inj h
      rw [required_of, required_of, List.countP_cons_of_pos ha] at hcount
      cases hcount
  | cons b before ih =>
    cases before' with
    | nil =>
      obtain ⟨rfl, -⟩ := List.cons.inj h
      rw [required_of, required_of, List.countP_cons_of_pos ha'] at hcount
      cases hcount
    | cons b' before' =>
      obtain ⟨rfl, hrest⟩ := List.cons.inj h
      refine congrArg (b :: ·) (ih hrest ?_)
      simp only [required_of, List.countP_cons] at hcount ⊢
      omega

theorem mem_of_find {test : StoredOption σ → Bool} {option : StoredOption σ}
    (h : p.options.find? test = some option) : ∃ key : Text, p.option_map_[key]? = some option := by
  obtain ⟨pair, hpair, rfl⟩ := List.mem_map.mp (List.mem_of_find?_eq_some h)
  exact ⟨pair.1, Std.TreeMap.mem_toList_iff_getElem?_eq_some.mp hpair⟩

theorem Word.stored {word : Text} {option : StoredOption σ} {value : Option Text}
    (h : Word p word option value) : ∃ key : Text, p.option_map_[key]? = some option := by
  cases h with
  | value name value plain found => exact mem_of_find found
  | full name plain nonempty found => exact mem_of_find found
  | letter letter rest short found => exact mem_of_find found

theorem Line.stored {args rest : List Text} {given : List (StoredOption σ × Text)}
    (h : Line p args given rest) :
    ∀ pair ∈ given, ∃ key : Text, p.option_map_[key]? = some pair.1 := by
  induction h with
  | all => nofun
  | stop rest => nofun
  | holds names line ih => exact List.forall_mem_cons.mpr ⟨names.stored, ih⟩
  | flag names boolean line ih => exact List.forall_mem_cons.mpr ⟨names.stored, ih⟩
  | takes names valued line ih => exact List.forall_mem_cons.mpr ⟨names.stored, ih⟩

/-- No option has the number of one that is required and has a help string that is there. -/
theorem Numbered.not_stored {before after : List Added} {a : Added} (hrequired : a.required = true)
    (hthere : a.help_string ∈ before.map Added.help_string)
    (h : Numbered (before ++ a :: after) p) {key : Text} {option : StoredOption σ}
    (hoption : p.option_map_[key]? = some option) :
    option.required_id ≠ some (required_of before) := by
  intro hid
  obtain ⟨before', after', hadds, hcount, hfirst⟩ := h.ids key option _ hoption hid
  obtain rfl := before_eq_of_required_of hrequired rfl hadds hcount
  obtain ⟨rfl, -⟩ := List.cons.inj (List.append_cancel_left hadds)
  obtain ⟨b, hb, hsame⟩ := List.mem_map.mp hthere
  exact hfirst b hb hsame

/-- If a required option is added with a help string that is there, it is counted, no option that is
stored has its number, and no command line is accepted. -/
theorem a_required_option_that_is_not_stored_refuses_all {before after : List Added} {a : Added}
    (h : Built (before ++ a :: after) p) (hrequired : a.required = true)
    (hthere : a.help_string ∈ before.map Added.help_string) (argv : List Text) (s : σ) :
    p.num_required_ = required_of before + 1 + required_of after ∧
      (∀ (key : Text) option, p.option_map_[key]? = some option →
        option.required_id ≠ some (required_of before)) ∧
      ∃ e, p.parse argv s = .error e := by
  have hnumbered := h.numbered
  have hcount : p.num_required_ = required_of before + 1 + required_of after := by
    rw [hnumbered.count, required_of, required_of, required_of, List.countP_append,
      List.countP_cons_of_pos hrequired]
    omega
  refine ⟨hcount, fun key option => hnumbered.not_stored hrequired hthere, ?_⟩
  cases hparse : p.parse argv s with
  | error e => exact ⟨e, rfl⟩
  | ok result =>
    obtain ⟨i, s'⟩ := result
    obtain ⟨given, rest, hline, -, hcovers, -⟩ := line_of_parse hparse
    obtain ⟨pair, hpair, hpairid⟩ := hcovers (required_of before) (by omega)
    obtain ⟨key, hkey⟩ := hline.stored pair hpair
    exact absurd hpairid (hnumbered.not_stored hrequired hthere hkey)

/-- An option that is required and has this letter. Its value is not kept. -/
def lettered (letter : UInt8) : CommandLineOption Unit Bool Bool :=
  ⟨none, some letter, fun _ s => s, true, none, none, none, some id⟩

theorem an_option_that_is_added_twice_refuses_all : ∃ p : OptionsParser Unit,
    Built ([] ++ added (lettered 112) :: [added (lettered 112)]) p ∧
      p.num_required_ = 2 ∧ (∀ (key : Text) option, p.option_map_[key]? = some option →
        option.required_id ≠ some 1) ∧
      ∃ e, p.parse [text "aether", text "-p"] () = .error e := by
  have hbuilt : @Built Unit ([added (lettered 112)] ++ added (lettered 112) :: []) _ :=
    .boolean (s := ()) (lettered 112) (.boolean (s := ()) (lettered 112) .new rfl) rfl
  refine ⟨_, hbuilt, ?_⟩
  exact a_required_option_that_is_not_stored_refuses_all hbuilt rfl List.mem_cons_self _ ()

end

end program.OptionsParser
