-- `split` and `join` of `util/string.hpp`.
--
-- `split` finds each entry from `prev` to `pos`, but its `substr` starts at 0. Each token but the
-- last one is thus as long as its entry, and made of the first characters of the string.
import Aether.Lib.Positions
import Aether.Lib.Separators
import Aether.Util.Text

open lib.positions lib.separators

namespace util.string

/-! ## The functions -/

/-- `std::string_view::find` with a string, at a position or after it. -/
def find_string (src delim : Text) (pos : Nat) : Option Nat :=
  if pos ≤ src.length then (firstAt delim (src.drop pos)).map (pos + ·) else none

/-- `std::string_view::find` with a character. -/
def find_char (src : Text) (delim : UInt8) (pos : Nat) : Option Nat :=
  find_from (fun c => c == delim) src pos

/-- The loop of `split`, which may ask for a next delimiter `turns` times. -/
def split_loop (find : Nat → Option Nat) (delim_size : Nat) (src : Text) :
    Nat → Nat → List Text → Option (List Text)
  | 0, _, _ => none
  | turns + 1, prev, tokens =>
    match find prev with
    | some pos =>
      -- `src.substr(0, pos - prev)`.
      split_loop find delim_size src turns (pos + delim_size) (tokens ++ [src.take (pos - prev)])
    -- Push everything else to the end of the string.
    | none => some (tokens ++ [src.drop prev])

/-- `split` along a string. -/
def split (src delim : Text) : Option (List Text) :=
  split_loop (find_string src delim) delim.length src (src.length + 1) 0 []

/-- `split` along a character. -/
def split_char (src : Text) (delim : UInt8) : Option (List Text) :=
  split_loop (find_char src delim) 1 src (src.length + 1) 0 []

/-- `join`: an iterator writes a delimiter behind each value but the last one. It is given
`delim.data()`, so it writes up to a NUL. -/
def join (range : List Text) (delim : Text) : Text :=
  range.dropLast.flatMap (fun value => value ++ c_string delim) ++ range.getLast?.getD []

/-! ## What it is for -/

/-- Tokens of a string: they are free of the delimiter, and joined they are the string. -/
structure Tokens (src delim : Text) (tokens : List Text) : Prop where
  no_delim : ∀ t ∈ tokens, ¬ delim <:+: t
  intercalated : delim.intercalate tokens = src
  joined : 0 ∉ delim → join tokens delim = src

/-- A call returned the tokens of a string. -/
def Returned (src delim : Text) (result : Option (List Text)) : Prop :=
  ∃ tokens, result = some tokens ∧ Tokens src delim tokens

/-- The pieces with a delimiter on both sides are what the string starts with. -/
def InnerPrefixes (src delim : Text) : Prop := ∀ p ∈ (pieces delim src).tail.dropLast, p <+: src

instance (src delim : Text) : Decidable (InnerPrefixes src delim) :=
  inferInstanceAs (Decidable (∀ p ∈ (pieces delim src).tail.dropLast, p <+: src))

/-! ## The join -/

theorem join_cons {p : Text} {ps : List Text} (h : ps ≠ []) (delim : Text) :
    join (p :: ps) delim = p ++ (c_string delim ++ join ps delim) := by
  obtain ⟨q, qs, rfl⟩ := List.exists_cons_of_ne_nil h
  simp only [join, List.dropLast_cons_cons, List.flatMap_cons, List.getLast?_cons_cons,
    List.append_assoc]

/-- A delimiter without a NUL is written as it is. -/
theorem join_eq_intercalate {delim : Text} (h : 0 ∉ delim) (tokens : List Text) :
    join tokens delim = delim.intercalate tokens := by
  induction tokens with
  | nil => rfl
  | cons p ps ih =>
    by_cases hnil : ps = []
    · subst hnil
      simp [join, List.intercalate]
    · rw [join_cons hnil, intercalate_cons hnil, ih, c_string_of_notMem h]

/-! ## The loop -/

/-- What the loop makes of the pieces. -/
def from_start (src : Text) : List Text → List Text
  | [] => []
  | [p] => [p]
  | p :: q :: ps => src.take p.length :: from_start src (q :: ps)

section

variable {src delim : Text}

theorem from_start_cons {p : Text} {ps : List Text} (h : ps ≠ []) :
    from_start src (p :: ps) = src.take p.length :: from_start src ps := by
  obtain ⟨q, qs, rfl⟩ := List.exists_cons_of_ne_nil h
  rfl

theorem length_from_start {ps : List Text} (h : ∀ p ∈ ps, p.length ≤ src.length) :
    (from_start src ps).map List.length = ps.map List.length := by
  induction ps with
  | nil => rfl
  | cons p ps ih =>
    obtain ⟨hp, hps⟩ := List.forall_mem_cons.mp h
    by_cases hnil : ps = []
    · rw [hnil]
      rfl
    · rw [from_start_cons hnil, List.map_cons, List.map_cons, ih hps, List.length_take,
        Nat.min_eq_left hp]

/-- The pieces are kept when all but the last one are what the string starts with. -/
theorem from_start_eq_iff (ps : List Text) :
    from_start src ps = ps ↔ ∀ p ∈ ps.dropLast, p <+: src := by
  induction ps with
  | nil => simp [from_start]
  | cons p ps ih =>
    by_cases hnil : ps = []
    · subst hnil
      simp [from_start]
    · rw [from_start_cons hnil, List.cons.injEq, ih, List.dropLast_cons_of_ne_nil hnil,
        List.forall_mem_cons, List.prefix_iff_eq_take]
      exact and_congr_left fun _ => eq_comm

theorem split_loop_eq {find : Nat → Option Nat} (hdelim : delim ≠ [])
    (hfind : ∀ pos ≤ src.length, find pos = (firstAt delim (src.drop pos)).map (pos + ·))
    (rest : Text) : ∀ prev tokens turns, prev ≤ src.length → src.drop prev = rest →
      (pieces delim rest).length ≤ turns →
      split_loop find delim.length src turns prev tokens =
        some (tokens ++ from_start src (pieces delim rest)) := by
  induction rest using pieces_induction hdelim with
  | last rest h =>
    intro prev tokens turns hprev hrest hturns
    rw [pieces_of_none h] at hturns ⊢
    obtain ⟨turns, rfl⟩ : ∃ n, turns = n + 1 := ⟨turns - 1, by simp at hturns; omega⟩
    have hnone : find prev = none := by
      rw [hfind prev hprev, hrest, h]
      rfl
    rw [split_loop, hnone]
    simp only [hrest, from_start]
  | next rest i h ih =>
    intro prev tokens turns hprev hrest hturns
    rw [pieces_of_some hdelim h, List.length_cons] at hturns
    obtain ⟨turns, rfl⟩ : ∃ n, turns = n + 1 := ⟨turns - 1, by omega⟩
    obtain ⟨-, hle⟩ := firstAt_parts h
    have hlength := congrArg List.length hrest
    rw [List.length_drop] at hlength
    have hsome : find prev = some (prev + i) := by
      rw [hfind prev hprev, hrest, h]
      rfl
    have hdrop : src.drop (prev + i + delim.length) = rest.drop (i + delim.length) := by
      rw [← hrest, List.drop_drop, Nat.add_assoc]
    have hentry : (rest.take i).length = i := by
      rw [List.length_take]
      omega
    rw [split_loop, hsome]
    simp only
    rw [ih _ _ turns (by omega) hdrop (by omega), pieces_of_some hdelim h,
      from_start_cons (pieces_ne_nil _ _), hentry, Nat.add_sub_cancel_left, List.append_assoc]
    rfl

theorem split_eq (hdelim : delim ≠ []) (src : Text) :
    split src delim = some (from_start src (pieces delim src)) := by
  have hfind : ∀ pos ≤ src.length,
      find_string src delim pos = (firstAt delim (src.drop pos)).map (pos + ·) :=
    fun _ hpos => if_pos hpos
  exact split_loop_eq hdelim hfind src 0 [] _ (Nat.zero_le _) rfl (length_pieces_le hdelim)

theorem split_char_eq (src : Text) (c : UInt8) :
    split_char src c = some (from_start src (pieces [c] src)) := by
  have hfind : ∀ pos ≤ src.length,
      find_char src c pos = (firstAt [c] (src.drop pos)).map (pos + ·) := by
    intro pos _
    rw [firstAt_singleton]
    rfl
  have hne : [c] ≠ [] := List.cons_ne_nil _ _
  exact split_loop_eq hne hfind src 0 [] _ (Nat.zero_le _) rfl (length_pieces_le hne)

/-! ## When the tokens are right -/

/-- The first piece is always right, and so is the last one. -/
theorem pieces_kept_iff (hdelim : delim ≠ []) (src : Text) :
    from_start src (pieces delim src) = pieces delim src ↔ InnerPrefixes src delim := by
  rw [from_start_eq_iff, InnerPrefixes]
  have hhead := head_pieces_prefix (l := src) hdelim
  generalize pieces delim src = ps at *
  cases ps with
  | nil => rfl
  | cons p ps =>
    by_cases hnil : ps = []
    · rw [hnil]
      rfl
    · rw [List.dropLast_cons_of_ne_nil hnil, List.forall_mem_cons]
      exact and_iff_right (hhead p rfl)

theorem tokens_pieces (hdelim : delim ≠ []) (src : Text) :
    Tokens src delim (pieces delim src) where
  no_delim := not_infix_of_mem_pieces hdelim
  intercalated := intercalate_pieces hdelim src
  joined := fun h => by rw [join_eq_intercalate h, intercalate_pieces hdelim]

theorem returned_iff (hdelim : delim ≠ []) (src : Text) :
    Returned src delim (some (from_start src (pieces delim src))) ↔ InnerPrefixes src delim := by
  rw [← pieces_kept_iff hdelim]
  constructor
  · rintro ⟨tokens, heq, htokens⟩
    obtain rfl := Option.some.inj heq
    have hlength : (from_start src (pieces delim src)).map List.length =
        (pieces delim src).map List.length :=
      length_from_start (length_le_of_mem_pieces hdelim)
    refine intercalate_inj hlength (?_ : delim.intercalate _ = delim.intercalate _)
    rw [htokens.intercalated, intercalate_pieces hdelim]
  · intro h
    rw [h]
    exact ⟨_, rfl, tokens_pieces hdelim src⟩

end

end util.string
