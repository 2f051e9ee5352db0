-- `split_trim` of `util/string.hpp` as it goes through a string by positions, and
-- that it gives the trimmed entries between the delimiters.
import Aether.Lib.TrimmedEntries
import Aether.Util.Trimming

open lib.positions lib.trimmed_entries

namespace util.string

/-! ## The loop -/

/-- `find_first_not_of` with the white space, at a position or after it. -/
def find_first_not_of (src : Text) (pos : Nat) : Option Nat :=
  find_from (fun c => !whitespace c) src pos

/-- `find_last_not_of` with the white space. -/
def find_last_not_of (src : Text) : Option Nat := find_last (fun c => !whitespace c) src

/-- `src.substr(begin, end - begin + 1)`. -/
def token (src : Text) (start : Nat) : Option Nat → Text
  | some stop => (src.drop start).take (stop - start + 1)
  | none => src.drop start

/-- The turns of `split_trim` from a position on, and what it adds behind the last delimiter. -/
def split_trim_from (src : Text) (delim : UInt8) (prev : Nat) (tokens : List Text) : List Text :=
  match _hpos : find_from (· == delim) src prev with
  | some pos =>
    match _hstart : find_first_not_of src prev with
    | some start =>
      -- The whole entry is white space.
      if pos ≤ start then split_trim_from src delim (start + 1) tokens
      else
        let stop := find_last_not_of (src.take pos)
        split_trim_from src delim (pos + 1) (tokens ++ [token src start stop])
    -- From `npos` on, nothing is found.
    | none => tokens
  | none =>
    match find_first_not_of src prev with
    | some start => tokens ++ [token src start (find_last_not_of src)]
    | none => tokens
termination_by src.length - prev
decreasing_by
  · have hstart := find_from_range _hstart
    omega
  · have hpos := find_from_range _hpos
    omega

/-! ## Its tokens -/

section

variable {src : Text} {delim : UInt8}

theorem split_trim_scan (src : Text) (delim : UInt8) :
    Scan whitespace delim src (split_trim_from src delim) id where
  blank_entry := by
    intro prev start pos tokens hpos hstart hle
    rw [split_trim_from]
    split
    · rename_i pos' hpos'
      obtain rfl := Option.some.inj (hpos.symm.trans hpos')
      split
      · rename_i start' hstart'
        obtain rfl := Option.some.inj (hstart.symm.trans hstart')
        rw [if_pos hle]
      · rename_i hnone
        exact absurd (hnone.symm.trans hstart) (by simp)
    · rename_i hnone
      exact absurd (hnone.symm.trans hpos) (by simp)
  entry := by
    intro prev start stop pos tokens hpos hstart hlt hstop _
    rw [split_trim_from]
    split
    · rename_i pos' hpos'
      obtain rfl := Option.some.inj (hpos.symm.trans hpos')
      split
      · rename_i start' hstart'
        obtain rfl := Option.some.inj (hstart.symm.trans hstart')
        rw [if_neg (Nat.not_le.mpr hlt), find_last_not_of, hstop]
        rfl
      · rename_i hnone
        exact absurd (hnone.symm.trans hstart) (by simp)
    · rename_i hnone
      exact absurd (hnone.symm.trans hpos) (by simp)
  last_entry := by
    intro prev start stop tokens hpos hstart hstop _
    rw [split_trim_from]
    split
    · rename_i hsome
      exact absurd (hsome.symm.trans hpos) (by simp)
    · rw [find_first_not_of, hstart, find_last_not_of, hstop]
      rfl
  last_blank := by
    intro prev tokens hpos hstart
    rw [split_trim_from]
    split
    · rename_i hsome
      exact absurd (hsome.symm.trans hpos) (by simp)
    · rw [find_first_not_of, hstart]
      rfl

/-- From the start on, the loop gives what `split_trim` is modelled as. -/
theorem split_trim_loop (hdelim : whitespace delim = false) (src : Text) :
    split_trim_from src delim 0 [] = split_trim src delim :=
  (split_trim_scan src delim).eq hdelim 0 (Nat.zero_le _) []

/-- Trimmed entries that are written behind delimiters and spaces are the tokens. -/
theorem split_trim_joined {α : Type} {a : Text} {f : α → Text} {es : List α}
    (hdelim : delim ≠ 32) (ha : delim ∉ a ∧ Trimmed a ∧ a ≠ [])
    (hes : ∀ e ∈ es, delim ∉ f e ∧ Trimmed (f e) ∧ f e ≠ []) :
    split_trim (a ++ es.flatMap (fun e => delim :: 32 :: f e)) delim = a :: es.map f := by
  have hjoined : ∀ e ∈ es, delim ∉ 32 :: f e := by
    intro e he
    rw [List.mem_cons, not_or]
    exact ⟨hdelim, (hes e he).1⟩
  have hrest : (es.map (fun e => 32 :: f e)).filterMap
      (fun entry => if entry.all whitespace then none else some (trim entry)) = es.map f := by
    rw [List.filterMap_map, ← List.filterMap_eq_map]
    apply List.filterMap_congr
    intro e he
    obtain ⟨-, htrimmed, hne⟩ := hes e he
    have hblank : ¬ (32 :: f e).all whitespace = true := by
      intro hall
      rw [List.all_cons, Bool.and_eq_true] at hall
      exact htrimmed.not_blank hne hall.2
    simp only [Function.comp_apply, if_neg hblank, trim_blank, trim_of_trimmed htrimmed]
  have hfirst : (if a.all whitespace then none else some (trim a)) = some a := by
    rw [if_neg (ha.2.1.not_blank ha.2.2), trim_of_trimmed ha.2.1]
  rw [split_trim, splitOn_joined ha.1 hjoined, List.filterMap_cons]
  simp only [hfirst, hrest]

end

end util.string
