-- `split_trim` of `util/string.hpp` with any white space, and with the exception that `substr`
-- throws at a position behind the end.
import Aether.Error
import Aether.Util.SplitTrim

open lib.positions lib.trimmed_entries proxy

namespace util.string

/-- A call with a set of white space. -/
structure SplitTrim where
  src : Text
  delim : UInt8
  whitespace : Text
  deriving DecidableEq, Repr

namespace SplitTrim

/-- `std::string_view::substr`, which throws `out_of_range`. -/
def substr (src : Text) (pos count : Nat) : Except Error Text :=
  if pos ≤ src.length then .ok ((src.drop pos).take count) else .error .terminated

/-- `find_first_not_of(whitespace, pos)`. -/
def find_first_not_of (call : SplitTrim) (pos : Nat) : Option Nat :=
  find_from (fun c => !call.whitespace.contains c) call.src pos

/-- `find_last_not_of(whitespace, pos)`, from the end for `npos`. -/
def find_last_not_of (call : SplitTrim) (pos : Option Nat) : Option Nat :=
  find_last (fun c => !call.whitespace.contains c)
    (match pos with
      | some pos => call.src.take (pos + 1)
      | none => call.src)

/-- `pos - 1`, which is `npos` for 0. -/
def before (pos : Nat) : Option Nat := if pos = 0 then none else some (pos - 1)

/-- `src.substr(begin, end - begin + 1)`. An `end` in front of `begin` wraps around. -/
def entry (call : SplitTrim) (start : Nat) (stop : Option Nat) : Except Error Text :=
  let stop := stop.getD (2 ^ 64 - 1)
  let count := if start ≤ stop then stop - start + 1 else (2 ^ 64 - (start - stop) + 1) % 2 ^ 64
  substr call.src start count

/-- The turns of the loop from a position on, and what is pushed behind the last delimiter. Each
turn goes on behind the position of the one before it, so there is a last one. -/
def turns (call : SplitTrim) (prev : Nat) (tokens : List Text) : Except Error (List Text) :=
  match _hpos : find_from (fun c => c == call.delim) call.src prev with
  | some pos =>
    match _hstart : call.find_first_not_of prev with
    | some start =>
      -- The whole entry is whitespace.
      if pos ≤ start then call.turns (start + 1) tokens
      else
        match call.entry start (call.find_last_not_of (before pos)) with
        | .ok token => call.turns (pos + 1) (tokens ++ [token])
        | .error e => .error e
    -- With `prev` at `npos`, neither a delimiter nor an entry is found.
    | none => .ok tokens
  | none =>
    match call.find_first_not_of prev with
    | some start =>
      match call.entry start (call.find_last_not_of none) with
      | .ok token => .ok (tokens ++ [token])
      | .error e => .error e
    | none => .ok tokens
termination_by call.src.length - prev
decreasing_by
  · have hstart := find_from_range _hstart
    omega
  · have hpos := find_from_range _hpos
    omega

/-- `split_trim(src, delim, whitespace)`. -/
def run (call : SplitTrim) : Except Error (List Text) := call.turns 0 []

/-! ## The searches and the calls of `substr` -/

variable {call : SplitTrim} {prev pos start stop : Nat} {tokens : List Text}

/-- Up to the position before one, it is searched in what is in front of the one. -/
theorem find_last_not_of_before (h : 0 < pos) : call.find_last_not_of (before pos) =
    find_last (fun c => !call.whitespace.contains c) (call.src.take pos) := by
  have hpos : pos - 1 + 1 = pos := Nat.sub_add_cancel h
  simp only [find_last_not_of, before, if_neg (Nat.ne_of_gt h), hpos]

/-- An entry that starts in the string and does not end before it starts is taken out of it. -/
theorem entry_ok (hstart : start < call.src.length) (hle : start ≤ stop) :
    call.entry start (some stop) = .ok ((call.src.drop start).take (stop - start + 1)) := by
  simp only [entry, Option.getD_some, if_pos hle, substr, if_pos (Nat.le_of_lt hstart)]

theorem turns_of_some (hpos : find_from (fun c => c == call.delim) call.src prev = some pos)
    (hstart : call.find_first_not_of prev = some start) :
    call.turns prev tokens =
      if pos ≤ start then call.turns (start + 1) tokens
      else
        match call.entry start (call.find_last_not_of (before pos)) with
        | .ok token => call.turns (pos + 1) (tokens ++ [token])
        | .error e => .error e := by
  conv => lhs; rw [turns]
  split
  · rename_i pos' hpos'
    obtain rfl := Option.some.inj (hpos.symm.trans hpos')
    split
    · rename_i start' hstart'
      obtain rfl := Option.some.inj (hstart.symm.trans hstart')
      rfl
    · rename_i hnone
      exact absurd (hnone.symm.trans hstart) (by simp)
  · rename_i hnone
    exact absurd (hnone.symm.trans hpos) (by simp)

theorem turns_of_none (hpos : find_from (fun c => c == call.delim) call.src prev = none) :
    call.turns prev tokens =
      match call.find_first_not_of prev with
      | some start =>
        match call.entry start (call.find_last_not_of none) with
        | .ok token => .ok (tokens ++ [token])
        | .error e => .error e
      | none => .ok tokens := by
  rw [turns]
  split
  · rename_i hsome
    exact absurd (hsome.symm.trans hpos) (by simp)
  · rfl

/-- The turns are those of a scan, and no call of `substr` throws. -/
theorem turns_scan (call : SplitTrim) :
    Scan call.whitespace.contains call.delim call.src call.turns Except.ok where
  blank_entry := by
    intro prev start pos tokens hpos hstart hle
    rw [turns_of_some hpos hstart, if_pos hle]
  entry := by
    intro prev start stop pos tokens hpos hstart hlt hstop hle
    have hbound := find_from_range hstart
    rw [turns_of_some hpos hstart, if_neg (Nat.not_le.mpr hlt),
      find_last_not_of_before (Nat.lt_of_le_of_lt (Nat.zero_le start) hlt), hstop,
      entry_ok hbound.2 hle]
  last_entry := by
    intro prev start stop tokens hpos hstart hstop hle
    have hbound := find_from_range hstart
    have hfirst : call.find_first_not_of prev = some start := hstart
    have hlast : call.find_last_not_of none = some stop := hstop
    rw [turns_of_none hpos, hfirst]
    simp only [hlast, entry_ok hbound.2 hle]
  last_blank := by
    intro prev tokens hpos hstart
    have hfirst : call.find_first_not_of prev = none := hstart
    rw [turns_of_none hpos, hfirst]

/-- With a delimiter that is no white space, the entries between the delimiters are returned in
order, each without the white space at its ends, and without those that are all white space. -/
theorem run_eq_entries (call : SplitTrim) (h : call.delim ∉ call.whitespace) :
    call.run = .ok (trimmedEntries call.whitespace.contains call.delim call.src) := by
  have hdelim : call.whitespace.contains call.delim = false := by simpa using h
  exact (turns_scan call).eq hdelim 0 (Nat.zero_le _) []

/-- With the white space of the default, that is the `split_trim` of the header tokens. -/
theorem run_default {delim : UInt8} (hdelim : string.whitespace delim = false) (src : Text) :
    (⟨src, delim, text " \t"⟩ : SplitTrim).run = .ok (string.split_trim src delim) := by
  have hdefault : text " \t" = [32, 9] := by decide
  have hset : List.contains (text " \t") = string.whitespace := by
    funext c
    rw [hdefault]
    simp only [List.contains_cons, List.contains_nil, Bool.or_false, string.whitespace]
  have hscan := turns_scan ⟨src, delim, text " \t"⟩
  rw [hset] at hscan
  exact hscan.eq hdelim 0 (Nat.zero_le _) []

theorem run_eq_entries_spaces :
    (44 ∉ text " \t") ∧ (⟨text " a, ,\tb c ,", 44, text " \t"⟩ : SplitTrim).run =
      .ok (trimmedEntries (text " \t").contains 44 (text " a, ,\tb c ,")) :=
  ⟨by decide, run_eq_entries ⟨text " a, ,\tb c ,", 44, text " \t"⟩ (by decide)⟩

example : trimmedEntries (text " \t").contains 44 (text " a, ,\tb c ,") =
    [text "a", text "b c"] := by decide

end SplitTrim

end util.string
