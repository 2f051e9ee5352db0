-- Where the searches of `url.cpp` stop, and what its reads give, in a text whose
-- parts are known.
import Aether.Http.Url
import Aether.Lib.Positions

open util.string lib.positions

namespace proxy.http

variable {src a b rest cs : Text} {c d : UInt8} {pos i : Nat}

/-! ## Searches -/

theorem find_of_drop (h : src.drop pos = a ++ c :: b) (hno : c ∉ a) :
    find src c pos = some (pos + a.length) := find_separator h hno

theorem find_of_notMem (h : c ∉ src.drop pos) : find src c pos = none := find_no_separator h

/-- A search from the start. -/
theorem find_cut (h : c ∉ a) : find (a ++ c :: rest) c 0 = some a.length := by
  have hfind : find (a ++ c :: rest) c 0 = some (0 + a.length) := find_of_drop rfl h
  rwa [Nat.zero_add] at hfind

theorem find_range (h : find src c pos = some i) : pos ≤ i ∧ i < src.length := find_from_range h

theorem find_first_of_of_drop (h : src.drop pos = a ++ c :: b) (hc : c ∈ cs)
    (hno : ∀ d ∈ a, d ∉ cs) : find_first_of src cs pos = some (pos + a.length) :=
  find_from_of_drop h (by simpa using hc) (by simpa using hno)

theorem find_first_of_of_notMem (h : ∀ d ∈ src.drop pos, d ∉ cs) :
    find_first_of src cs pos = none :=
  find_from_of_none (by simpa using h)

theorem find_first_of_range (h : find_first_of src cs pos = some i) : pos ≤ i ∧ i < src.length :=
  find_from_range h

/-! ## Parts -/

theorem substring_from_of_drop (h : src.drop pos = rest) (hpos : pos ≤ src.length) :
    substring_from src pos = .ok rest := by
  rw [substring_from, if_pos hpos, h]

theorem substring_of_drop (h : src.drop pos = a ++ b) (hpos : pos ≤ src.length) :
    substring src pos (some (pos + a.length)) = .ok a := by
  simp [substring, substring_from_of_drop h hpos, Except.map]

/-- A part that begins in the text is one, wherever it ends. -/
theorem substring_ok {start : Nat} (h : start ≤ src.length) (stop : Option Nat) :
    ∃ part, substring src start stop = .ok part := by
  have hfrom : substring_from src start = .ok (src.drop start) := substring_from_of_drop rfl h
  cases stop with
  | none => exact ⟨_, hfrom⟩
  | some stop => exact ⟨_, by rw [substring, hfrom]; rfl⟩

/-! ## Characters -/

theorem char_at_of_drop (h : src.drop pos = c :: rest) : char_at src pos = .ok c := by
  have hat : src[pos]? = some c := by rw [← List.head?_drop, h, List.head?_cons]
  rw [char_at, hat]

theorem char_at_of_end (h : src.drop pos = []) : char_at src pos = .error .undefined := by
  have hat : src[pos]? = none := by rw [← List.head?_drop, h, List.head?_nil]
  rw [char_at, hat]

theorem drop_succ_of_drop (h : src.drop pos = c :: rest) : src.drop (pos + 1) = rest := by
  rw [← List.drop_drop, h, List.drop_one, List.tail_cons]

theorem two_slashes_of_other (h : src.drop pos = c :: rest) (hc : c ≠ slash) :
    two_slashes src pos = .ok false := by
  simp [two_slashes, char_at_of_drop h, bind, Except.bind, pure, Except.pure, hc]

theorem two_slashes_of_two (h : src.drop pos = slash :: d :: rest) :
    two_slashes src pos = .ok (decide (d = slash)) := by
  simp [two_slashes, char_at_of_drop h, char_at_of_drop (drop_succ_of_drop h), bind, Except.bind,
    pure, Except.pure]

theorem two_slashes_of_last (h : src.drop pos = [slash]) :
    two_slashes src pos = .error .undefined := by
  simp [two_slashes, char_at_of_drop h, char_at_of_end (drop_succ_of_drop h), bind, Except.bind]

theorem two_slashes_of_end (h : src.drop pos = []) :
    two_slashes src pos = .error .undefined := by
  simp [two_slashes, char_at_of_end h, bind, Except.bind]

end proxy.http
