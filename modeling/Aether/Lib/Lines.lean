-- Texts that are cut at the first place where two symbols stand together, such as
-- lines at their ends. Nothing here is about the proxy.
import Mathlib.Data.List.Basic
import Mathlib.Tactic.Common

namespace lib.lines

variable {α : Type} [DecidableEq α] {a b : α}

/-- What stands before the first `a b`, and after it. -/
def cut (a b : α) : List α → Option (List α × List α)
  | [] => none
  | [_] => none
  | x :: y :: rest =>
    if x = a ∧ y = b then some ([], rest)
    else (cut a b (y :: rest)).map (fun p => (x :: p.1, p.2))

theorem cut_cons_cons (x y : α) (rest : List α) : cut a b (x :: y :: rest) =
    if x = a ∧ y = b then some ([], rest)
    else (cut a b (y :: rest)).map (fun p => (x :: p.1, p.2)) := by
  rw [cut]

theorem eq_of_cut {l line rest : List α} (h : cut a b l = some (line, rest)) :
    l = line ++ a :: b :: rest := by
  induction l using cut.induct (a := a) (b := b) generalizing line with
  | case1 => cases h
  | case2 => cases h
  | case3 x y rest' hxy =>
    obtain ⟨rfl, rfl⟩ := hxy
    rw [cut_cons_cons, if_pos ⟨rfl, rfl⟩] at h
    cases h
    rfl
  | case4 x y rest' hxy ih =>
    rw [cut_cons_cons, if_neg hxy] at h
    obtain ⟨p, hp, he⟩ := Option.map_eq_some_iff.mp h
    cases he
    rw [ih hp]
    rfl

/-- What comes after the first end of a line does not matter to it. -/
theorem cut_append {l line rest : List α} (h : cut a b l = some (line, rest)) (m : List α) :
    cut a b (l ++ m) = some (line, rest ++ m) := by
  induction l using cut.induct (a := a) (b := b) generalizing line with
  | case1 => cases h
  | case2 => cases h
  | case3 x y rest' hxy =>
    rw [cut_cons_cons, if_pos hxy] at h
    cases h
    rw [List.cons_append, List.cons_append, cut_cons_cons, if_pos hxy]
  | case4 x y rest' hxy ih =>
    rw [cut_cons_cons, if_neg hxy] at h
    obtain ⟨p, hp, he⟩ := Option.map_eq_some_iff.mp h
    cases he
    have hnext := ih hp
    rw [List.cons_append] at hnext
    rw [List.cons_append, List.cons_append, cut_cons_cons, if_neg hxy, hnext]
    rfl

theorem cut_none_of_append {l m : List α} (h : cut a b (l ++ m) = none) : cut a b l = none := by
  by_contra hs
  obtain ⟨p, hp⟩ := Option.ne_none_iff_exists'.mp hs
  rw [cut_append hp] at h
  cases h

theorem cut_line {line : List α} (h : cut a b (line ++ [a]) = none) (rest : List α) :
    cut a b (line ++ a :: b :: rest) = some (line, rest) := by
  induction line with
  | nil => simp [cut_cons_cons]
  | cons x line ih =>
    cases line with
    | nil =>
      have hx : ¬ (x = a ∧ a = b) := by
        intro hx
        simp [cut_cons_cons, hx] at h
      simp [cut_cons_cons, hx]
    | cons y line =>
      rw [List.cons_append, List.cons_append, cut_cons_cons] at h
      split at h
      · cases h
      · rename_i hxy
        have hnext := ih (Option.map_eq_none_iff.mp h)
        rw [List.cons_append] at hnext
        rw [List.cons_append, List.cons_append, cut_cons_cons, if_neg hxy, hnext]
        rfl

/-- Nothing to cut at is an end of a line nowhere. -/
theorem cut_eq_none_iff {l : List α} : cut a b l = none ↔ ∀ p q, l ≠ p ++ a :: b :: q := by
  constructor
  · intro h p q hl
    rw [hl] at h
    have hcut : cut a b (a :: b :: q) = some ([], q) := by rw [cut_cons_cons, if_pos ⟨rfl, rfl⟩]
    clear hl
    induction p with
    | nil => rw [List.nil_append, hcut] at h; cases h
    | cons x p ih =>
      obtain ⟨y, t, ht⟩ : ∃ y t, p ++ a :: b :: q = y :: t := by
        cases p with
        | nil => exact ⟨a, b :: q, rfl⟩
        | cons y p => exact ⟨y, p ++ a :: b :: q, rfl⟩
      rw [List.cons_append, ht, cut_cons_cons] at h
      split at h
      · cases h
      · rw [← ht] at h
        exact ih (Option.map_eq_none_iff.mp h)
  · intro h
    by_contra hs
    obtain ⟨p, hp⟩ := Option.ne_none_iff_exists'.mp hs
    exact h p.1 p.2 (eq_of_cut hp)

theorem cut_none_of_notMem {l : List α} (h : b ∉ l) : cut a b l = none := by
  apply cut_eq_none_iff.mpr
  rintro p q rfl
  simp at h

/-- One more symbol ends no line, unless it is a `b` behind an `a`. -/
theorem cut_snoc_none {l : List α} (h : cut a b l = none) {x : α}
    (hx : x = b → l.getLast? ≠ some a) : cut a b (l ++ [x]) = none := by
  apply cut_eq_none_iff.mpr
  intro p q hl
  rcases List.eq_nil_or_concat q with rfl | ⟨q, z, rfl⟩
  · have hsplit : l ++ [x] = (p ++ [a]) ++ [b] := by simpa using hl
    obtain ⟨hlast, hxb⟩ := List.append_inj' hsplit rfl
    have hxb : x = b := by simpa using hxb
    apply hx hxb
    rw [hlast]
    simp
  · have hsplit : l ++ [x] = (p ++ a :: b :: q) ++ [z] := by simpa using hl
    exact cut_eq_none_iff.mp h p q (List.append_inj' hsplit rfl).1

theorem cut_append_none {l : List α} (h : cut a b l = none) {m : List α} (hm : b ∉ m) :
    cut a b (l ++ m) = none := by
  induction m generalizing l with
  | nil => simpa using h
  | cons x m ih =>
    obtain ⟨hx, hm⟩ := not_or.mp (List.mem_cons.not.mp hm)
    have hone : cut a b (l ++ [x]) = none := cut_snoc_none h (fun hxb => absurd hxb.symm hx)
    have hrest := ih hone hm
    rwa [List.append_assoc, List.singleton_append] at hrest

/-- Two texts of which the first does not end with an `a`. -/
theorem cut_append_of_last {l m : List α} (hl : cut a b l = none) (hm : cut a b m = none)
    (hlast : l.getLast? ≠ some a) : cut a b (l ++ m) = none := by
  apply cut_eq_none_iff.mpr
  intro p q h
  rcases List.append_eq_append_iff.mp h with ⟨t, rfl, rfl⟩ | ⟨t, rfl, ht⟩
  · exact cut_eq_none_iff.mp hm t q rfl
  · cases t with
    | nil =>
      rw [List.nil_append] at ht
      exact cut_eq_none_iff.mp hm [] q ht.symm
    | cons x t =>
      obtain ⟨hx, ht⟩ := List.cons.inj ht
      cases t with
      | nil => simp [← hx] at hlast
      | cons y t =>
        obtain ⟨hy, -⟩ := List.cons.inj ht
        rw [← hx, ← hy] at hl
        exact cut_eq_none_iff.mp hl p t rfl

theorem cut_none_of_infix {l m : List α} (h : cut a b l = none) (hm : m <:+: l) :
    cut a b m = none := by
  obtain ⟨u, v, rfl⟩ := hm
  apply cut_eq_none_iff.mpr
  rintro p q rfl
  exact cut_eq_none_iff.mp h (u ++ p) (q ++ v) (by simp)

/-- A line has no end of a line in it. -/
theorem line_of_cut {l line rest : List α} (h : cut a b l = some (line, rest)) :
    cut a b line = none := by
  induction l using cut.induct (a := a) (b := b) generalizing line with
  | case1 => cases h
  | case2 => cases h
  | case3 x y rest' hxy =>
    rw [cut_cons_cons, if_pos hxy] at h
    cases h
    rfl
  | case4 x y rest' hxy ih =>
    rw [cut_cons_cons, if_neg hxy] at h
    obtain ⟨p, hp, he⟩ := Option.map_eq_some_iff.mp h
    cases he
    have hnext := ih hp
    have heq := eq_of_cut hp
    obtain ⟨line, rest⟩ := p
    simp only at hnext heq ⊢
    cases line with
    | nil => rfl
    | cons z line =>
      obtain ⟨rfl, -⟩ := List.cons.inj heq
      rw [cut_cons_cons, if_neg hxy, hnext]
      rfl

/-- Such a line may stand before an end of a line. -/
theorem cut_end {line : List α} (h : cut a b line = none) (hab : a ≠ b) (rest : List α) :
    cut a b (line ++ a :: b :: rest) = some (line, rest) :=
  cut_line (cut_snoc_none h (fun hba => absurd hba hab)) rest

/-- The end of a line takes from what was added. -/
theorem length_of_cut_append {l m line rest : List α} (h : cut a b l = none)
    (hm : cut a b (l ++ m) = some (line, rest)) : rest.length < m.length := by
  have heq := eq_of_cut hm
  by_contra hlen
  have hle : m.length ≤ rest.length := Nat.le_of_not_lt hlen
  -- Else all of the end stands in what was there before.
  obtain ⟨k, rfl⟩ : ∃ k, rest = k ++ m := by
    have hsuffix : m <:+ line ++ a :: b :: rest := heq ▸ List.suffix_append l m
    have hsuffix' : rest <:+ line ++ a :: b :: rest := ⟨line ++ [a, b], by simp⟩
    obtain ⟨k, hk⟩ := List.suffix_of_suffix_length_le hsuffix hsuffix' hle
    exact ⟨k, hk.symm⟩
  have hl : l ++ m = (line ++ a :: b :: k) ++ m := by simpa using heq
  exact cut_eq_none_iff.mp h line k (List.append_cancel_right hl)

/-- The lines in front of the first empty one. -/
def linesBeforeEmpty (a b : α) (l : List α) : List (List α) :=
  match _ : cut a b l with
  | none => []
  | some (line, rest) => if line = [] then [] else line :: linesBeforeEmpty a b rest
termination_by l.length
decreasing_by
  rename_i h _
  rw [eq_of_cut h, List.length_append, List.length_cons]
  simp only [List.length_cons]
  omega

theorem linesBeforeEmpty_of_cut {l line rest : List α} (h : cut a b l = some (line, rest)) :
    linesBeforeEmpty a b l = if line = [] then [] else line :: linesBeforeEmpty a b rest := by
  rw [linesBeforeEmpty]
  split
  · rename_i hnone
    rw [h] at hnone
    cases hnone
  · rename_i line' rest' hsome
    obtain ⟨rfl, rfl⟩ := Prod.mk.inj (Option.some.inj (h.symm.trans hsome))
    rfl

end lib.lines
