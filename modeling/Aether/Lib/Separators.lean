-- Lists that are cut at each occurrence of a separator, which is itself a list, in a scan from
-- the left. Nothing here is about the proxy.
import Mathlib.Data.List.Infix
import Mathlib.Tactic.Common

namespace lib.separators

/-! ## Joined lists -/

section

variable {α : Type} {sep : List α}

theorem intercalate_cons {p : List α} {ps : List (List α)} (h : ps ≠ []) :
    sep.intercalate (p :: ps) = p ++ (sep ++ sep.intercalate ps) := by
  obtain ⟨q, qs, rfl⟩ := List.exists_cons_of_ne_nil h
  simp [List.intercalate, List.intersperse]

/-- Lists of the same lengths that are joined to the same are the same. -/
theorem intercalate_inj {ps qs : List (List α)} (hlen : ps.map List.length = qs.map List.length)
    (h : sep.intercalate ps = sep.intercalate qs) : ps = qs := by
  induction ps generalizing qs with
  | nil =>
    rw [List.map_nil, eq_comm, List.map_eq_nil_iff] at hlen
    rw [hlen]
  | cons p ps ih =>
    match qs, hlen with
    | q :: qs, hlen =>
      rw [List.map_cons, List.map_cons, List.cons.injEq] at hlen
      obtain ⟨hp, hps⟩ := hlen
      have hcount : ps.length = qs.length := by simpa using congrArg List.length hps
      by_cases hnil : ps = []
      · obtain rfl : qs = [] := List.length_eq_zero_iff.mp (by rw [← hcount, hnil]; rfl)
        subst hnil
        simpa [List.intercalate] using h
      · have hnil' : qs ≠ [] := by
          intro hq
          rw [hq, List.length_nil] at hcount
          exact hnil (List.length_eq_zero_iff.mp hcount)
        rw [intercalate_cons hnil, intercalate_cons hnil'] at h
        obtain ⟨rfl, htail⟩ := List.append_inj h hp
        rw [ih hps (List.append_cancel_left htail)]

end

/-! ## Lists within others -/

section

variable {α : Type} {sep l : List α}

/-- What is found in front of the end of a list is found in the list. -/
theorem prefix_drop_of_append {l' : List α} {j : Nat} (h : sep <+: (l ++ l').drop j)
    (hfits : j + sep.length ≤ l.length) : sep <+: l.drop j := by
  rw [List.drop_append_of_le_length (by omega)] at h
  refine List.prefix_of_prefix_length_le h (List.prefix_append _ _) ?_
  rw [List.length_drop]
  omega

/-- A list without the last element of the separator does not end one. -/
theorem not_infix_append {front w : List α} {x : α} (hnot : ¬ front ++ [x] <:+: l) (hx : x ∉ w) :
    ¬ front ++ [x] <:+: l ++ w := by
  induction w using List.reverseRecOn with
  | nil =>
    rw [List.append_nil]
    exact hnot
  | append_singleton w y ih =>
    rw [List.mem_append, not_or, List.mem_singleton] at hx
    rw [← List.append_assoc, List.infix_concat_iff, not_or]
    refine ⟨?_, ih hx.1⟩
    rw [List.suffix_concat_iff]
    rintro (hnil | ⟨t, ht, -⟩)
    · exact absurd hnil (by simp)
    · exact hx.2 (List.singleton_inj.mp (List.append_inj_right' ht rfl))

end

variable {α : Type} [DecidableEq α] {sep l : List α}

/-! ## The first occurrence -/

/-- Where `sep` is first found. -/
def firstAt (sep : List α) : List α → Option Nat
  | [] => if sep <+: [] then some 0 else none
  | x :: l => if sep <+: x :: l then some 0 else (firstAt sep l).map (· + 1)

/-- A position is the first one when `sep` is there, and at none before it. -/
theorem firstAt_eq_some_iff {i : Nat} :
    firstAt sep l = some i ↔ sep <+: l.drop i ∧ i ≤ l.length ∧ ∀ j < i, ¬ sep <+: l.drop j := by
  induction l generalizing i with
  | nil =>
    rw [firstAt]
    split
    · rename_i h
      constructor
      · intro hi
        obtain rfl := Option.some.inj hi
        exact ⟨h, Nat.le_refl 0, fun j hj => absurd hj (Nat.not_lt_zero j)⟩
      · rintro ⟨-, hi, -⟩
        rw [List.length_nil, Nat.le_zero] at hi
        rw [hi]
    · rename_i h
      simp [h]
  | cons x l ih =>
    rw [firstAt]
    split
    · rename_i h
      constructor
      · intro hi
        obtain rfl := Option.some.inj hi
        exact ⟨h, Nat.zero_le _, fun j hj => absurd hj (Nat.not_lt_zero j)⟩
      · rintro ⟨-, -, hbefore⟩
        rcases Nat.eq_zero_or_pos i with rfl | hi
        · rfl
        · exact absurd h (hbefore 0 hi)
    · rename_i h
      rw [Option.map_eq_some_iff]
      constructor
      · rintro ⟨k, hk, rfl⟩
        obtain ⟨hat, hle, hbefore⟩ := ih.mp hk
        refine ⟨hat, Nat.succ_le_succ hle, ?_⟩
        intro j hj
        cases j with
        | zero => exact h
        | succ j => exact hbefore j (Nat.lt_of_succ_lt_succ hj)
      · rintro ⟨hat, hle, hbefore⟩
        cases i with
        | zero => exact absurd hat h
        | succ i =>
          refine ⟨i, ih.mpr ⟨hat, Nat.le_of_succ_le_succ hle, ?_⟩, rfl⟩
          intro j hj
          exact hbefore (j + 1) (Nat.succ_lt_succ hj)

theorem firstAt_eq_none_iff : firstAt sep l = none ↔ ¬ sep <:+: l := by
  induction l with
  | nil =>
    rw [firstAt, List.infix_nil, ← List.prefix_nil]
    split <;> simp [*]
  | cons x l ih =>
    rw [firstAt, List.infix_cons_iff, not_or, ← ih]
    split <;> simp [*]

theorem exists_firstAt (h : sep <:+: l) : ∃ i, firstAt sep l = some i :=
  Option.ne_none_iff_exists'.mp fun hnone => firstAt_eq_none_iff.mp hnone h

/-- The list up to the first occurrence, and behind it. -/
theorem firstAt_parts {i : Nat} (h : firstAt sep l = some i) :
    l = l.take i ++ (sep ++ l.drop (i + sep.length)) ∧ i + sep.length ≤ l.length := by
  obtain ⟨⟨rest, hrest⟩, hle, -⟩ := firstAt_eq_some_iff.mp h
  have hdrop : l.drop (i + sep.length) = rest := by
    rw [← List.drop_drop, ← hrest, List.drop_left]
  refine ⟨by rw [hdrop, hrest, List.take_append_drop], ?_⟩
  have hlength := congrArg List.length hrest
  rw [List.length_append, List.length_drop] at hlength
  omega

/-- There is none within what is in front of the first one. -/
theorem not_infix_take {i : Nat} (hsep : sep ≠ []) (h : firstAt sep l = some i) :
    ¬ sep <:+: l.take i := by
  rintro ⟨p, q, hpq⟩
  obtain ⟨-, hle, hbefore⟩ := firstAt_eq_some_iff.mp h
  have hlength := congrArg List.length hpq
  rw [List.length_append, List.length_append, List.length_take, Nat.min_eq_left hle] at hlength
  have hpos := List.length_pos_iff.mpr hsep
  refine hbefore p.length (by omega) ⟨q ++ l.drop i, ?_⟩
  rw [← List.append_assoc]
  have hl : p ++ (sep ++ q ++ l.drop i) = l := by
    rw [← List.append_assoc, ← List.append_assoc, hpq, List.take_append_drop]
  calc sep ++ q ++ l.drop i = (p ++ (sep ++ q ++ l.drop i)).drop p.length := by rw [List.drop_left]
    _ = l.drop p.length := by rw [hl]

/-- A list that goes on does not change where the separator is first found. -/
theorem firstAt_append {i : Nat} (h : firstAt sep l = some i) (l' : List α) :
    firstAt sep (l ++ l') = some i := by
  obtain ⟨hat, hle, hbefore⟩ := firstAt_eq_some_iff.mp h
  have hfits := (firstAt_parts h).2
  refine firstAt_eq_some_iff.mpr ⟨?_, by rw [List.length_append]; omega, ?_⟩
  · rw [List.drop_append_of_le_length hle]
    exact hat.trans (List.prefix_append _ _)
  · intro j hj hfound
    exact hbefore j hj (prefix_drop_of_append hfound (by omega))

/-- A separator that ends with the next element, and was not there before, is found there. -/
theorem firstAt_concat {x : α} (hnot : ¬ sep <:+: l) (hends : sep <:+ l ++ [x]) (rest : List α) :
    firstAt sep (l ++ x :: rest) = some (l.length + 1 - sep.length) := by
  obtain ⟨p, hp⟩ := hends
  have hlength := congrArg List.length hp
  rw [List.length_append, List.length_append, List.length_singleton] at hlength
  have hwhole : l ++ x :: rest = p ++ (sep ++ rest) := by
    rw [← List.append_assoc, hp, List.append_assoc]
    rfl
  have hi : l.length + 1 - sep.length = p.length := by omega
  rw [hi]
  refine firstAt_eq_some_iff.mpr ⟨?_, ?_, ?_⟩
  · rw [hwhole, List.drop_left]
    exact List.prefix_append _ _
  · rw [hwhole, List.length_append]
    omega
  · intro j hj hfound
    have hin := prefix_drop_of_append hfound (by omega)
    exact hnot (hin.isInfix.trans (List.drop_suffix j l).isInfix)

/-- A separator of one element is found where the element is. -/
theorem firstAt_singleton (x : α) (l : List α) :
    firstAt [x] l = l.findIdx? (fun y => y == x) := by
  induction l with
  | nil => rfl
  | cons y l ih =>
    rw [firstAt, List.findIdx?_cons, ih]
    have hiff : [x] <+: y :: l ↔ (y == x) = true := by
      rw [List.cons_prefix_cons, beq_iff_eq, eq_comm]
      simp
    by_cases h : [x] <+: y :: l
    · rw [if_pos h, if_pos (hiff.mp h)]
    · rw [if_neg h, if_neg (fun hx => h (hiff.mpr hx))]

/-! ## The pieces -/

/-- The pieces between the occurrences of `sep`. -/
def pieces (sep l : List α) : List (List α) :=
  if _hsep : sep = [] then [l] else
    match _h : firstAt sep l with
    | some i => l.take i :: pieces sep (l.drop (i + sep.length))
    | none => [l]
termination_by l.length
decreasing_by
  have hparts := firstAt_parts _h
  have hpos := List.length_pos_iff.mpr _hsep
  rw [List.length_drop]
  omega

theorem pieces_of_none (h : firstAt sep l = none) : pieces sep l = [l] := by
  rw [pieces]
  split
  · rfl
  · split
    · rename_i hsome
      rw [h] at hsome
      cases hsome
    · rfl

theorem pieces_of_some {i : Nat} (hsep : sep ≠ []) (h : firstAt sep l = some i) :
    pieces sep l = l.take i :: pieces sep (l.drop (i + sep.length)) := by
  rw [pieces, dif_neg hsep]
  split
  · rename_i hsome
    rw [h] at hsome
    obtain rfl := Option.some.inj hsome
    rfl
  · rename_i hnone
    rw [h] at hnone
    cases hnone

/-- What holds of a list without `sep`, and of a list if it does behind the first `sep`, holds of
all lists. -/
@[elab_as_elim]
theorem pieces_induction {motive : List α → Prop} (hsep : sep ≠ [])
    (last : ∀ l, firstAt sep l = none → motive l)
    (next : ∀ l i, firstAt sep l = some i → motive (l.drop (i + sep.length)) → motive l)
    (l : List α) : motive l := by
  induction hlength : l.length using Nat.strongRecOn generalizing l with
  | ind length ih =>
    cases h : firstAt sep l with
    | none => exact last l h
    | some i =>
      have hparts := firstAt_parts h
      have hpos := List.length_pos_iff.mpr hsep
      refine next l i h (ih (l.drop (i + sep.length)).length ?_ _ rfl)
      rw [List.length_drop]
      omega

theorem pieces_ne_nil (sep l : List α) : pieces sep l ≠ [] := by
  rw [pieces]
  split
  · exact List.cons_ne_nil _ _
  · split <;> exact List.cons_ne_nil _ _

/-- No piece has the separator in it. -/
theorem not_infix_of_mem_pieces (hsep : sep ≠ []) : ∀ p ∈ pieces sep l, ¬ sep <:+: p := by
  induction l using pieces_induction hsep with
  | last l h =>
    rw [pieces_of_none h]
    intro p hp
    rw [List.mem_singleton.mp hp]
    exact firstAt_eq_none_iff.mp h
  | next l i h ih =>
    rw [pieces_of_some hsep h]
    intro p hp
    rcases List.mem_cons.mp hp with rfl | hp
    · exact not_infix_take hsep h
    · exact ih p hp

theorem length_le_of_mem_pieces (hsep : sep ≠ []) : ∀ p ∈ pieces sep l, p.length ≤ l.length := by
  induction l using pieces_induction hsep with
  | last l h =>
    rw [pieces_of_none h]
    intro p hp
    rw [List.mem_singleton.mp hp]
  | next l i h ih =>
    rw [pieces_of_some hsep h]
    intro p hp
    rcases List.mem_cons.mp hp with rfl | hp
    · exact List.length_take_le' i l
    · have hle := ih p hp
      rw [List.length_drop] at hle
      omega

theorem length_pieces_le (hsep : sep ≠ []) : (pieces sep l).length ≤ l.length + 1 := by
  induction l using pieces_induction hsep with
  | last l h =>
    rw [pieces_of_none h, List.length_singleton]
    omega
  | next l i h ih =>
    have hparts := firstAt_parts h
    have hpos := List.length_pos_iff.mpr hsep
    rw [pieces_of_some hsep h, List.length_cons]
    rw [List.length_drop] at ih
    omega

/-- The first piece is what the list starts with. -/
theorem head_pieces_prefix (hsep : sep ≠ []) : ∀ p ∈ (pieces sep l).head?, p <+: l := by
  intro p hp
  cases h : firstAt sep l with
  | none =>
    rw [pieces_of_none h, List.head?_cons, Option.mem_some_iff] at hp
    exact hp ▸ List.prefix_refl l
  | some i =>
    rw [pieces_of_some hsep h, List.head?_cons, Option.mem_some_iff] at hp
    exact hp ▸ List.take_prefix i l

/-- The pieces are joined to the list. -/
theorem intercalate_pieces (hsep : sep ≠ []) (l : List α) : sep.intercalate (pieces sep l) = l := by
  induction l using pieces_induction hsep with
  | last l h =>
    rw [pieces_of_none h]
    simp [List.intercalate]
  | next l i h ih =>
    rw [pieces_of_some hsep h, intercalate_cons (pieces_ne_nil _ _), ih]
    exact (firstAt_parts h).1.symm

end lib.separators
