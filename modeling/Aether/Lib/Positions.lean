-- Searches in a list from a position, and the induction of a loop that goes from
-- one separator to the next.
import Mathlib.Data.List.TakeWhile

namespace lib.positions

variable {α : Type} {p : α → Bool} {l a b : List α} {x : α} {pos i : Nat}

/-! ## The first position -/

/-- The first position, from one on, at which `p` holds. -/
def find_from (p : α → Bool) (l : List α) (pos : Nat) : Option Nat :=
  ((l.drop pos).findIdx? p).map (pos + ·)

theorem find_from_of_drop (h : l.drop pos = a ++ x :: b) (hx : p x = true)
    (ha : ∀ y ∈ a, p y = false) : find_from p l pos = some (pos + a.length) := by
  have hnone : a.findIdx? p = none := List.findIdx?_eq_none_iff.mpr ha
  rw [find_from, h, List.findIdx?_append, hnone, List.findIdx?_cons, hx]
  simp

theorem find_from_of_none (h : ∀ y ∈ l.drop pos, p y = false) : find_from p l pos = none := by
  have hnone : (l.drop pos).findIdx? p = none := List.findIdx?_eq_none_iff.mpr h
  rw [find_from, hnone, Option.map_none]

section

variable [BEq α] [LawfulBEq α]

/-- What is found is the first separator. -/
theorem find_separator (h : l.drop pos = a ++ x :: b) (ha : x ∉ a) :
    find_from (· == x) l pos = some (pos + a.length) := by
  refine find_from_of_drop h (beq_self_eq_true x) ?_
  intro y hy
  exact beq_eq_false_iff_ne.mpr (ne_of_mem_of_not_mem hy ha)

theorem find_no_separator (h : x ∉ l.drop pos) : find_from (· == x) l pos = none := by
  refine find_from_of_none ?_
  intro y hy
  exact beq_eq_false_iff_ne.mpr (ne_of_mem_of_not_mem hy h)

end

theorem find_from_range (h : find_from p l pos = some i) : pos ≤ i ∧ i < l.length := by
  obtain ⟨k, hk, rfl⟩ := Option.map_eq_some_iff.mp h
  obtain ⟨hlt, -⟩ := List.findIdx?_eq_some_iff_getElem.mp hk
  rw [List.length_drop] at hlt
  omega

/-! ## The last position -/

/-- The last position at which `p` holds. -/
def find_last (p : α → Bool) (l : List α) : Option Nat :=
  (l.reverse.findIdx? p).map (fun k => l.length - (k + 1))

theorem find_last_of_append (hx : p x = true) (hb : ∀ y ∈ b, p y = false) :
    find_last p (a ++ x :: b) = some a.length := by
  have hnone : b.reverse.findIdx? p = none := by
    apply List.findIdx?_eq_none_iff.mpr
    intro y hy
    exact hb y (List.mem_reverse.mp hy)
  rw [find_last, List.reverse_append, List.reverse_cons, List.append_assoc, List.findIdx?_append,
    hnone, List.singleton_append, List.findIdx?_cons, hx]
  simp

/-! ## Separators -/

theorem lt_of_drop (h : l.drop pos = a ++ x :: b) : pos + a.length < l.length := by
  have hlength := congrArg List.length h
  rw [List.length_drop, List.length_append, List.length_cons] at hlength
  omega

theorem drop_after (h : l.drop pos = a ++ x :: b) : l.drop (pos + a.length + 1) = b := by
  rw [Nat.add_assoc, ← List.drop_drop, h, List.drop_append]
  simp

section

variable [BEq α] [LawfulBEq α]

/-- What is before the first separator. -/
theorem takeWhile_of_append (h : x ∉ a) (b : List α) : (a ++ x :: b).takeWhile (· != x) = a := by
  have hall : ∀ y ∈ a, (y != x) = true := fun y hy => bne_iff_ne.mpr (ne_of_mem_of_not_mem hy h)
  rw [List.takeWhile_append_of_pos hall, List.takeWhile_cons_of_neg (by simp), List.append_nil]

theorem takeWhile_of_notMem (h : x ∉ l) : l.takeWhile (· != x) = l :=
  List.takeWhile_eq_self_iff.mpr (fun _ hy => bne_iff_ne.mpr (ne_of_mem_of_not_mem hy h))

/-- The first separator and what is behind it. -/
theorem dropWhile_of_append (h : x ∉ a) (b : List α) :
    (a ++ x :: b).dropWhile (· != x) = x :: b := by
  have hall : ∀ y ∈ a, (y != x) = true := fun y hy => bne_iff_ne.mpr (ne_of_mem_of_not_mem hy h)
  rw [List.dropWhile_append_of_pos hall, List.dropWhile_cons_of_neg (by simp)]

end

/-- What holds of a last entry, and of an entry in front of what it holds of, holds of all lists. -/
@[elab_as_elim]
theorem split_induction {motive : List α → Prop} (sep : α)
    (last : ∀ a, sep ∉ a → motive a)
    (next : ∀ a b, sep ∉ a → motive b → motive (a ++ sep :: b)) (l : List α) : motive l := by
  induction hlength : l.length using Nat.strongRecOn generalizing l with
  | ind length ih =>
    by_cases hsep : sep ∈ l
    · obtain ⟨a, b, rfl, ha⟩ := List.eq_append_cons_of_mem hsep
      rw [List.length_append, List.length_cons] at hlength
      exact next a b ha (ih b.length (by omega) b rfl)
    · exact last l hsep

/-- What holds at the last entry, and at an entry if it does behind its separator, holds at any
position. -/
@[elab_as_elim]
theorem separator_induction {motive : Nat → Prop} (sep : α) (l : List α)
    (last : ∀ pos, pos ≤ l.length → sep ∉ l.drop pos → motive pos)
    (next : ∀ pos a b, l.drop pos = a ++ sep :: b → sep ∉ a → motive (pos + a.length + 1) →
      motive pos)
    (pos : Nat) (hpos : pos ≤ l.length) : motive pos := by
  have hall : ∀ rest pos, pos ≤ l.length → l.drop pos = rest → motive pos := by
    intro rest
    induction rest using split_induction sep with
    | last a ha =>
      intro pos hpos hdrop
      exact last pos hpos (hdrop ▸ ha)
    | next a b ha ih =>
      intro pos hpos hdrop
      exact next pos a b hdrop ha (ih _ (lt_of_drop hdrop) (drop_after hdrop))
  exact hall _ pos hpos rfl

section

variable [BEq α] [LawfulBEq α]

theorem mem_splitOn {sep : α} {e : List α} (h : e ∈ l.splitOn sep) : sep ∉ e ∧ e ⊆ l := by
  induction l using split_induction sep with
  | last a ha =>
    rw [List.splitOn_eq_singleton ha, List.mem_singleton] at h
    subst h
    exact ⟨ha, fun _ hx => hx⟩
  | next a b ha ih =>
    rw [List.splitOn_append_cons_self_of_not_mem ha, List.mem_cons] at h
    rcases h with rfl | h
    · exact ⟨ha, List.subset_append_left _ _⟩
    · have hb : e ⊆ sep :: b := fun x hx => List.mem_cons_of_mem sep ((ih h).2 hx)
      exact ⟨(ih h).1, fun x hx => List.mem_append_right a (hb hx)⟩

/-- Entries that are written behind separators are what the text is split into. -/
theorem splitOn_joined {β : Type} {sep : α} {f : β → List α} {es : List β}
    (ha : sep ∉ a) (hes : ∀ e ∈ es, sep ∉ f e) :
    (a ++ es.flatMap (fun e => sep :: f e)).splitOn sep = a :: es.map f := by
  induction es generalizing a with
  | nil => rw [List.flatMap_nil, List.append_nil, List.splitOn_eq_singleton ha, List.map_nil]
  | cons e es ih =>
    rw [List.flatMap_cons, List.cons_append, List.splitOn_append_cons_self_of_not_mem ha,
      ih (hes e List.mem_cons_self) (fun e' he' => hes e' (List.mem_cons_of_mem e he')),
      List.map_cons]

end

end lib.positions
