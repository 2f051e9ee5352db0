-- The trimmed entries between separators, and the turns of a scan by positions that gives
-- them. Nothing here is about the proxy.
import Mathlib.Data.List.DropRight
import Aether.Lib.Positions

open lib.positions

namespace lib.trimmed_entries

variable {α : Type}

/-! ## Trimming -/

/-- A list without what `blank` holds of at its ends. -/
def trimBy (blank : α → Bool) (l : List α) : List α := (l.dropWhile blank).rdropWhile blank

variable {blank : α → Bool} {l a rest : List α} {pos : Nat}

/-- A list is what is trimmed and the blanks around it. -/
theorem trimBy_parts (blank : α → Bool) (l : List α) : ∃ w w', l = w ++ trimBy blank l ++ w' ∧
    (∀ c ∈ w, blank c = true) ∧ ∀ c ∈ w', blank c = true := by
  refine ⟨l.takeWhile blank, (l.dropWhile blank).rtakeWhile blank, ?_,
    fun c hc => List.mem_takeWhile_imp hc, fun c hc => List.mem_rtakeWhile_imp hc⟩
  rw [trimBy, List.append_assoc, List.rdropWhile_append_rtakeWhile,
    List.takeWhile_append_dropWhile]

/-- The first and the last element of a trimmed list, which may be the same, are no blanks. -/
theorem trimBy_ends (h : a.all blank = false) :
    ∃ c m f d, trimBy blank a = c :: m ∧ trimBy blank a = f ++ [d] ∧ blank c = false ∧
      blank d = false := by
  obtain ⟨x, hx, hxb⟩ := List.all_eq_false.mp h
  have hfront : a.dropWhile blank ≠ [] := by
    intro hnil
    exact hxb (List.dropWhile_eq_nil_iff.mp hnil x hx)
  have hne : trimBy blank a ≠ [] := by
    intro hnil
    have hall := List.rdropWhile_eq_nil_iff.mp hnil
    have hhead := List.head_dropWhile_not blank hfront
    rw [hall _ (List.head_mem hfront)] at hhead
    cases hhead
  obtain ⟨c, m, hfirst⟩ := List.exists_cons_of_ne_nil hne
  obtain ⟨f, d, hlast⟩ := (List.eq_nil_or_concat' (trimBy blank a)).resolve_left hne
  refine ⟨c, m, f, d, hfirst, hlast, ?_, ?_⟩
  · obtain ⟨t, ht⟩ := List.rdropWhile_prefix blank (a.dropWhile blank)
    have hhead := List.head_dropWhile_not blank hfront
    have hcons : a.dropWhile blank = c :: (m ++ t) := by
      rw [← ht]
      show trimBy blank a ++ t = _
      rw [hfirst]
      rfl
    simpa only [hcons, List.head_cons] using hhead
  · have hback := List.rdropWhile_last_not blank (a.dropWhile blank) hne
    have hd : ((a.dropWhile blank).rdropWhile blank).getLast hne = d := by
      have hget : (trimBy blank a).getLast hne = d := by simp only [hlast, List.getLast_concat]
      exact hget
    rw [hd] at hback
    simpa using hback

/-! ## The searches in an entry -/

/-- In an entry that is not all blank, the first and the last element that is no blank bound what
is trimmed. -/
theorem search_entry (hpos : pos ≤ l.length) (hdrop : l.drop pos = a ++ rest)
    (h : a.all blank = false) :
    ∃ start stop, find_from (fun c => !blank c) l pos = some start ∧
      find_last (fun c => !blank c) (l.take (pos + a.length)) = some stop ∧
      start ≤ stop ∧ stop < pos + a.length ∧
      (l.drop start).take (stop - start + 1) = trimBy blank a := by
  obtain ⟨w, w', hparts, hw, hw'⟩ := trimBy_parts blank a
  obtain ⟨c, m, f, d, hfirst, hlast, hc, hd⟩ := trimBy_ends h
  generalize trimBy blank a = entry at *
  subst hparts
  have hnot (b : List α) (hb : ∀ c ∈ b, blank c = true) : ∀ c ∈ b, (!blank c) = false := by
    intro c hc
    rw [hb c hc]
    rfl
  have hlengths : entry.length = f.length + 1 := by rw [hlast, List.length_append]; rfl
  have hstart : find_from (fun c => !blank c) l pos = some (pos + w.length) := by
    refine find_from_of_drop (x := c) (b := m ++ w' ++ rest) ?_ (by rw [hc]; rfl) (hnot w hw)
    rw [hdrop, hfirst]
    simp
  have hstop : find_last (fun c => !blank c) (l.take (pos + (w ++ entry ++ w').length)) =
      some (pos + w.length + f.length) := by
    have htake : l.take (pos + (w ++ entry ++ w').length) =
        (l.take pos ++ w ++ f) ++ d :: w' := by
      rw [List.take_add, hdrop, List.take_left, hlast]
      simp
    rw [htake, find_last_of_append (by rw [hd]; rfl) (hnot w' hw'), List.length_append,
      List.length_append, List.length_take, Nat.min_eq_left hpos]
  have hrest : l.drop (pos + w.length) = entry ++ (w' ++ rest) := by
    rw [← List.drop_drop, hdrop]
    simp
  have hcount : pos + w.length + f.length - (pos + w.length) + 1 = entry.length := by omega
  refine ⟨pos + w.length, pos + w.length + f.length, hstart, hstop, by omega, ?_, ?_⟩
  · rw [List.length_append, List.length_append]
    omega
  · rw [hcount, hrest, List.take_left]

/-- Nothing but blanks is found up to the end of an entry of them. -/
theorem search_blank {c : α} (hdrop : l.drop pos = a ++ c :: rest) (ha : a.all blank = true)
    (hc : blank c = false) : find_from (fun c => !blank c) l pos = some (pos + a.length) := by
  refine find_from_of_drop hdrop (by rw [hc]; rfl) ?_
  intro d hd
  rw [List.all_eq_true.mp ha d hd]
  rfl

/-! ## The entries -/

variable [BEq α] [LawfulBEq α]

/-- The entries between separators, each trimmed, without those that are all blank. -/
def trimmedEntries (blank : α → Bool) (sep : α) (l : List α) : List (List α) :=
  (l.splitOn sep).filterMap (fun e => if e.all blank then none else some (trimBy blank e))

omit [BEq α] [LawfulBEq α] in
/-- What an entry adds. -/
theorem filterMap_entry (e : List α) (es : List (List α)) :
    (e :: es).filterMap (fun e => if e.all blank then none else some (trimBy blank e)) =
      (if e.all blank then [] else [trimBy blank e]) ++
        es.filterMap (fun e => if e.all blank then none else some (trimBy blank e)) := by
  rw [List.filterMap_cons]
  cases e.all blank <;> rfl

/-- The turns of a scan. In an entry of blanks, the first element that is none is looked for,
which is the separator behind it. -/
structure Scan {β : Type} (blank : α → Bool) (sep : α) (l : List α)
    (turn : Nat → List (List α) → β) (done : List (List α) → β) : Prop where
  blank_entry : ∀ {pos start i tokens}, find_from (fun c => c == sep) l pos = some i →
    find_from (fun c => !blank c) l pos = some start → i ≤ start →
    turn pos tokens = turn (start + 1) tokens
  entry : ∀ {pos start stop i tokens}, find_from (fun c => c == sep) l pos = some i →
    find_from (fun c => !blank c) l pos = some start → start < i →
    find_last (fun c => !blank c) (l.take i) = some stop → start ≤ stop →
    turn pos tokens = turn (i + 1) (tokens ++ [(l.drop start).take (stop - start + 1)])
  last_entry : ∀ {pos start stop tokens}, find_from (fun c => c == sep) l pos = none →
    find_from (fun c => !blank c) l pos = some start →
    find_last (fun c => !blank c) l = some stop → start ≤ stop →
    turn pos tokens = done (tokens ++ [(l.drop start).take (stop - start + 1)])
  last_blank : ∀ {pos tokens}, find_from (fun c => c == sep) l pos = none →
    find_from (fun c => !blank c) l pos = none → turn pos tokens = done tokens

/-- A scan gives the trimmed entries behind its position, when the separator is no blank. -/
theorem Scan.eq {β : Type} {sep : α} {turn : Nat → List (List α) → β} {done : List (List α) → β}
    (scan : Scan blank sep l turn done) (hsep : blank sep = false) (pos : Nat)
    (hpos : pos ≤ l.length) :
    ∀ tokens, turn pos tokens = done (tokens ++ trimmedEntries blank sep (l.drop pos)) := by
  refine separator_induction sep l ?_ ?_ pos hpos
  · intro pos hpos hno tokens
    rw [trimmedEntries, List.splitOn_eq_singleton hno, filterMap_entry, List.filterMap_nil,
      List.append_nil]
    cases hblank : (l.drop pos).all blank with
    | true =>
      have hstart : find_from (fun c => !blank c) l pos = none := by
        refine find_from_of_none ?_
        intro c hc
        rw [List.all_eq_true.mp hblank c hc]
        rfl
      rw [scan.last_blank (find_no_separator hno) hstart, if_pos rfl, List.append_nil]
    | false =>
      obtain ⟨start, stop, hstart, hstop, hle, -, htoken⟩ :=
        search_entry hpos (List.append_nil _).symm hblank
      have hall : l.take (pos + (l.drop pos).length) = l := by
        apply List.take_of_length_le
        rw [List.length_drop]
        omega
      rw [hall] at hstop
      rw [scan.last_entry (find_no_separator hno) hstart hstop hle, htoken, if_neg (by decide)]
  · intro pos a b hdrop ha ih tokens
    have hfound := find_separator hdrop ha
    have hlt := lt_of_drop hdrop
    rw [drop_after hdrop, trimmedEntries] at ih
    rw [trimmedEntries, hdrop, List.splitOn_append_cons_self_of_not_mem ha, filterMap_entry]
    cases hblank : a.all blank with
    | true =>
      rw [scan.blank_entry hfound (search_blank hdrop hblank hsep) (Nat.le_refl _), ih,
        if_pos rfl, List.nil_append]
    | false =>
      obtain ⟨start, stop, hstart, hstop, hle, hbound, htoken⟩ :=
        search_entry (by omega) hdrop hblank
      rw [scan.entry hfound hstart (by omega) hstop hle, ih, htoken, if_neg (by decide),
        List.append_assoc]

end lib.trimmed_entries
