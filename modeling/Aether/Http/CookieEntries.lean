-- The entries of a header of cookies: what the searches and parts of the loops
-- give for an entry whose bounds are known.
import Aether.Http.Cookie
import Aether.Util.Trimming

open util.string lib.positions

namespace proxy.http

/-- The trimmed texts on the two sides of the first equal sign. -/
def sides (entry : Text) : Option (Text × Text) :=
  if equal_sign ∈ entry then
    some (trim (entry.takeWhile (· != equal_sign)),
      trim ((entry.dropWhile (· != equal_sign)).drop 1))
  else none

theorem sides_of_append {name value : Text} (h : equal_sign ∉ name) :
    sides (name ++ equal_sign :: value) = some (trim name, trim value) := by
  have hmem : equal_sign ∈ name ++ equal_sign :: value := by simp
  rw [sides, if_pos hmem, takeWhile_of_append h, dropWhile_of_append h, List.drop_one,
    List.tail_cons]

theorem sides_of_notMem {entry : Text} (h : equal_sign ∉ entry) : sides entry = none := if_neg h

/-- An entry from a position on, and the semicolon that ends it, if there is one. -/
inductive EntryAt (header : Text) (pos : Nat) (entry : Text) : Option Nat → Prop
  | last (hdrop : header.drop pos = entry) (hpos : pos ≤ header.length)
      (hsemicolon : semicolon ∉ entry) : EntryAt header pos entry none
  | next (rest : Text) (hdrop : header.drop pos = entry ++ semicolon :: rest)
      (hsemicolon : semicolon ∉ entry) : EntryAt header pos entry (some (pos + entry.length))

namespace EntryAt

variable {header entry name value : Text} {pos : Nat} {stop : Option Nat}

theorem drop (h : EntryAt header pos entry stop) :
    ∃ rest, header.drop pos = entry ++ rest ∧ pos ≤ header.length := by
  cases h with
  | last hdrop hpos _ => exact ⟨[], by rw [hdrop, List.append_nil], hpos⟩
  | next rest hdrop _ =>
    have hlt := lt_of_drop hdrop
    exact ⟨semicolon :: rest, hdrop, by omega⟩

theorem find_stop (h : EntryAt header pos entry stop) : find header semicolon pos = stop := by
  cases h with
  | last hdrop _ hsemicolon => exact find_of_notMem (hdrop ▸ hsemicolon)
  | next rest hdrop hsemicolon => exact find_of_drop hdrop hsemicolon

/-- The part from a position in the entry up to its end. -/
theorem part (h : EntryAt header pos entry stop) {q : Nat} (hq : q ≤ entry.length) :
    substring header (pos + q) stop = .ok (entry.drop q) := by
  cases h with
  | last hdrop hpos _ =>
    have hlength := congrArg List.length hdrop
    rw [List.length_drop] at hlength
    refine substring_from_of_drop ?_ (by omega)
    rw [← List.drop_drop, hdrop]
  | next rest hdrop _ =>
    have hlt := lt_of_drop hdrop
    have hrest : header.drop (pos + q) = entry.drop q ++ semicolon :: rest := by
      rw [← List.drop_drop, hdrop, List.drop_append_of_le_length hq]
    have hpart := substring_of_drop hrest (by omega)
    have hstop : pos + q + (entry.drop q).length = pos + entry.length := by
      rw [List.length_drop]
      omega
    rwa [hstop] at hpart

/-- The text up to a position in the entry. -/
theorem front (h : EntryAt header pos (name ++ value) stop) :
    substring header pos (some (pos + name.length)) = .ok name := by
  obtain ⟨rest, hdrop, hpos⟩ := h.drop
  rw [List.append_assoc] at hdrop
  exact substring_of_drop hdrop hpos

/-- The text behind an equal sign of the entry. -/
theorem back (h : EntryAt header pos (name ++ equal_sign :: value) stop) :
    substring header (pos + name.length + 1) stop = .ok value := by
  have hpart := h.part (show name.length + 1 ≤ _ by simp)
  rwa [← Nat.add_assoc, ← List.drop_drop, List.drop_left, List.drop_one, List.tail_cons] at hpart

/-- The whole entry. -/
theorem whole (h : EntryAt header pos entry stop) : substring header pos stop = .ok entry :=
  h.part (Nat.zero_le _)

theorem separator (h : EntryAt header pos (name ++ equal_sign :: value) stop)
    (hname : equal_sign ∉ name) : entry_separator header pos = some (pos + name.length) := by
  obtain ⟨rest, hdrop, -⟩ := h.drop
  rw [List.append_assoc, List.cons_append] at hdrop
  unfold entry_separator
  rw [find_of_drop hdrop hname, h.find_stop]
  cases h with
  | last => rfl
  | next => simp

theorem no_separator (h : EntryAt header pos entry stop) (hentry : equal_sign ∉ entry) :
    entry_separator header pos = none := by
  unfold entry_separator
  rw [h.find_stop]
  cases h with
  | last hdrop _ _ => rw [find_of_notMem (hdrop ▸ hentry), Option.filter_none]
  | next rest hdrop _ =>
    apply Option.filter_eq_none_iff.mpr
    intro i hi
    obtain ⟨a, b, hdrop', -, rfl⟩ := find_eq_some hi
    have hnot : ¬ a.length < entry.length := by
      intro hlt
      have hat : (header.drop pos)[a.length]? = some equal_sign := by simp [hdrop']
      rw [hdrop, List.getElem?_append_left hlt] at hat
      exact hentry (List.mem_of_getElem? hat)
    simpa using hnot

end EntryAt

/-- A header is entries up to semicolons. -/
@[elab_as_elim]
theorem entry_induction {motive : Nat → Prop} (header : Text)
    (last : ∀ pos, EntryAt header pos (header.drop pos) none → motive pos)
    (next : ∀ pos entry, EntryAt header pos entry (some (pos + entry.length)) →
      motive (pos + entry.length + 1) → motive pos)
    (pos : Nat) (hpos : pos ≤ header.length) : motive pos := by
  refine separator_induction semicolon header ?_ ?_ pos hpos
  · intro pos hpos hsemicolon
    exact last pos (.last rfl hpos hsemicolon)
  · intro pos a b hdrop hsemicolon hrest
    exact next pos a (.next b hdrop hsemicolon) hrest

/-- What `splitOn` gives from the position of an entry on. -/
theorem EntryAt.splitOn_last {header : Text} {pos : Nat} {entry : Text}
    (h : EntryAt header pos entry none) : (header.drop pos).splitOn semicolon = [entry] := by
  cases h with
  | last hdrop _ hsemicolon => rw [hdrop, List.splitOn_eq_singleton hsemicolon]

theorem EntryAt.splitOn_next {header : Text} {pos i : Nat} {entry : Text}
    (h : EntryAt header pos entry (some i)) :
    (header.drop pos).splitOn semicolon = entry :: (header.drop (i + 1)).splitOn semicolon := by
  cases h with
  | next rest hdrop hsemicolon =>
    rw [hdrop, List.splitOn_append_cons_self_of_not_mem hsemicolon, drop_after hdrop]

/-! ## Loops -/

/-- What is left to do at the semicolon that ended an entry. -/
def go_on {σ : Type} (loop : Nat → σ → Except Error σ) (s : σ) : Option Nat → Except Error σ
  | some stop => loop stop s
  | none => .ok s

/-- A loop that goes from semicolon to semicolon takes the entries one after the other. -/
theorem entry_loop {σ : Type} {header : Text} {loop : Nat → σ → Except Error σ} {add : σ → Text → σ}
    (hturn : ∀ {i entry stop}, EntryAt header (i + 1) entry stop →
      ∀ s, loop i s = go_on loop (add s entry) stop)
    (pos : Nat) (hpos : pos ≤ header.length) : ∀ i s, pos = i + 1 →
      loop i s = .ok (((header.drop pos).splitOn semicolon).foldl add s) := by
  refine entry_induction header ?_ ?_ pos hpos
  · rintro _ h i s rfl
    rw [hturn h, h.splitOn_last]
    rfl
  · rintro _ entry h ih i s rfl
    rw [hturn h, h.splitOn_next, List.foldl_cons]
    exact ih _ _ rfl

end proxy.http
