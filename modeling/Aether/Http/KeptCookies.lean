-- Which collections of cookies are read as they are written, and which requests
-- keep the cookies that are taken from them and set again.
import Aether.Http.CookieCollection
import Aether.Http.CookieEntries
import Aether.Http.HeaderEdits

open util.string lib.ordered_map lib.positions

namespace proxy.http

namespace CookieCollection

/-! ## Collections -/

/-- The names and values of the cookies. -/
def pairs (cookies : CookieCollection) : List (Text × Text) :=
  cookies.cookies_.entries.map (fun e => (e.2.name, e.2.value))

/-- Every cookie is found by its name. -/
def Keyed (cookies : CookieCollection) : Prop :=
  ∀ e ∈ cookies.cookies_.entries, e.1 = e.2.name

section

variable {cookies : CookieCollection}

theorem Keyed.set (h : cookies.Keyed) (cook : Cookie) : (cookies.set cook).Keyed := by
  intro e he
  rcases mem_place he with rfl | he | ⟨f, _, hsame, rfl⟩
  · rfl
  · exact h e he
  · exact same_less.mp hsame

theorem get_set (cookies : CookieCollection) (cook : Cookie) (name : Text) :
    (cookies.set cook).get name = if cook.name = name then some cook else cookies.get name := by
  have hfind := cookies.cookies_.find_insert_or_assign cook.name name cook
  simp only [same_less] at hfind
  exact hfind

theorem Keyed.mem_pairs (h : cookies.Keyed) {name value : Text} :
    (name, value) ∈ cookies.pairs ↔ ∃ cook, cookies.get name = some cook ∧ cook.value = value := by
  simp only [pairs, get, OrderedMap.find_eq_some_iff, same_less, List.mem_map, Prod.mk.injEq]
  constructor
  · rintro ⟨e, he, hname, hvalue⟩
    exact ⟨e.2, ⟨e, he, (h e he).trans hname, rfl⟩, hvalue⟩
  · rintro ⟨_, ⟨e, he, hkey, rfl⟩, hvalue⟩
    exact ⟨e, he, (h e he).symm.trans hkey, hvalue⟩

end

/-- The cookies of names and values, of which the last of a name counts. -/
def collected (found : List (Text × Text)) : CookieCollection :=
  found.foldl (fun cookies p => cookies.set (.new p.1 p.2)) empty

theorem collected_snoc (found : List (Text × Text)) (p : Text × Text) :
    collected (found ++ [p]) = (collected found).set (.new p.1 p.2) := by
  rw [collected, List.foldl_append]
  rfl

theorem keyed_collected (found : List (Text × Text)) : (collected found).Keyed := by
  induction found using List.reverseRecOn with
  | nil => exact fun e he => absurd he List.not_mem_nil
  | append_singleton found p ih =>
    rw [collected_snoc]
    exact ih.set _

theorem get_collected (found : List (Text × Text)) (name : Text) :
    (collected found).get name = (found.reverse.lookup name).map (Cookie.new name) := by
  induction found using List.reverseRecOn with
  | nil => rfl
  | append_singleton found p ih =>
    rw [collected_snoc, get_set, ih, List.reverse_append, List.reverse_singleton,
      List.singleton_append, List.lookup_cons]
    by_cases hname : p.1 = name
    · subst hname
      simp [Cookie.new]
    · have hne : (name == p.1) = false := beq_eq_false_iff_ne.mpr (Ne.symm hname)
      rw [if_neg (by exact hname), hne]

theorem mem_pairs_collected {found : List (Text × Text)} {name value : Text} :
    (name, value) ∈ (collected found).pairs ↔ found.reverse.lookup name = some value := by
  rw [(keyed_collected found).mem_pairs, get_collected]
  constructor
  · rintro ⟨cook, hcook, rfl⟩
    obtain ⟨value, hvalue, rfl⟩ := Option.map_eq_some_iff.mp hcook
    exact hvalue
  · intro hvalue
    exact ⟨.new name value, by rw [hvalue, Option.map_some], rfl⟩

theorem mem_of_mem_collected {found : List (Text × Text)} {p : Text × Text}
    (h : p ∈ (collected found).pairs) : p ∈ found := by
  obtain ⟨l, l', hfound, -⟩ := List.lookup_eq_some_iff.mp (mem_pairs_collected.mp h)
  apply List.mem_reverse.mp
  rw [hfound]
  exact List.mem_append_right l List.mem_cons_self

/-! ## Reading -/

/-- The names and values of the entries of a header, without its first character. -/
def pairs_of (header : Text) : List (Text × Text) :=
  ((header.drop 1).splitOn semicolon).filterMap sides

/-- The cookies with that of one more entry, if there is an equal sign. -/
def with_entry (cookies : CookieCollection) (entry : Text) : CookieCollection :=
  match sides entry with
  | some p => cookies.set (.new p.1 p.2)
  | none => cookies

section

variable {header entry : Text} {stop : Option Nat} {i : Nat}

theorem parse_cookie_eq (h : EntryAt header i entry stop) (result : CookieCollection) :
    parse_cookie header i result = .ok (result.with_entry entry) := by
  unfold parse_cookie with_entry
  by_cases hequal : equal_sign ∈ entry
  · obtain ⟨name, value, rfl, hname⟩ := List.eq_append_cons_of_mem hequal
    rw [h.separator hname, h.find_stop, sides_of_append hname]
    simp [h.front, h.back, bind, Except.bind, pure, Except.pure]
  · rw [h.no_separator hequal, sides_of_notMem hequal]
    rfl

/-- A turn of the loop. -/
theorem parse_cookies_turn (h : EntryAt header (i + 1) entry stop) (result : CookieCollection) :
    parse_cookies header i result =
      go_on (parse_cookies header) (result.with_entry entry) stop := by
  obtain ⟨_, -, hi⟩ := h.drop
  have hstop := h.find_stop
  rw [parse_cookies, if_pos (Nat.lt_of_succ_le hi), parse_cookie_eq h]
  simp only [bind, Except.bind]
  split
  · rename_i k hk
    obtain rfl := hstop.symm.trans hk
    rfl
  · rename_i hk
    obtain rfl := hstop.symm.trans hk
    rfl

end

theorem parse_request_header_eq (header : Text) :
    parse_request_header header = .ok (collected (pairs_of header)) := by
  have hfold : collected (pairs_of header) =
      ((header.drop 1).splitOn semicolon).foldl with_entry empty := by
    rw [collected, pairs_of, List.foldl_filterMap]
    apply List.foldl_ext
    intro cookies entry _
    unfold with_entry
    cases sides entry with
    | none => rfl
    | some p => rfl
  rw [hfold]
  cases header with
  | nil =>
    rw [parse_request_header, parse_cookies]
    rfl
  | cons c header => exact entry_loop parse_cookies_turn 1 (Nat.le_add_left 1 _) 0 empty rfl

/-! ## Written collections -/

/-- A name and a value that are read as they are written. -/
structure Plain (p : Text × Text) : Prop where
  name : Trimmed p.1 ∧ semicolon ∉ p.1 ∧ equal_sign ∉ p.1
  value : Trimmed p.2 ∧ semicolon ∉ p.2

namespace Plain

variable {p : Text × Text} (h : Plain p)

include h

end Plain

section

variable {cookies : CookieCollection} {p : Text × Text} {rest : List (Text × Text)}

/-- What is read of an entry is plain. -/
theorem plain_of_sides {entry : Text} (hsides : sides entry = some p)
    (hsemicolon : semicolon ∉ entry) : Plain p := by
  by_cases hequal : equal_sign ∈ entry
  · obtain ⟨name, value, rfl, hname⟩ := List.eq_append_cons_of_mem hequal
    obtain rfl := Option.some.inj ((sides_of_append hname).symm.trans hsides)
    rw [List.mem_append, List.mem_cons, not_or, not_or] at hsemicolon
    exact ⟨⟨trimmed_trim name, fun hmem => hsemicolon.1 ((trim_part name).subset hmem),
        fun hmem => hname ((trim_part name).subset hmem)⟩,
      ⟨trimmed_trim value, fun hmem => hsemicolon.2.2 ((trim_part value).subset hmem)⟩⟩
  · rw [sides_of_notMem hequal] at hsides
    cases hsides

theorem plain_of_read {header : Text} (h : p ∈ (collected (pairs_of header)).pairs) : Plain p := by
  obtain ⟨entry, hentry, hsides⟩ := List.mem_filterMap.mp (mem_of_mem_collected h)
  exact plain_of_sides hsides (mem_splitOn hentry).1

end

/-- The collection is read of its text with exactly the same names and values. -/
def ReadBack (cookies : CookieCollection) : Prop :=
  ∃ read, parse_request_header cookies.request_string = .ok read ∧ read.pairs.Perm cookies.pairs

end CookieCollection

/-! ## Requests -/

namespace Request

open CookieCollection

theorem get_cookies_eq (req : Request) :
    req.get_cookies = .ok (collected
      (pairs_of ((req.get_all_of_header (text "Cookie")).head?.getD []))) := by
  rw [get_cookies, req.get_header_toOption]
  exact parse_request_header_eq _

end Request

end proxy.http
