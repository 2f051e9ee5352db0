-- Headers that set a cookie: which of them are read by the part before the first
-- semicolon, and that a cookie that is written is read as it was.
import Aether.Http.CookieEntries

open util.string lib.ordered_map lib.positions

namespace proxy.http.Cookie

/-! ## Attributes -/

/-- The attribute of an entry, with no value if there is no equal sign. -/
def attribute_of (entry : Text) : Text × Text := (sides entry).getD (trim entry, [])

/-- The attributes with that of one more entry, if its name is new. -/
def with_entry (attributes : OrderedMap iless_fn Text) (entry : Text) : OrderedMap iless_fn Text :=
  attributes.emplace (attribute_of entry).1 (attribute_of entry).2

section

variable {header entry : Text} {stop : Option Nat} {i : Nat}

theorem parse_attribute_eq (h : EntryAt header i entry stop)
    (attributes : OrderedMap iless_fn Text) :
    parse_attribute header i attributes = .ok (with_entry attributes entry) := by
  unfold parse_attribute with_entry attribute_of
  rw [h.find_stop]
  by_cases hequal : equal_sign ∈ entry
  · obtain ⟨name, value, rfl, hname⟩ := List.eq_append_cons_of_mem hequal
    rw [h.separator hname, sides_of_append hname]
    simp [h.front, h.back, bind, Except.bind, pure, Except.pure]
  · rw [h.no_separator hequal, sides_of_notMem hequal]
    simp [h.whole, bind, Except.bind, pure, Except.pure]

/-- A turn of the loop. -/
theorem parse_attributes_turn (h : EntryAt header (i + 1) entry stop)
    (attributes : OrderedMap iless_fn Text) :
    parse_attributes header i attributes =
      go_on (parse_attributes header) (with_entry attributes entry) stop := by
  obtain ⟨_, -, hi⟩ := h.drop
  rw [parse_attributes, if_pos (Nat.lt_of_succ_le hi), parse_attribute_eq h]
  have hstop := h.find_stop
  simp only [bind, Except.bind]
  split
  · rename_i k hk
    obtain rfl := hstop.symm.trans hk
    rfl
  · rename_i hk
    obtain rfl := hstop.symm.trans hk
    rfl

end

/-! ## Names and values -/

/-- The attributes of a header whose first semicolon is known. -/
def attributes_from (header : Text) : Option Nat → OrderedMap iless_fn Text
  | some i => ((header.drop (i + 1)).splitOn semicolon).foldl with_entry .empty
  | none => .empty

section

variable {header name value : Text}

/-- A header with an equal sign is read as a cookie. -/
theorem parse_set_header_eq (hdrop : header = name ++ equal_sign :: value)
    (hname : equal_sign ∉ name) {part : Text}
    (hpart : substring header (name.length + 1) (find header semicolon 0) = .ok part) :
    parse_set_header header =
      .ok (some ⟨trim name, trim part, attributes_from header (find header semicolon 0)⟩) := by
  have hfind : find header equal_sign 0 = some name.length := hdrop ▸ find_cut hname
  have hfront : substring header 0 (some name.length) = .ok name := by
    have hsub := substring_of_drop (show header.drop 0 = name ++ equal_sign :: value from hdrop)
      (Nat.zero_le _)
    rwa [Nat.zero_add] at hsub
  unfold parse_set_header
  rw [hfind]
  simp only [hfront, hpart, bind, Except.bind]
  cases hstop : find header semicolon 0 with
  | none => rfl
  | some i =>
    have hattributes := entry_loop parse_attributes_turn (i + 1) (find_range hstop).2 i
      OrderedMap.empty rfl
    simp only [hattributes]
    rfl

end

/-- The part before the first semicolon. -/
def first_part (header : Text) : Text := header.takeWhile (· != semicolon)

/-- A header is read as a cookie if there is an equal sign in its first part, with the sides of it
as name and value. -/
def ReadByFirstPart (header : Text) : Prop :=
  (parse_set_header header).map (Option.map (fun c => (c.name, c.value))) =
    .ok (sides (first_part header))

/-- No semicolon is before the first equal sign, if there is one. -/
def SignFirst (header : Text) : Prop :=
  equal_sign ∈ header → semicolon ∉ header.takeWhile (· != equal_sign)

/-- The first part and the semicolon that ends it. -/
theorem first_entry (header : Text) : ∃ stop, EntryAt header 0 (first_part header) stop := by
  by_cases hsemicolon : semicolon ∈ header
  · obtain ⟨a, b, rfl, ha⟩ := List.eq_append_cons_of_mem hsemicolon
    rw [first_part, takeWhile_of_append ha]
    exact ⟨_, .next b rfl ha⟩
  · rw [first_part, takeWhile_of_notMem hsemicolon]
    exact ⟨none, .last rfl (Nat.zero_le _) hsemicolon⟩

theorem first_part_subset (header : Text) : first_part header ⊆ header := List.takeWhile_subset _

theorem readByFirstPart_iff (header : Text) : ReadByFirstPart header ↔ SignFirst header := by
  by_cases hequal : equal_sign ∈ header
  · obtain ⟨name, value, rfl, hname⟩ := List.eq_append_cons_of_mem hequal
    have hbefore : (name ++ equal_sign :: value).takeWhile (· != equal_sign) = name :=
      takeWhile_of_append hname value
    obtain ⟨stop, hentry⟩ := first_entry (name ++ equal_sign :: value)
    by_cases hsemicolon : semicolon ∈ name
    · have hnot : ¬ SignFirst (name ++ equal_sign :: value) := by
        intro h
        have hno := h hequal
        rw [hbefore] at hno
        exact hno hsemicolon
      refine iff_of_false ?_ hnot
      -- There is a cookie, but no equal sign in the first part.
      have hsides : sides (first_part (name ++ equal_sign :: value)) = none := by
        refine sides_of_notMem ?_
        obtain ⟨a, b, rfl, ha⟩ := List.eq_append_cons_of_mem hsemicolon
        rw [List.append_assoc, List.cons_append, first_part, takeWhile_of_append ha]
        exact fun h => hname (List.mem_append_left _ h)
      have hstart : name.length + 1 ≤ (name ++ equal_sign :: value).length := by simp
      obtain ⟨part, hpart⟩ := substring_ok hstart (find (name ++ equal_sign :: value) semicolon 0)
      intro h
      rw [ReadByFirstPart, parse_set_header_eq rfl hname hpart, hsides] at h
      cases h
    · have hpart : first_part (name ++ equal_sign :: value) =
          name ++ equal_sign :: first_part value := by
        have hall : ∀ c ∈ name, (c != semicolon) = true := by
          intro c hc
          exact bne_iff_ne.mpr (ne_of_mem_of_not_mem hc hsemicolon)
        rw [first_part, List.takeWhile_append_of_pos hall]
        rfl
      rw [hpart] at hentry
      have hback : substring (name ++ equal_sign :: value) (name.length + 1)
          (find (name ++ equal_sign :: value) semicolon 0) = .ok (first_part value) := by
        have hback := hentry.back
        rwa [Nat.zero_add, ← hentry.find_stop] at hback
      refine iff_of_true ?_ (fun _ => by rwa [hbefore])
      rw [ReadByFirstPart, parse_set_header_eq rfl hname hback, hpart, sides_of_append hname]
      rfl
  · have hnone : find header equal_sign 0 = none := find_of_notMem hequal
    have hread : parse_set_header header = .ok none := by
      unfold parse_set_header
      rw [hnone]
      rfl
    have hsides : sides (first_part header) = none :=
      sides_of_notMem (fun h => hequal (first_part_subset header h))
    refine iff_of_true ?_ (fun h => absurd h hequal)
    rw [ReadByFirstPart, hread, hsides]
    rfl

/-! ## Written cookies -/

/-- What can be written in a cookie. -/
structure Printable (c : Cookie) : Prop where
  name : Trimmed c.name ∧ semicolon ∉ c.name ∧ equal_sign ∉ c.name
  value : Trimmed c.value ∧ semicolon ∉ c.value
  attribute_names : ∀ e ∈ c.attributes_.entries,
    Trimmed e.1 ∧ semicolon ∉ e.1 ∧ equal_sign ∉ e.1
  attribute_values : ∀ e ∈ c.attributes_.entries, Trimmed e.2 ∧ semicolon ∉ e.2

/-- The entry of an attribute, behind its semicolon. -/
def attribute_entry (e : Text × Text) : Text :=
  32 :: e.1 ++ (if e.2 = [] then [] else equal_sign :: e.2)

theorem print_attribute_eq : print_attribute = fun e => semicolon :: attribute_entry e := rfl

theorem attribute_of_entry {e : Text × Text} (hname : Trimmed e.1) (hequal : equal_sign ∉ e.1)
    (hvalue : Trimmed e.2) : attribute_of (attribute_entry e) = e := by
  have hequal' : equal_sign ∉ 32 :: e.1 := by
    rw [List.mem_cons, not_or]
    exact ⟨by decide, hequal⟩
  unfold attribute_of attribute_entry
  split
  · rename_i hempty
    rw [List.append_nil, sides_of_notMem hequal', trim_blank, trim_of_trimmed hname]
    exact Prod.ext rfl hempty.symm
  · rw [sides_of_append hequal', trim_blank, trim_of_trimmed hname, trim_of_trimmed hvalue]
    rfl

theorem semicolon_notMem_entry {e : Text × Text} (hname : semicolon ∉ e.1)
    (hvalue : semicolon ∉ e.2) : semicolon ∉ attribute_entry e := by
  have hblank : semicolon ≠ 32 := by decide
  have hequal : semicolon ≠ equal_sign := by decide
  unfold attribute_entry
  split
  · simp [hname, hblank]
  · simp [hname, hvalue, hblank, hequal]

/-- The attributes of a cookie are made again of their entries. -/
theorem attributes_again {c : Cookie} (h : Printable c) :
    (c.attributes_.entries.map attribute_entry).foldl with_entry .empty = c.attributes_ := by
  rw [List.foldl_map]
  refine Eq.trans ?_ c.attributes_.refill_emplace
  apply List.foldl_ext
  intro attributes e he
  obtain ⟨hname, -, hequal⟩ := h.attribute_names e he
  rw [with_entry, attribute_of_entry hname hequal (h.attribute_values e he).1]

/-- The first of the entries that a header is split into, and the attributes of the others. -/
theorem entry_of_split {header pair : Text} {entries : List Text}
    (h : header.splitOn semicolon = pair :: entries) :
    ∃ stop, EntryAt header 0 pair stop ∧
      attributes_from header stop = entries.foldl with_entry .empty := by
  obtain ⟨stop, hentry⟩ := first_entry header
  cases stop with
  | none =>
    obtain ⟨rfl, rfl⟩ := List.cons.inj (hentry.splitOn_last.symm.trans h)
    exact ⟨none, hentry, rfl⟩
  | some i =>
    obtain ⟨rfl, rfl⟩ := List.cons.inj (hentry.splitOn_next.symm.trans h)
    exact ⟨some i, hentry, rfl⟩

theorem parse_response_string {c : Cookie} (h : Printable c) :
    parse_set_header c.response_string = .ok (some c) := by
  have hparts : c.response_string = (c.name ++ equal_sign :: c.value) ++
      c.attributes_.entries.flatMap (fun e => semicolon :: attribute_entry e) := by
    simp [response_string, print_attribute_eq]
  have hpair : semicolon ∉ c.name ++ equal_sign :: c.value := by
    have hequal : semicolon ≠ equal_sign := by decide
    simp [h.name.2.1, h.value.2, hequal]
  have hentries : ∀ e ∈ c.attributes_.entries, semicolon ∉ attribute_entry e := by
    intro e he
    exact semicolon_notMem_entry (h.attribute_names e he).2.1 (h.attribute_values e he).2
  obtain ⟨stop, hentry, hattributes⟩ := entry_of_split (splitOn_joined hpair hentries)
  rw [← hparts] at hentry hattributes
  have hback := hentry.back
  rw [Nat.zero_add, ← hentry.find_stop] at hback
  have hdrop : c.response_string = c.name ++ equal_sign ::
      (c.value ++ c.attributes_.entries.flatMap (fun e => semicolon :: attribute_entry e)) := by
    rw [hparts, List.append_assoc, List.cons_append]
  rw [parse_set_header_eq hdrop h.name.2.2 hback, hentry.find_stop, hattributes,
    attributes_again h, trim_of_trimmed h.name.1, trim_of_trimmed h.value.1]

/-- A header is read by its first part exactly if no semicolon is before its first equal sign, and
every cookie that can be written is read as it was. -/
theorem set_headers_are_sound_iff (header : Text) (c : Cookie) :
    (ReadByFirstPart header ↔ SignFirst header) ∧
      (Printable c → parse_set_header c.response_string = .ok (some c)) :=
  ⟨readByFirstPart_iff header, parse_response_string⟩

/-- A cookie with a path, and with an attribute of no value. -/
def a_secure_cookie : Cookie :=
  ⟨text "id", text "a=1", (OrderedMap.empty.emplace (text "Secure") []).emplace (text "Path")
    (text "/")⟩

theorem a_secure_cookie_is_read : parse_set_header a_secure_cookie.response_string =
    .ok (some a_secure_cookie) :=
  (set_headers_are_sound_iff [] a_secure_cookie).2 ⟨by decide, by decide, by decide, by decide⟩

/-- The name reaches into the attributes. -/
theorem a_sign_of_an_attribute_is_read : ¬ ReadByFirstPart (text "a; b=c") := by
  intro h
  have hfirst := (readByFirstPart_iff _).mp h
  revert hfirst
  unfold SignFirst
  decide

end proxy.http.Cookie
