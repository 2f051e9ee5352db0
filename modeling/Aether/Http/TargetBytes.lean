-- Which bytes of a target come through its parser. The parts that are left out are
-- the separators, the digits of a port, and what `kept` leaves out.
import Aether.Http.HostParsing

open util.string

namespace proxy.http

/-- The texts that a target consists of. -/
def Url.bytes (u : Url) : Text :=
  u.scheme ++ u.netloc.username ++ u.netloc.password ++ u.netloc.host ++ u.path ++ u.search

/-- Of what follows the two slashes, a search in front of the first slash is left out. -/
def kept_behind_slashes (rest : Text) : Text :=
  match find rest slash 0, find_first_of rest search_delims 0 with
  | some first_slash, some delim =>
    if first_slash < delim then rest else rest.take delim ++ rest.drop first_slash
  | _, _ => rest

/-- Of an absolute form, the character that ends the scheme is left out, which is the first one if
there is no colon. -/
def kept (method target : Text) : Text :=
  if target = text "*" ∨ target.head? = some slash ∨ method = text "CONNECT" then target
  else
    let scheme_end := (find target colon 0).getD 0
    let rest := target.drop (scheme_end + 1)
    target.take scheme_end ++
      if rest.take 2 = [slash, slash] then kept_behind_slashes (rest.drop 2) else rest

/-- A character that ends a line for somebody. -/
def Break (c : UInt8) : Prop := c = 13 ∨ c = 10

theorem Break.ne {c d : UInt8} (hc : Break c) (hd : 13 < d) : c ≠ d := by
  rintro rfl
  rcases hc with rfl | rfl
  · exact absurd hd (by decide)
  · exact absurd hd (by decide)

theorem Break.digit {c : UInt8} (hc : Break c) : digit c = none := by
  rcases hc with rfl | rfl <;> rfl

namespace Url

theorem find_offset (src : Text) (c : UInt8) (pos : Nat) :
    find src c pos = (find (src.drop pos) c 0).map (pos + ·) := by
  simp [find]

theorem find_first_of_offset (src cs : Text) (pos : Nat) :
    find_first_of src cs pos = (find_first_of (src.drop pos) cs 0).map (pos + ·) := by
  simp [find_first_of]

theorem notMem_take {src : Text} {c : UInt8} {i k : Nat} (h : find src c 0 = some i) (hk : k ≤ i) :
    c ∉ src.take k := by
  obtain ⟨a, b, hsrc, hno, rfl⟩ := find_eq_some h
  rw [List.drop_zero] at hsrc
  rw [hsrc, List.take_append_of_le_length (by omega)]
  exact fun hmem => hno (List.mem_of_mem_take hmem)

theorem substring_offset_ok {str w : Text} {pos k : Nat}
    (h : substring str pos (some (pos + k)) = .ok w) : w = (str.drop pos).take k := by
  simp only [substring] at h
  cases hrest : substring_from str pos with
  | error e =>
    rw [hrest] at h
    cases h
  | ok rest =>
    rw [hrest, substring_from_ok hrest] at h
    simp only [Except.map, if_pos (Nat.le_add_right pos k), Nat.add_sub_cancel_left] at h
    exact (Except.ok.inj h).symm

theorem two_slashes_at_iff {v : Text} {pos : Nat} {b : Bool} (h : two_slashes v pos = .ok b) :
    b = true ↔ (v.drop pos).take 2 = [slash, slash] := by
  have hat (k : Nat) : char_at v (pos + k) = char_at (v.drop pos) k := by
    simp only [char_at, List.getElem?_drop]
  have hdrop : two_slashes v pos = two_slashes (v.drop pos) 0 := by
    simp only [two_slashes, ← hat, Nat.add_zero]
  exact two_slashes_iff (hdrop ▸ h)

/-- A scheme ends at the first colon. -/
theorem parse_scheme_ok {str scheme : Text} {pos : Nat} (hslash : str.head? ≠ some slash)
    (h : parse_scheme str = .ok (scheme, pos)) :
    pos = (find str colon 0).getD 0 ∧ scheme = str.take pos := by
  unfold parse_scheme at h
  split at h
  · rename_i hfind
    obtain ⟨rfl, rfl⟩ := Prod.mk.inj (Except.ok.inj h)
    exact ⟨by rw [hfind]; rfl, rfl⟩
  · rename_i i hfind
    obtain ⟨slashes, hslashes, h⟩ := bind_eq_ok.mp h
    have hfalse : slashes = false := by
      by_contra htrue
      have htwo := (two_slashes_iff hslashes).mp (Bool.eq_true_of_not_eq_false htrue)
      cases str with
      | nil => cases htwo
      | cons d str => exact hslash (congrArg some (List.cons.inj htwo).1)
    rw [hfalse] at h
    obtain ⟨found, hfound, h⟩ := bind_eq_ok.mp h
    obtain ⟨rfl, rfl⟩ := Prod.mk.inj (Except.ok.inj h)
    refine ⟨by rw [hfind]; rfl, ?_⟩
    rw [← Nat.zero_add i] at hfound
    exact substring_offset_ok hfound

section

variable {c : UInt8} (hc : Break c)

include hc

theorem HostEnd.mem_iff {rest host : Text} {port : Option UInt16} (hend : HostEnd rest host port) :
    c ∈ host ↔ c ∈ rest := by
  cases hend with
  | alone => rfl
  | no_port => rfl
  | @port _ ds p cut no_colon number =>
    have hds : c ∉ ds := fun hmem =>
      parse_port_of_mem hc.digit (hc.ne (by decide)) (hc.ne (by decide)) hmem p number
    rw [cut, List.mem_append, List.mem_cons]
    simp [hds, hc.ne (d := colon) (by decide)]

theorem mem_netloc_iff {v : Text} {n : NetworkLocation} (hslash : slash ∉ v)
    (h : parse_netloc v = .ok n) :
    c ∈ n.username ++ n.password ++ n.host ↔ c ∈ v := by
  obtain ⟨slashes, netloc, start, hslashes, huser, hend, hname, hpassword⟩ := parse_netloc_parts h
  have hfalse : slashes = false := by
    by_contra htrue
    have htwo := (two_slashes_iff hslashes).mp (Bool.eq_true_of_not_eq_false htrue)
    exact hslash (List.mem_of_mem_take (htwo ▸ List.mem_cons_self))
  subst hfalse
  obtain ⟨-, hparts⟩ := parse_user_ok huser
  have hhost := hend.mem_iff hc
  simp only [Bool.false_eq_true, if_false, List.drop_zero, Nat.zero_add] at hparts
  rw [List.mem_append, List.mem_append, hname, hpassword, hhost]
  rcases hparts with ⟨-, rfl, rfl⟩ | ⟨a, b, rfl, -, rfl, rfl, hsubset⟩
  · simp [NetworkLocation.new]
  · rw [List.drop_left, List.mem_append]
    constructor
    · rintro ((hmem | hmem) | hmem)
      · exact .inl hmem
      · exact .inl (hsubset hmem)
      · exact .inr hmem
    · rintro (hmem | hmem)
      · exact .inl (.inl hmem)
      · exact .inr hmem

theorem mem_bytes_iff {v scheme path search : Text} {n : NetworkLocation} (hslash : slash ∉ v)
    (h : parse_netloc v = .ok n) :
    c ∈ (⟨.absolute, scheme, n, path, search⟩ : Url).bytes ↔
      c ∈ scheme ∨ c ∈ v ++ (path ++ search) := by
  have hnetloc := mem_netloc_iff hc hslash h
  simp only [List.mem_append] at hnetloc
  simp only [bytes, List.mem_append, ← hnetloc]
  tauto

/-- What comes through the case with a netloc. -/
theorem mem_with_netloc_iff {str scheme : Text} {pos : Nat} {u : Url}
    (h : parse_with_netloc str scheme pos = .ok u) :
    c ∈ u.bytes ↔ c ∈ scheme ∨ c ∈ kept_behind_slashes (str.drop pos) := by
  unfold parse_with_netloc at h
  rw [find_offset, find_first_of_offset] at h
  obtain ⟨text, htext, hrun⟩ := bind_eq_ok.mp h
  obtain ⟨netloc, hnetloc, hout⟩ := bind_eq_ok.mp hrun
  clear h hrun
  unfold kept_behind_slashes
  generalize hrest : str.drop pos = rest at hout
  have hdrop (k : Nat) : str.drop (pos + k) = rest.drop k := by rw [← List.drop_drop, hrest]
  cases hslash : find rest slash 0 with
  | none =>
    have hno : slash ∉ rest := by simpa using find_eq_none hslash
    cases hdelim : find_first_of rest search_delims 0 with
    | none =>
      rw [hrest, hslash, hdelim] at htext
      rw [hslash, hdelim] at hout
      obtain rfl := Except.ok.inj hout
      obtain rfl : text = rest := (substring_from_ok htext).trans hrest
      simpa using @mem_bytes_iff _ hc _ _ [] [] _ hno hnetloc
    | some j =>
      rw [hrest, hslash, hdelim] at htext
      rw [hslash, hdelim] at hout
      obtain ⟨search, hsearch, hout⟩ := bind_eq_ok.mp hout
      obtain rfl := Except.ok.inj hout
      obtain rfl : text = rest.take j := hrest ▸ substring_offset_ok htext
      obtain rfl : search = rest.drop j := (substring_from_ok hsearch).trans (hdrop j)
      have hmem := @mem_bytes_iff _ hc _ scheme [] (rest.drop j) _
        (fun hmem => hno (List.mem_of_mem_take hmem)) hnetloc
      simpa using hmem
  | some i =>
    cases hdelim : find_first_of rest search_delims 0 with
    | none =>
      rw [hrest, hslash, hdelim] at htext
      rw [hslash, hdelim] at hout
      obtain ⟨path, hpath, hout⟩ := bind_eq_ok.mp hout
      obtain rfl := Except.ok.inj hout
      obtain rfl : text = rest.take i := hrest ▸ substring_offset_ok htext
      obtain rfl : path = rest.drop i := (substring_from_ok hpath).trans (hdrop i)
      have hmem := @mem_bytes_iff _ hc _ scheme (rest.drop i) [] _
        (notMem_take hslash (Nat.le_refl i)) hnetloc
      simpa using hmem
    | some j =>
      rw [hrest, hslash, hdelim] at htext
      rw [hslash, hdelim] at hout
      have hmin : min_pos (some (pos + j)) (some (pos + i)) = some (pos + min j i) :=
        congrArg some (Nat.add_min_add_left pos j i)
      obtain rfl : text = rest.take (min j i) :=
        hrest ▸ substring_offset_ok (htext.symm.trans (congrArg _ hmin) |>.symm)
      have hno := notMem_take hslash (Nat.min_le_right j i)
      simp only [Option.map_some, Nat.add_lt_add_iff_left] at hout
      by_cases hlt : i < j
      · -- Path and search exist.
        rw [if_pos hlt] at hout
        obtain ⟨path, hpath, hout⟩ := bind_eq_ok.mp hout
        obtain ⟨search, hsearch, hout⟩ := bind_eq_ok.mp hout
        obtain rfl := Except.ok.inj hout
        obtain rfl : search = rest.drop j := (substring_from_ok hsearch).trans (hdrop j)
        rw [show pos + j = pos + i + (j - i) by omega] at hpath
        have hpath' : path = (rest.drop i).take (j - i) := by
          rw [substring_offset_ok hpath, hdrop i]
        have hdropj : rest.drop j = (rest.drop i).drop (j - i) := by
          rw [List.drop_drop, show i + (j - i) = j by omega]
        have hparts : path ++ rest.drop j = rest.drop i := by
          rw [hpath', hdropj, List.take_append_drop]
        have hmem := @mem_bytes_iff _ hc _ scheme path (rest.drop j) _ hno
          hnetloc
        rw [hparts, Nat.min_eq_right (Nat.le_of_lt hlt), List.take_append_drop] at hmem
        simp only [if_pos hlt]
        exact hmem
      · rw [if_neg hlt] at hout
        obtain ⟨path, hpath, hout⟩ := bind_eq_ok.mp hout
        obtain rfl := Except.ok.inj hout
        obtain rfl : path = rest.drop i := (substring_from_ok hpath).trans (hdrop i)
        have hmem := @mem_bytes_iff _ hc _ scheme (rest.drop i) [] _ hno
          hnetloc
        simp only [if_neg hlt]
        rw [Nat.min_eq_left (Nat.le_of_not_lt hlt), List.append_nil] at hmem
        exact hmem

theorem mem_absolute_iff {str : Text} {u : Url} (hslash : str.head? ≠ some slash)
    (h : parse_absolute_form str = .ok u) {method : Text} (hstar : str ≠ text "*")
    (hmethod : method ≠ text "CONNECT") : c ∈ u.bytes ↔ c ∈ kept method str := by
  unfold parse_absolute_form at h
  obtain ⟨⟨scheme, pos⟩, hscheme, h⟩ := bind_eq_ok.mp h
  obtain ⟨hpos, rfl⟩ := parse_scheme_ok hslash hscheme
  unfold kept
  rw [if_neg (by simp [hstar, hslash, hmethod])]
  simp only [← hpos, List.mem_append]
  obtain ⟨slashes, hslashes, h⟩ := bind_eq_ok.mp h
  have htwo := two_slashes_at_iff hslashes
  cases slashes with
  | true =>
    rw [if_pos (htwo.mp rfl), List.drop_drop]
    exact mem_with_netloc_iff hc h
  | false =>
    rw [if_neg (fun h => by cases htwo.mpr h)]
    obtain ⟨d, hd, h⟩ := bind_eq_ok.mp h
    by_cases hpath : d = slash
    · -- The slash of the path is no part of it.
      have hcut : str.drop (pos + 1) = slash :: str.drop (pos + 2) := by
        unfold char_at at hd
        cases hat : str[pos + 1]? with
        | none =>
          rw [hat] at hd
          cases hd
        | some e =>
          rw [hat] at hd
          obtain rfl := Except.ok.inj hd
          obtain ⟨hlt, rfl⟩ := List.getElem?_eq_some_iff.mp hat
          rw [List.drop_eq_getElem_cons hlt, hpath]
      rw [hcut, List.mem_cons, or_iff_right (hc.ne (by decide))]
      rw [if_pos hpath] at h
      simp only [find_first_of_offset str search_delims (pos + 2)] at h
      cases hdelim : find_first_of (str.drop (pos + 2)) search_delims 0 with
      | none =>
        rw [hdelim] at h
        obtain ⟨path, hpath, h⟩ := bind_eq_ok.mp h
        obtain rfl := Except.ok.inj h
        rw [substring_from_ok hpath]
        simp [bytes, NetworkLocation.new]
      | some k =>
        rw [hdelim] at h
        obtain ⟨path, hpath, h⟩ := bind_eq_ok.mp h
        obtain ⟨search, hsearch, h⟩ := bind_eq_ok.mp h
        obtain rfl := Except.ok.inj h
        have hsearch' : search = (str.drop (pos + 2)).drop k :=
          (substring_from_ok hsearch).trans List.drop_drop.symm
        rw [substring_offset_ok hpath, hsearch']
        conv_rhs => rw [← List.take_append_drop k (str.drop (pos + 2))]
        simp [bytes, NetworkLocation.new]
    · rw [if_neg hpath] at h
      obtain ⟨search, hsearch, h⟩ := bind_eq_ok.mp h
      obtain rfl := Except.ok.inj h
      rw [substring_from_ok hsearch]
      simp [bytes, NetworkLocation.new]

theorem mem_authority_iff {str : Text} {u : Url} (h : parse_authority_form str = .ok u) :
    c ∈ u.bytes ↔ c ∈ str := by
  unfold parse_authority_form at h
  split at h
  · cases h
  · rename_i i hfind
    obtain ⟨a, ds, hstr, -, rfl⟩ := find_eq_some hfind
    rw [List.drop_zero] at hstr
    subst hstr
    rw [Nat.zero_add, List.take_left, ← List.drop_drop, List.drop_left, List.drop_one,
      List.tail_cons] at h
    cases hport : parse_port ds with
    | error e =>
      rw [hport] at h
      cases h
    | ok port =>
      rw [hport] at h
      obtain rfl := Except.ok.inj h
      have hds : c ∉ ds := fun hmem =>
        parse_port_of_mem hc.digit (hc.ne (by decide)) (hc.ne (by decide)) hmem port hport
      simp [bytes, make_authority_form, hds, hc.ne (d := colon) (by decide)]

/-- A target has the breaks that are kept of its text, and no others. -/
theorem mem_target_iff {str : Text} {verb : Method} {u : Url}
    (h : parse_target str verb = .ok u) : c ∈ u.bytes ↔ c ∈ kept (method_to_string verb) str := by
  have hverb : method_to_string verb = text "CONNECT" ↔ verb = .CONNECT := by
    cases verb <;> decide
  unfold parse_target at h
  by_cases hstar : str = text "*"
  · rw [if_pos hstar] at h
    obtain rfl := Except.ok.inj h
    have hne : c ≠ 42 := hc.ne (by decide)
    rw [kept, if_pos (.inl hstar), hstar]
    simp [bytes, NetworkLocation.new, text, hne]
  rw [if_neg hstar] at h
  obtain ⟨d, hd, h⟩ := bind_eq_ok.mp h
  have hhead : str.head? = some d := by
    cases str with
    | nil => cases hd
    | cons e str => exact congrArg some (Except.ok.inj hd)
  by_cases hslash : d = slash
  · rw [if_pos hslash] at h
    obtain rfl := Except.ok.inj h
    unfold kept
    rw [if_pos (.inr (.inl (hhead.trans (congrArg some hslash))))]
    unfold parse_origin_form
    split
    · rename_i k hdelim
      conv_rhs => rw [← List.take_append_drop k str]
      simp [bytes, make_origin_form, NetworkLocation.new]
    · simp [bytes, make_origin_form, NetworkLocation.new]
  · rw [if_neg hslash] at h
    by_cases hconnect : verb = .CONNECT
    · rw [if_pos hconnect] at h
      unfold kept
      rw [if_pos (.inr (.inr (hverb.mpr hconnect)))]
      exact mem_authority_iff hc h
    · rw [if_neg hconnect] at h
      refine mem_absolute_iff hc ?_ h hstar (fun heq => hconnect (hverb.mp heq))
      rw [hhead]
      exact fun heq => hslash (Option.some.inj heq)

end

end Url

end proxy.http
