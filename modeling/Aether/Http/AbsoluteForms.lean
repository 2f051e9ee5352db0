-- A target in absolute form, as RFC 1808 writes it, and what `url.cpp` makes of it
-- and prints again.
import Aether.Http.NetlocRoundTrip

open util.string lib.rfc7230

namespace proxy.http.Url

open NetworkLocation (IsHost)

/-! ## Absolute forms -/

/-- A letter, a digit, `+`, `-` or `.`. -/
def scheme_char (c : UInt8) : Bool :=
  (65 ≤ c && c ≤ 90) || (97 ≤ c && c ≤ 122) || (48 ≤ c && c ≤ 57) || c == 43 || c == 45 || c == 46

structure Authority (host : Text) : Prop extends IsHost host where
  no_delim : ∀ c ∈ host, c ∉ search_delims

structure AbsoluteForm where
  scheme : Text
  authority : Option (Text × Option UInt16)
  path : Text
  search : Text
  scheme_ : scheme ≠ [] ∧ ∀ c ∈ scheme, scheme_char c = true
  authority_ : ∀ a ∈ authority, Authority a.1
  path_ : (∀ c ∈ path.head?, c = slash) ∧ path.take 2 ≠ [slash, slash] ∧
    ∀ c ∈ path, c ∉ search_delims
  search_ : ∀ c ∈ search.head?, c ∈ search_delims

namespace AbsoluteForm

variable (f : AbsoluteForm)

def netloc : NetworkLocation :=
  match f.authority with
  | some (host, port) => ⟨[], [], host, port⟩
  | none => .new

/-- What stands behind the colon. -/
def rest : Text :=
  (match f.authority with
    | some _ => slash :: slash :: f.netloc.to_host_string
    | none => []) ++ (f.path ++ f.search)

def text : Text := f.scheme ++ colon :: f.rest

/-- The parser finds the parts, and prints the text again. -/
def ReadsBack : Prop :=
  ∃ u, parse_absolute_form f.text = .ok u ∧ u.print = f.text ∧ u.netloc = f.netloc ∧
    u.path = f.path ∧ u.search = f.search

/-- The forms whose parts the parser tells apart. -/
def Plain : Prop :=
  match f.authority with
  | some (host, port) => (f.path ≠ [] ∨ slash ∉ f.search) ∧ (port = none ∨ colon ∉ host)
  | none => f.path = [] ∧ f.search ≠ []

end AbsoluteForm

/-! ## The scheme -/

theorem scheme_char_ne {c : UInt8} (h : scheme_char c = true) : c ≠ colon ∧ c ≠ slash := by
  constructor
  · rintro rfl
    cases h
  · rintro rfl
    cases h

theorem drop_scheme {str scheme rest : Text} (hstr : str = scheme ++ colon :: rest) :
    str.drop (scheme.length + 1) = rest := by
  rw [hstr, ← List.drop_drop, List.drop_left, List.drop_one, List.tail_cons]

section

variable {str scheme rest : Text} (hscheme : scheme ≠ [] ∧ ∀ c ∈ scheme, scheme_char c = true)
  (hstr : str = scheme ++ colon :: rest)

include hscheme hstr

theorem parse_scheme_of : parse_scheme str = .ok (scheme, scheme.length) := by
  have hno : colon ∉ scheme := fun hmem => (scheme_char_ne (hscheme.2 colon hmem)).1 rfl
  have hfind : find str colon 0 = some scheme.length := (find_colon hstr hno).1
  have hslashes : two_slashes str 0 = .ok false := by
    cases scheme with
    | nil => exact absurd rfl hscheme.1
    | cons c scheme =>
      exact two_slashes_of_other hstr (scheme_char_ne (hscheme.2 c List.mem_cons_self)).2
  have hsub : substring str 0 (some (0 + scheme.length)) = .ok scheme :=
    substring_of_drop hstr (Nat.zero_le _)
  rw [Nat.zero_add] at hsub
  simp only [parse_scheme, hfind, hslashes, hsub, bind, Except.bind, Bool.false_eq_true, if_false]
  rfl

theorem parse_absolute_of_slashes {w : Text} (hrest : rest = slash :: slash :: w) :
    parse_absolute_form str = parse_with_netloc str scheme (scheme.length + 3) := by
  have htwo : two_slashes str (scheme.length + 1) = .ok true :=
    two_slashes_of_two ((drop_scheme hstr).trans hrest)
  simp only [parse_absolute_form, parse_scheme_of hscheme hstr, htwo, bind, Except.bind, if_true]

theorem parse_absolute_of_end (hrest : rest = [] ∨ rest = [slash]) :
    parse_absolute_form str = .error .undefined := by
  have htwo : two_slashes str (scheme.length + 1) = .error .undefined := by
    rcases hrest with hrest | hrest
    · exact two_slashes_of_end ((drop_scheme hstr).trans hrest)
    · exact two_slashes_of_last ((drop_scheme hstr).trans hrest)
  simp only [parse_absolute_form, parse_scheme_of hscheme hstr, htwo, bind, Except.bind]

theorem parse_absolute_of_search {c : UInt8} {w : Text} (hrest : rest = c :: w)
    (hc : c ≠ slash) : parse_absolute_form str = .ok ⟨.absolute, scheme, .new, [], rest⟩ := by
  have hdrop := drop_scheme hstr
  have hlen : scheme.length + 1 ≤ str.length := by rw [hstr]; simp
  have htwo : two_slashes str (scheme.length + 1) = .ok false :=
    two_slashes_of_other (hdrop.trans hrest) hc
  have hat : char_at str (scheme.length + 1) = .ok c := char_at_of_drop (hdrop.trans hrest)
  have hsub : substring_from str (scheme.length + 1) = .ok rest := substring_from_of_drop hdrop hlen
  simp only [parse_absolute_form, parse_scheme_of hscheme hstr, htwo, hat, hc, hsub, bind,
    Except.bind, Bool.false_eq_true, if_false]
  rfl

/-- Without a netloc the slash of the path is left out. -/
theorem parse_absolute_of_path {d : UInt8} {path search : Text}
    (hrest : rest = slash :: (path ++ search)) (hd : (path ++ search).head? = some d)
    (hslash : d ≠ slash) (hpath : ∀ c ∈ path, c ∉ search_delims)
    (hsearch : ∀ c ∈ search.head?, c ∈ search_delims) :
    parse_absolute_form str = .ok ⟨.absolute, scheme, .new, path, search⟩ := by
  have hdrop := (drop_scheme hstr).trans hrest
  have hdrop' := drop_succ_of_drop hdrop
  have hlen : scheme.length + 2 ≤ str.length := by rw [hstr, hrest]; simp
  obtain ⟨w, hw⟩ : ∃ w, path ++ search = d :: w := by
    cases hps : path ++ search with
    | nil => rw [hps] at hd; cases hd
    | cons e w =>
      rw [hps] at hd
      exact ⟨w, by rw [Option.some.inj hd]⟩
  have htwo : two_slashes str (scheme.length + 1) = .ok false := by
    rw [two_slashes_of_two (hdrop.trans (congrArg _ hw)), decide_eq_false hslash]
  have hat : char_at str (scheme.length + 1) = .ok slash := char_at_of_drop hdrop
  simp only [parse_absolute_form, parse_scheme_of hscheme hstr, htwo, hat, bind, Except.bind,
    Bool.false_eq_true, if_false, if_true]
  cases search with
  | nil =>
    rw [List.append_nil] at hdrop'
    have hfind : find_first_of str search_delims (scheme.length + 2) = none :=
      find_first_of_of_notMem (by rw [hdrop']; exact hpath)
    simp only [hfind, substring_from_of_drop hdrop' hlen]
    rfl
  | cons s search =>
    have hfind : find_first_of str search_delims (scheme.length + 2) =
        some (scheme.length + 2 + path.length) :=
      find_first_of_of_drop hdrop' (hsearch s rfl) hpath
    have hsub := substring_of_drop hdrop' hlen
    have hsearch' : substring_from str (scheme.length + 2 + path.length) = .ok (s :: search) := by
      refine substring_from_of_drop ?_ ?_
      · rw [← List.drop_drop, hdrop', List.drop_left]
      · rw [hstr, hrest]; simp; omega
    simp only [hfind, hsub, hsearch']
    rfl

end

/-! ## The netloc and what comes after it -/

section

variable {str auth path search : Text} {pos : Nat} {n : NetworkLocation}
  (hdrop : str.drop pos = auth ++ (path ++ search)) (hpos : pos ≤ str.length)
  (hslash : slash ∉ auth) (hdelim : ∀ c ∈ auth, c ∉ search_delims)
  (hnetloc : parse_netloc auth = .ok n)
  (hhead : ∀ c ∈ path.head?, c = slash) (hpath : ∀ c ∈ path, c ∉ search_delims)
  (hsearch : ∀ c ∈ search.head?, c ∈ search_delims)

include hdrop hpos

theorem part_at {a b : Text} (h : auth ++ (path ++ search) = a ++ b) :
    substring_from str (pos + a.length) = .ok b := by
  refine substring_from_of_drop ?_ ?_
  · rw [← List.drop_drop, hdrop, h, List.drop_left]
  · have hlen := congrArg List.length (hdrop.trans h)
    rw [List.length_drop, List.length_append] at hlen
    omega

include hslash hdelim hnetloc hhead hpath hsearch

/-- A slash in the search is no path where one stands before it. -/
theorem parse_with_netloc_of_parts (scheme : Text) (h : path ≠ [] ∨ slash ∉ search) :
    parse_with_netloc str scheme pos = .ok ⟨.absolute, scheme, n, path, search⟩ := by
  have hsub := substring_of_drop hdrop hpos
  cases search with
  | nil =>
    have hnodelim : find_first_of str search_delims pos = none := by
      apply find_first_of_of_notMem
      rw [hdrop, List.append_nil]
      intro c hc
      exact (List.mem_append.mp hc).elim (hdelim c) (hpath c)
    cases path with
    | nil =>
      have hnoslash : find str slash pos = none :=
        find_of_notMem (by rw [hdrop]; simpa using hslash)
      have hauth : substring_from str pos = .ok auth :=
        substring_from_of_drop (by rw [hdrop]; simp) hpos
      simp only [parse_with_netloc, hnodelim, hnoslash, min_pos, substring, hauth, hnetloc, bind,
        Except.bind]
      rfl
    | cons c path =>
      obtain rfl := hhead c rfl
      have hfirst : find str slash pos = some (pos + auth.length) := find_of_drop hdrop hslash
      have hpart := part_at hdrop hpos (a := auth) rfl
      rw [List.append_nil] at hpart
      simp only [parse_with_netloc, hnodelim, hfirst, min_pos, hsub, hnetloc, hpart, bind,
        Except.bind]
      rfl
  | cons d search =>
    have hd : d ∈ search_delims := hsearch d rfl
    have hfound : find_first_of str search_delims pos = some (pos + (auth ++ path).length) := by
      refine find_first_of_of_drop (by rw [hdrop, List.append_assoc]) hd ?_
      intro c hc
      exact (List.mem_append.mp hc).elim (hdelim c) (hpath c)
    have hpart := part_at hdrop hpos (List.append_assoc auth path (d :: search)).symm
    cases path with
    | nil =>
      have hno : slash ∉ d :: search := h.resolve_left (not_not_intro rfl)
      have hnoslash : find str slash pos = none := by
        apply find_of_notMem
        rw [hdrop, List.nil_append, List.mem_append]
        exact not_or.mpr ⟨hslash, hno⟩
      rw [List.append_nil] at hfound hpart
      simp only [parse_with_netloc, hfound, hnoslash, min_pos, hsub, hnetloc, hpart, bind,
        Except.bind]
      rfl
    | cons c path =>
      obtain rfl := hhead c rfl
      have hfirst : find str slash pos = some (pos + auth.length) := find_of_drop hdrop hslash
      have hlen : pos + (auth ++ slash :: path).length =
          pos + auth.length + (slash :: path).length := by
        rw [List.length_append, Nat.add_assoc]
      have hlt : pos + auth.length < pos + (auth ++ slash :: path).length := by
        rw [hlen, List.length_cons]
        omega
      have hmin : min (pos + (auth ++ slash :: path).length) (pos + auth.length) =
          pos + auth.length := Nat.min_eq_right (Nat.le_of_lt hlt)
      have hpath' : substring str (pos + auth.length)
          (some (pos + (auth ++ slash :: path).length)) = .ok (slash :: path) := by
        rw [hlen]
        refine substring_of_drop (b := d :: search) ?_ ?_
        · rw [← List.drop_drop, hdrop, List.drop_left]
        · have hle := congrArg List.length hdrop
          rw [List.length_drop, List.length_append] at hle
          omega
      simp only [parse_with_netloc, hfound, hfirst, min_pos, hmin, hsub, hnetloc, hlt, hpath',
        hpart, bind, Except.bind, if_true]
      rfl

/-- Without a path the first slash of the search is taken for one. -/
theorem parse_with_netloc_of_slash (scheme : Text) (h : path = []) (hmem : slash ∈ search) :
    ∃ p, p ≠ [] ∧ parse_with_netloc str scheme pos = .ok ⟨.absolute, scheme, n, p, []⟩ := by
  subst h
  obtain ⟨a, b, rfl, ha⟩ := List.eq_append_cons_of_mem hmem
  refine ⟨slash :: b, List.cons_ne_nil slash b, ?_⟩
  cases a with
  | nil => exact absurd (hsearch slash rfl) (by decide)
  | cons d a =>
    have hd : d ∈ search_delims := hsearch d rfl
    have hsub := substring_of_drop hdrop hpos
    have hfound : find_first_of str search_delims pos = some (pos + auth.length) :=
      find_first_of_of_drop hdrop hd hdelim
    have hfirst : find str slash pos = some (pos + (auth ++ d :: a).length) := by
      refine find_of_drop (by rw [hdrop, List.append_assoc]; rfl) ?_
      rw [List.mem_append]
      exact not_or.mpr ⟨hslash, ha⟩
    have hle : pos + auth.length ≤ pos + (auth ++ d :: a).length := by
      rw [List.length_append]
      omega
    have hpart := part_at hdrop hpos (List.append_assoc auth (d :: a) (slash :: b)).symm
    simp only [parse_with_netloc, hfound, hfirst, min_pos, Nat.min_eq_left hle, hsub, hnetloc,
      Nat.not_lt.mpr hle, hpart, bind, Except.bind, if_false]
    rfl

theorem parse_with_netloc_eq (scheme : Text) :
    ∃ p s, parse_with_netloc str scheme pos = .ok ⟨.absolute, scheme, n, p, s⟩ ∧
      (p = path ∧ s = search ↔ path ≠ [] ∨ slash ∉ search) := by
  by_cases h : path ≠ [] ∨ slash ∉ search
  · exact ⟨path, search, parse_with_netloc_of_parts hdrop hpos hslash hdelim hnetloc hhead hpath
      hsearch scheme h, iff_of_true ⟨rfl, rfl⟩ h⟩
  · obtain ⟨hnil, hmem⟩ := not_or.mp h
    obtain ⟨p, hp, hwith⟩ := parse_with_netloc_of_slash hdrop hpos hslash hdelim hnetloc hhead hpath
      hsearch scheme (not_not.mp hnil) (not_not.mp hmem)
    refine ⟨p, [], hwith, iff_of_false ?_ h⟩
    rintro ⟨rfl, -⟩
    exact hnil hp

end

/-! ## The round trip -/

namespace AbsoluteForm

variable {f : AbsoluteForm}

theorem rest_none (h : f.authority = none) : f.rest = f.path ++ f.search := by
  simp [rest, h]

theorem rest_some {host : Text} {port : Option UInt16} (h : f.authority = some (host, port)) :
    f.rest = slash :: slash ::
      ((⟨[], [], host, port⟩ : NetworkLocation).to_host_string ++ (f.path ++ f.search)) := by
  simp [rest, netloc, h]

/-- Digits and a colon are no delimiters. -/
theorem host_string_plain {n : NetworkLocation} (h : Authority n.host) :
    slash ∉ n.to_host_string ∧ ∀ c ∈ n.to_host_string, c ∉ search_delims := by
  refine ⟨fun hmem => h.no_slash (NetworkLocation.to_host_string_subset rfl (by decide) hmem), ?_⟩
  intro c hc hdelim
  have hnone : digit c = none ∧ c ≠ colon := by
    have hmem : c ∈ [59, 63, 35] := hdelim
    simp only [List.mem_cons, List.not_mem_nil, or_false] at hmem
    rcases hmem with rfl | rfl | rfl <;> decide
  exact h.no_delim c (NetworkLocation.to_host_string_subset hnone.1 hnone.2 hc) hdelim

theorem print_some {host : Text} {port : Option UInt16} (h : f.authority = some (host, port))
    (hhost : host ≠ []) : Url.print ⟨.absolute, f.scheme, ⟨[], [], host, port⟩, f.path, f.search⟩ =
      f.text := by
  have hempty : NetworkLocation.empty ⟨[], [], host, port⟩ = false := by
    simp [NetworkLocation.empty, hhost]
  have hnetloc := NetworkLocation.print_of_no_user (n := ⟨[], [], host, port⟩) hhost rfl
  have hslashes : util.string.text "//" = [slash, slash] := rfl
  unfold print text
  simp only [f.scheme_.1, if_false, hempty, hnetloc, rest_some h, hslashes, Bool.false_eq_true,
    List.append_assoc, List.cons_append, List.nil_append]

theorem reads_back_some {host : Text} {port : Option UInt16}
    (h : f.authority = some (host, port)) : f.ReadsBack ↔
      (f.path ≠ [] ∨ slash ∉ f.search) ∧ (port = none ∨ colon ∉ host) := by
  have hauth : Authority host := f.authority_ _ h
  obtain ⟨hslash, hdelim⟩ := host_string_plain (n := ⟨[], [], host, port⟩) hauth
  have hnetloc : f.netloc = ⟨[], [], host, port⟩ := by simp [netloc, h]
  have hstr : f.text = f.scheme ++ colon :: f.rest := rfl
  have hparse := parse_absolute_of_slashes f.scheme_ hstr (rest_some h)
  have hhost := hauth.parse_host_string (n := ⟨[], [], host, port⟩)
  have hdrop : f.text.drop (f.scheme.length + 3) =
      (⟨[], [], host, port⟩ : NetworkLocation).to_host_string ++ (f.path ++ f.search) := by
    have hrest := drop_scheme hstr
    rw [rest_some h] at hrest
    exact drop_succ_of_drop (drop_succ_of_drop hrest)
  have hpos : f.scheme.length + 3 ≤ f.text.length := by
    rw [hstr, rest_some h]
    simp
  obtain ⟨hhead, -, hpath⟩ := f.path_
  obtain ⟨n, hn, hfound⟩ : ∃ n, parse_netloc
      (⟨[], [], host, port⟩ : NetworkLocation).to_host_string = .ok n ∧
      (n = ⟨[], [], host, port⟩ ↔ port = none ∨ colon ∉ host) := by
    by_cases hport : port = none ∨ colon ∉ host
    · exact ⟨_, hhost.trans (if_pos hport), iff_of_true rfl hport⟩
    · refine ⟨_, hhost.trans (if_neg hport), iff_of_false ?_ hport⟩
      intro hsame
      exact hport (.inl (congrArg NetworkLocation.port hsame).symm)
  obtain ⟨p, s, hwith, hparts⟩ := parse_with_netloc_eq hdrop hpos hslash hdelim hn hhead hpath
    f.search_ f.scheme
  rw [hwith] at hparse
  rw [← hparts, ← hfound]
  constructor
  · rintro ⟨u, hu, -, hsame, hpath', hsearch⟩
    obtain rfl := Except.ok.inj (hparse.symm.trans hu)
    exact ⟨⟨hpath', hsearch⟩, hsame.trans hnetloc⟩
  · rintro ⟨⟨rfl, rfl⟩, rfl⟩
    exact ⟨_, hparse, print_some h hauth.some_, hnetloc.symm, rfl, rfl⟩

theorem reads_back_none (h : f.authority = none) :
    f.ReadsBack ↔ f.path = [] ∧ f.search ≠ [] := by
  have hstr : f.text = f.scheme ++ colon :: f.rest := rfl
  have hnetloc : f.netloc = .new := by simp [netloc, h]
  obtain ⟨hhead, hsingle, hpath⟩ := f.path_
  have hrest := rest_none h
  cases hp : f.path with
  | nil =>
    rw [hp, List.nil_append] at hrest
    cases hs : f.search with
    | nil =>
      have hparse := parse_absolute_of_end f.scheme_ hstr (.inl (hrest.trans hs))
      refine iff_of_false ?_ (fun hand => hand.2 rfl)
      rintro ⟨u, hu, -⟩
      cases hparse.symm.trans hu
    | cons d search =>
      have hd : d ∈ search_delims := f.search_ d (by rw [hs]; rfl)
      have hne : d ≠ slash := by
        rintro rfl
        exact absurd hd (by decide)
      have hparse := parse_absolute_of_search f.scheme_ hstr (hrest.trans hs) hne
      refine iff_of_true ⟨_, hparse, ?_, hnetloc.symm, hp.symm, hrest⟩ ⟨rfl, by simp⟩
      simp [print, text, f.scheme_.1, NetworkLocation.new, NetworkLocation.empty,
        NetworkLocation.print]
  | cons c path =>
    obtain rfl := hhead c (by rw [hp]; rfl)
    rw [hp, List.cons_append] at hrest
    refine iff_of_false ?_ (fun hand => by cases hand.1)
    rintro ⟨u, hu, -, -, hsame, -⟩
    cases hps : path ++ f.search with
    | nil =>
      rw [hps] at hrest
      cases (parse_absolute_of_end f.scheme_ hstr (.inr hrest)).symm.trans hu
    | cons d w =>
      have hne : d ≠ slash := by
        cases path with
        | nil =>
          rw [List.nil_append] at hps
          rintro rfl
          exact absurd (f.search_ slash (by rw [hps]; rfl)) (by decide)
        | cons e path =>
          rintro rfl
          rw [hp, ← (List.cons.inj hps).1] at hsingle
          exact hsingle rfl
      have hpath' : ∀ c ∈ path, c ∉ search_delims := fun c hc =>
        hpath c (by rw [hp]; exact List.mem_cons_of_mem _ hc)
      have hparse := parse_absolute_of_path f.scheme_ hstr hrest (by rw [hps]; rfl) hne hpath'
        f.search_
      obtain rfl := Except.ok.inj (hparse.symm.trans hu)
      have hlen := congrArg List.length (hsame.trans hp)
      simp at hlen

end AbsoluteForm

/-- An absolute form is read back iff there is an authority, whose port is not behind a literal with
a colon, and no search with a slash right behind it; or else there is a search and no path. -/
theorem an_absolute_form_reads_back_iff (f : AbsoluteForm) : f.ReadsBack ↔ f.Plain := by
  unfold AbsoluteForm.Plain
  split
  · rename_i host port h
    exact f.reads_back_some h
  · rename_i h
    exact f.reads_back_none h

/-- `http://a?b/c`. -/
def a_search_with_a_slash : AbsoluteForm where
  scheme := util.string.text "http"
  authority := some (util.string.text "a", none)
  path := []
  search := util.string.text "?b/c"
  scheme_ := ⟨by decide, List.all_eq_true.mp rfl⟩
  authority_ := by
    intro a ha
    obtain rfl := Option.some.inj ha
    refine ⟨⟨by decide, .name (by decide) (by decide), by decide, by decide⟩, ?_⟩
    exact List.forall_mem_singleton.mpr (by decide)
  path_ := by simp
  search_ := by
    intro c hc
    obtain rfl := Option.some.inj hc
    decide

/-- The search is lost up to its slash. -/
theorem a_search_with_a_slash_does_not_read_back :
    parse_absolute_form a_search_with_a_slash.text = .ok ⟨.absolute, a_search_with_a_slash.scheme,
        a_search_with_a_slash.netloc, util.string.text "/c", []⟩ ∧
      ¬ a_search_with_a_slash.ReadsBack := by
  have hparse : parse_absolute_form a_search_with_a_slash.text = .ok ⟨.absolute,
      a_search_with_a_slash.scheme, a_search_with_a_slash.netloc, util.string.text "/c", []⟩ := by
    decide
  refine ⟨hparse, ?_⟩
  rintro ⟨u, hu, -, -, hpath, -⟩
  obtain rfl := Except.ok.inj (hparse.symm.trans hu)
  cases hpath

end proxy.http.Url
