-- When the parsers of `url.cpp` stay inside of the texts that they are given.
import Aether.Http.TextPositions
import Aether.Http.UrlAccesses

open util.string lib.traced

namespace proxy.http

/-! ## Searches -/

/-- The first of both is the first of either. -/
theorem findIdx?_or {α : Type} (p q : α → Bool) (l : List α) :
    l.findIdx? (fun a => p a || q a) = Url.min_pos (l.findIdx? p) (l.findIdx? q) := by
  induction l with
  | nil => rfl
  | cons a l ih =>
    rw [List.findIdx?_cons, List.findIdx?_cons, List.findIdx?_cons, ih]
    cases p a <;> cases q a <;> cases l.findIdx? p <;> cases l.findIdx? q <;>
      simp [Url.min_pos, Nat.add_min_add_right]

namespace Url

/-- Delimiters for the path and search part of the URL. -/
def search_path_delims : Text := text "/;?#"

theorem min_pos_find (src : Text) (pos : Nat) :
    min_pos (find_first_of src search_delims pos) (find src slash pos) =
      find_first_of src search_path_delims pos := by
  have hor : (fun d => search_path_delims.contains d) =
      fun d => search_delims.contains d || d == slash := by
    funext d
    have hdelims : search_path_delims = slash :: search_delims := rfl
    rw [hdelims, List.contains_cons, Bool.or_comm]
  unfold find_first_of find
  rw [hor, findIdx?_or]
  cases (src.drop pos).findIdx? (fun d => search_delims.contains d) <;>
    cases (src.drop pos).findIdx? (fun d => d == slash) <;>
      simp [min_pos, Nat.add_min_add_left]

/-- The part up to the first delimiter. -/
theorem substring_to_first {src : Text} {pos : Nat} (hpos : pos ≤ src.length) (cs : Text) :
    ∃ a b, src.drop pos = a ++ b ∧ (∀ c ∈ a, c ∉ cs) ∧ (∀ c ∈ b.head?, c ∈ cs) ∧
      substring src pos (find_first_of src cs pos) = .ok a := by
  cases hfind : find_first_of src cs pos with
  | none =>
    refine ⟨src.drop pos, [], (List.append_nil _).symm, ?_, by simp, ?_⟩
    · have hnone := List.findIdx?_eq_none_iff.mp (Option.map_eq_none_iff.mp hfind)
      simpa using hnone
    · exact substring_from_of_drop rfl hpos
  | some i =>
    obtain ⟨k, hk, rfl⟩ := Option.map_eq_some_iff.mp hfind
    obtain ⟨hlt, hat, hbefore⟩ := List.findIdx?_eq_some_iff_getElem.mp hk
    refine ⟨(src.drop pos).take k, (src.drop pos).drop k, (List.take_append_drop k _).symm, ?_, ?_,
      ?_⟩
    · intro c hc
      obtain ⟨j, hj, rfl⟩ := List.getElem_of_mem hc
      rw [List.getElem_take]
      have hjk : j < k := Nat.lt_of_lt_of_le hj (List.length_take_le k _)
      simpa using hbefore j hjk
    · intro c hc
      rw [List.drop_eq_getElem_cons hlt] at hc
      obtain rfl := Option.some.inj hc
      simpa using hat
    · have hlen : ((src.drop pos).take k).length = k := by
        rw [List.length_take, Nat.min_eq_left (Nat.le_of_lt hlt)]
      have hsub := substring_of_drop (List.take_append_drop k (src.drop pos)).symm hpos
      rwa [hlen] at hsub

/-- The reads of two characters. -/
theorem two_slashes_eq {src : Text} {pos : Nat} (h : src.drop pos ≠ [])
    (h' : src.drop pos ≠ [slash]) :
    two_slashes src pos = .ok (decide ((src.drop pos).take 2 = [slash, slash])) := by
  rcases hdrop : src.drop pos with _ | ⟨c, _ | ⟨d, rest⟩⟩
  · exact absurd hdrop h
  · have hc : c ≠ slash := by
      rintro rfl
      exact h' hdrop
    simp [two_slashes_of_other hdrop hc]
  · by_cases hc : c = slash
    · subst hc
      simp [two_slashes_of_two hdrop]
    · simp [two_slashes_of_other hdrop hc, hc]

/-! ## The conditions -/

/-- Where a scheme ends: at the first character if there is none. -/
def scheme_end (str : Text) : Nat :=
  if str.take 2 = [slash, slash] then 0 else (find str colon 0).getD 0

/-- What an absolute form has behind its colon, or else behind its first character. -/
def behind_scheme (str : Text) : Text := str.drop (scheme_end str + 1)

/-- Something stands there, and not a slash alone; behind two slashes an authority begins. -/
structure AbsoluteInside (str : Text) : Prop where
  some_ : behind_scheme str ≠ []
  path : behind_scheme str ≠ [slash]
  authority : (behind_scheme str).take 2 = [slash, slash] →
    ∃ c ∈ ((behind_scheme str).drop 2).head?, c ∉ search_path_delims

def TargetInside (str : Text) (verb : Method) : Prop :=
  str = text "*" ∨ str.head? = some slash ∨
    if verb = .CONNECT then str ≠ [] else AbsoluteInside str

/-! ## The parsers -/

namespace traced

variable {str : Text}

theorem inside_from {src : Text} {start : Nat} (h : start ≤ src.length) :
    (substring_from src start).All Access.Inside :=
  (Traced.all_access _ _).mpr ⟨h, fun _ hi => (by cases hi)⟩

theorem inside_part {src : Text} {start stop : Nat} (h : start ≤ src.length) (hle : start ≤ stop) :
    (substring src start (some stop)).All Access.Inside := by
  refine (Traced.all_access _ _).mpr ⟨h, ?_⟩
  intro i hi
  obtain rfl := Option.some.inj hi
  exact hle

theorem inside_char {src : Text} {pos : Nat} :
    (char_at src pos).All Access.Inside ↔ src.drop pos ≠ [] := by
  rw [Ne, List.drop_eq_nil_iff, Nat.not_le]
  exact Traced.all_access _ _

theorem inside_two_slashes {src : Text} {pos : Nat} :
    (two_slashes src pos).All Access.Inside ↔ src.drop pos ≠ [] ∧ src.drop pos ≠ [slash] := by
  unfold two_slashes
  rw [Traced.all_bind, inside_char]
  refine and_congr_right ?_
  intro hsome
  obtain ⟨c, rest, hdrop⟩ := List.exists_cons_of_ne_nil hsome
  have hat : (char_at src pos).result = .ok c := char_at_of_drop hdrop
  have hrest : src.drop (pos + 1) = rest := drop_succ_of_drop hdrop
  rw [hat, hdrop]
  constructor
  · intro h hslash
    obtain ⟨rfl, rfl⟩ := List.cons.inj hslash
    have hread := h slash rfl
    rw [if_pos rfl, Traced.all_bind, inside_char, hrest] at hread
    exact hread.1 rfl
  · intro h c' hc'
    obtain rfl := Except.ok.inj hc'
    split
    · rename_i hslash
      refine Traced.all_bind_of (inside_char.mpr ?_) (fun _ _ => Traced.all_pure _)
      rw [hrest]
      rintro rfl
      exact h (by rw [hslash])
    · exact Traced.all_pure _

theorem inside_password (start user_end : Nat) :
    (parse_password str start user_end).All Access.Inside := by
  unfold parse_password
  split
  · exact Traced.all_pure _
  · rename_i password_start hfind
    obtain ⟨-, hlt⟩ := find_range hfind
    split
    · rename_i hbefore
      exact inside_part hlt hbefore
    · exact Traced.all_pure _

theorem inside_user (start : Nat) (netloc : NetworkLocation) :
    (parse_user str start netloc).All Access.Inside := by
  unfold parse_user
  split
  · exact Traced.all_pure _
  · rename_i user_end hfind
    obtain ⟨hle, hlt⟩ := find_range hfind
    refine Traced.all_bind_of (inside_password start user_end) (fun _ _ => ?_)
    exact Traced.all_bind_of (inside_part (by omega) hle) (fun _ _ => Traced.all_pure _)

theorem user_start {start start' : Nat} {netloc netloc' : NetworkLocation}
    (h : (parse_user str start netloc).result = .ok (netloc', start')) (hle : start ≤ str.length) :
    start' ≤ str.length := by
  rw [user_result] at h
  unfold Url.parse_user at h
  split at h
  · obtain ⟨-, rfl⟩ := Prod.mk.inj (Except.ok.inj h)
    exact hle
  · rename_i user_end hfind
    obtain ⟨password, -, h⟩ := bind_eq_ok.mp h
    obtain ⟨username, -, h⟩ := bind_eq_ok.mp h
    obtain ⟨-, rfl⟩ := Prod.mk.inj (Except.ok.inj h)
    exact Nat.le_of_lt (find_range hfind).2

theorem inside_host (netloc : NetworkLocation) {start : Nat} (hle : start ≤ str.length) :
    (parse_host str netloc start).All Access.Inside := by
  unfold parse_host
  split
  · exact Traced.all_bind_of (inside_from hle) (fun _ _ => Traced.all_pure _)
  · rename_i port_start hfind
    obtain ⟨hstart, hlt⟩ := find_range hfind
    refine Traced.all_bind_of (inside_from hlt) (fun _ _ => ?_)
    split
    · exact Traced.all_bind_of (inside_part hle hstart) (fun _ _ => Traced.all_pure _)
    · exact Traced.all_bind_of (inside_part hle hle) (fun _ _ => Traced.all_pure _)

/-- `parse_netloc` reads the first character, and the second one behind a slash. -/
theorem inside_netloc : (parse_netloc str).All Access.Inside ↔ str ≠ [] ∧ str ≠ [slash] := by
  unfold parse_netloc
  rw [Traced.all_bind, inside_two_slashes, List.drop_zero]
  refine and_iff_left_of_imp ?_
  rintro ⟨hsome, hslash⟩ slashes hresult
  have htwo : http.two_slashes str 0 = .ok (decide (str.take 2 = [slash, slash])) :=
    two_slashes_eq (show str.drop 0 ≠ [] from hsome) (show str.drop 0 ≠ [slash] from hslash)
  have hslashes := Except.ok.inj (htwo.symm.trans ((two_slashes_result str 0).symm.trans hresult))
  have hle : (if slashes then 2 else 0) ≤ str.length := by
    split
    · rename_i htrue
      rw [htrue, decide_eq_true_iff] at hslashes
      have hlen := congrArg List.length hslashes
      rw [List.length_take] at hlen
      simp at hlen
      omega
    · exact Nat.zero_le _
  refine Traced.all_bind_of (inside_user _ _) ?_
  rintro ⟨netloc, start⟩ huser
  exact inside_host netloc (user_start huser hle)

theorem inside_path (scheme : Text) (netloc : NetworkLocation) (pos : Nat) :
    (parse_path str scheme netloc (find str slash pos)
      (find_first_of str search_delims pos)).All Access.Inside := by
  cases hslash : find str slash pos with
  | none =>
    cases hdelim : find_first_of str search_delims pos with
    | none => exact Traced.all_pure _
    | some delim =>
      have hlt := (find_first_of_range hdelim).2
      exact Traced.all_bind_of (inside_from (Nat.le_of_lt hlt)) (fun _ _ => Traced.all_pure _)
  | some first_slash =>
    have hfirst := Nat.le_of_lt (find_range hslash).2
    cases hdelim : find_first_of str search_delims pos with
    | none => exact Traced.all_bind_of (inside_from hfirst) (fun _ _ => Traced.all_pure _)
    | some delim =>
      have hlt := (find_first_of_range hdelim).2
      simp only [parse_path]
      split
      · rename_i hbefore
        refine Traced.all_bind_of (inside_part hfirst (Nat.le_of_lt hbefore)) (fun _ _ => ?_)
        exact Traced.all_bind_of (inside_from (Nat.le_of_lt hlt)) (fun _ _ => Traced.all_pure _)
      · exact Traced.all_bind_of (inside_from hfirst) (fun _ _ => Traced.all_pure _)

theorem inside_with_netloc (scheme : Text) {pos : Nat} (hpos : pos ≤ str.length) :
    (parse_with_netloc str scheme pos).All Access.Inside ↔
      ∃ c ∈ (str.drop pos).head?, c ∉ search_path_delims := by
  obtain ⟨a, b, hdrop, hbefore, hnext, hsub⟩ := substring_to_first hpos search_path_delims
  have hpart :
      (substring str pos (find_first_of str search_path_delims pos)).All Access.Inside := by
    refine (Traced.all_access _ _).mpr ⟨hpos, ?_⟩
    intro i hi
    exact (find_first_of_range hi).1
  have hslash : a ≠ [slash] := by
    rintro rfl
    exact hbefore slash List.mem_cons_self (by decide)
  have hhead : a ≠ [] ↔ ∃ c ∈ (str.drop pos).head?, c ∉ search_path_delims := by
    rw [hdrop]
    cases a with
    | nil =>
      refine iff_of_false (not_not_intro rfl) ?_
      rintro ⟨c, hc, hnot⟩
      exact hnot (hnext c hc)
    | cons c a => exact iff_of_true (List.cons_ne_nil c a) ⟨c, rfl, hbefore c List.mem_cons_self⟩
  unfold parse_with_netloc
  simp only [min_pos_find]
  rw [Traced.all_bind, and_iff_right hpart, ← hhead]
  constructor
  · intro h
    have hnetloc := (Traced.all_bind.mp (h a hsub)).1
    exact (inside_netloc.mp hnetloc).1
  · intro hsome text htext
    obtain rfl := Except.ok.inj (hsub.symm.trans htext)
    refine Traced.all_bind_of (inside_netloc.mpr ⟨hsome, hslash⟩) (fun _ _ => ?_)
    exact inside_path scheme _ pos

/-- A scheme is found without a read outside. -/
theorem inside_scheme (str : Text) : (parse_scheme str).All Access.Inside ∧
    ∃ scheme, (parse_scheme str).result = .ok (scheme, scheme_end str) := by
  unfold parse_scheme scheme_end
  cases hfind : find str colon 0 with
  | none =>
    have hend : (if str.take 2 = [slash, slash] then 0 else (none : Option Nat).getD 0) = 0 :=
      ite_self 0
    exact ⟨Traced.all_pure _, [], by rw [hend]; rfl⟩
  | some i =>
    obtain ⟨a, b, hstr, -, -⟩ := find_eq_some hfind
    rw [List.drop_zero] at hstr
    have hmem : colon ∈ str := by rw [hstr]; simp
    have hsome : str.drop 0 ≠ [] := List.ne_nil_of_mem hmem
    have hslash : str.drop 0 ≠ [slash] := by
      intro hsame
      rw [List.drop_zero] at hsame
      rw [hsame] at hmem
      exact absurd (List.mem_singleton.mp hmem) (by decide)
    have htwo := two_slashes_eq hsome hslash
    rw [List.drop_zero] at htwo
    have hlt := (find_range hfind).2
    have hpart := inside_part (Nat.zero_le str.length) (Nat.zero_le i)
    constructor
    · refine Traced.all_bind_of (inside_two_slashes.mpr ⟨hsome, hslash⟩) (fun slashes _ => ?_)
      split
      · exact Traced.all_pure _
      · exact Traced.all_bind_of hpart (fun _ _ => Traced.all_pure _)
    · obtain ⟨scheme, hscheme⟩ : ∃ scheme, http.substring str 0 (some i) = .ok scheme :=
        ⟨str.take i, by simp [http.substring, http.substring_from, Except.map]⟩
      by_cases hslashes : str.take 2 = [slash, slash]
      · refine ⟨[], ?_⟩
        rw [Traced.result_bind, two_slashes_result, htwo, if_pos hslashes, decide_eq_true hslashes]
        rfl
      · refine ⟨scheme, ?_⟩
        rw [Traced.result_bind, two_slashes_result, htwo, if_neg hslashes, decide_eq_false hslashes]
        simp only [bind, Except.bind, Bool.false_eq_true, if_false]
        exact congrArg (Except.bind · (fun text => .ok (text, i))) hscheme

theorem inside_without_netloc (scheme : Text) {pos : Nat} (hpos : pos ≤ str.length) :
    (parse_without_netloc str scheme pos).All Access.Inside := by
  unfold parse_without_netloc
  split
  · rename_i delim hdelim
    obtain ⟨hle, hlt⟩ := find_first_of_range hdelim
    refine Traced.all_bind_of (inside_part hpos hle) (fun _ _ => ?_)
    exact Traced.all_bind_of (inside_from (Nat.le_of_lt hlt)) (fun _ _ => Traced.all_pure _)
  · exact Traced.all_bind_of (inside_from hpos) (fun _ _ => Traced.all_pure _)

/-- Behind a scheme that ends at `pos`. -/
theorem inside_behind_scheme (scheme : Text) {pos : Nat} {rest : Text}
    (hrest : str.drop (pos + 1) = rest) (hsome : rest ≠ []) (hslash : rest ≠ [slash]) :
    (do if ← two_slashes str (pos + 1) then parse_with_netloc str scheme (pos + 3)
        else if (← char_at str (pos + 1)) = slash then parse_without_netloc str scheme (pos + 2)
        else return ⟨.absolute, scheme, .new, [], ← substring_from str (pos + 1)⟩ :
      Parser Url).All Access.Inside ↔
      (rest.take 2 = [slash, slash] → ∃ c ∈ (rest.drop 2).head?, c ∉ search_path_delims) := by
  have hlen := congrArg List.length hrest
  rw [List.length_drop] at hlen
  have hpos := List.length_pos_iff.mpr hsome
  have htwo := two_slashes_eq (hrest ▸ hsome) (hrest ▸ hslash)
  rw [← two_slashes_result, hrest] at htwo
  have hinside := inside_two_slashes.mpr ⟨hrest ▸ hsome, hrest ▸ hslash⟩
  by_cases hslashes : rest.take 2 = [slash, slash]
  · have hlen2 := congrArg List.length hslashes
    rw [List.length_take, List.length_cons, List.length_singleton] at hlen2
    have hdrop : str.drop (pos + 3) = rest.drop 2 := by rw [← hrest, List.drop_drop]
    have hwith := inside_with_netloc scheme (show pos + 3 ≤ str.length by omega)
    rw [hdrop] at hwith
    rw [decide_eq_true hslashes] at htwo
    rw [Traced.all_bind, and_iff_right hinside, forall_prop_of_true hslashes, ← hwith]
    constructor
    · intro h
      exact h true htwo
    · intro h slashes hslashes'
      obtain rfl := Except.ok.inj (htwo.symm.trans hslashes')
      exact h
  · rw [decide_eq_false hslashes] at htwo
    refine iff_of_true (Traced.all_bind_of hinside (fun slashes hslashes' => ?_))
      (fun h => absurd h hslashes)
    obtain rfl := Except.ok.inj (htwo.symm.trans hslashes')
    rw [if_neg Bool.false_ne_true]
    refine Traced.all_bind_of (inside_char.mpr (hrest ▸ hsome)) (fun c hc => ?_)
    split
    · rename_i heq
      obtain ⟨d, rest', hcons⟩ := List.exists_cons_of_ne_nil hsome
      have hat : (char_at str (pos + 1)).result = .ok d := char_at_of_drop (hrest.trans hcons)
      obtain rfl := Except.ok.inj (hat.symm.trans hc)
      have hrest' : rest' ≠ [] := by
        rintro rfl
        exact hslash (by rw [hcons, heq])
      have hpos' := List.length_pos_iff.mpr hrest'
      rw [hcons, List.length_cons] at hlen
      exact inside_without_netloc scheme (by omega)
    · exact Traced.all_bind_of (inside_from (by omega)) (fun _ _ => Traced.all_pure _)

theorem inside_absolute_form :
    (parse_absolute_form str).All Access.Inside ↔ AbsoluteInside str := by
  obtain ⟨hscheme, scheme, hresult⟩ := inside_scheme str
  unfold parse_absolute_form
  rw [Traced.all_bind, and_iff_right hscheme]
  have hbehind : str.drop (scheme_end str + 1) = behind_scheme str := rfl
  constructor
  · intro h
    have hrun := h _ hresult
    obtain ⟨hsome, hslash⟩ := inside_two_slashes.mp (Traced.all_bind.mp hrun).1
    exact ⟨hsome, hslash, (inside_behind_scheme scheme hbehind hsome hslash).mp hrun⟩
  · intro h found hfound
    obtain rfl := Except.ok.inj (hresult.symm.trans hfound)
    exact (inside_behind_scheme scheme hbehind h.some_ h.path).mpr h.authority

theorem inside_origin_form : (parse_origin_form str).All Access.Inside := by
  unfold parse_origin_form
  split
  · rename_i delim hdelim
    obtain ⟨hle, hlt⟩ := find_first_of_range hdelim
    refine Traced.all_bind_of (inside_part (Nat.zero_le _) hle) (fun _ _ => ?_)
    exact Traced.all_bind_of (inside_from (Nat.le_of_lt hlt)) (fun _ _ => Traced.all_pure _)
  · exact Traced.all_pure _

theorem inside_authority_form : (parse_authority_form str).All Access.Inside := by
  unfold parse_authority_form
  split
  · exact Traced.all_of _
  · rename_i port_pos hfind
    obtain ⟨hle, hlt⟩ := find_range hfind
    refine Traced.all_bind_of (inside_from hlt) (fun _ _ => ?_)
    refine Traced.all_bind_of (Traced.all_of _) (fun _ _ => ?_)
    exact Traced.all_bind_of (inside_part (Nat.zero_le _) hle) (fun _ _ => Traced.all_pure _)

theorem inside_target {verb : Method} :
    (parse_target str verb).All Access.Inside ↔ TargetInside str verb := by
  unfold parse_target TargetInside
  by_cases hstar : str = text "*"
  · rw [if_pos hstar]
    exact iff_of_true (Traced.all_pure _) (.inl hstar)
  rw [if_neg hstar, or_iff_right hstar, Traced.all_bind, inside_char, List.drop_zero]
  cases str with
  | nil =>
    refine iff_of_false (fun h => h.1 rfl) ?_
    rintro (h | h)
    · cases h
    · split at h
      · exact h rfl
      · exact h.some_ rfl
  | cons c rest =>
    rw [and_iff_right (List.cons_ne_nil c rest)]
    have hhead : (char_at (c :: rest) 0).result = .ok c := rfl
    have hread : ∀ p : UInt8 → Prop, (∀ d, (char_at (c :: rest) 0).result = .ok d → p d) ↔ p c := by
      intro p
      rw [hhead]
      exact ⟨fun h => h c rfl, fun h d hd => Except.ok.inj hd ▸ h⟩
    rw [hread]
    by_cases hslash : c = slash
    · rw [if_pos hslash]
      exact iff_of_true inside_origin_form (.inl (congrArg some hslash))
    · have hnot : (c :: rest).head? ≠ some slash := fun h => hslash (Option.some.inj h)
      rw [if_neg hslash, or_iff_right hnot]
      split
      · exact iff_of_true inside_authority_form (List.cons_ne_nil c rest)
      · exact inside_absolute_form

/-- `parse` is `parse_target` with a method that is not CONNECT. -/
theorem inside_parse : (parse str).All Access.Inside ↔ TargetInside str .GET := by
  rw [← inside_target]
  rfl

/-! ## All of them -/

/-- The parsers stay inside exactly where a character stands at each place that they look at. -/
theorem the_parsers_stay_inside_iff (str : Text) (verb : Method) :
    ((parse_netloc str).All Access.Inside ↔ str ≠ [] ∧ str ≠ [slash]) ∧
      ((parse_absolute_form str).All Access.Inside ↔ AbsoluteInside str) ∧
      ((parse str).All Access.Inside ↔ TargetInside str .GET) ∧
      ((parse_target str verb).All Access.Inside ↔ TargetInside str verb) :=
  ⟨inside_netloc, inside_absolute_form, inside_parse, inside_target⟩

/-- An empty target, and an empty `Host` field, have no first character. -/
theorem an_empty_target_is_read : ¬ (parse_target [] .GET).All Access.Inside ∧
    ¬ (parse_netloc []).All Access.Inside := by
  constructor
  · intro h
    exact absurd (h (.char [] 0) List.mem_cons_self) (Nat.not_lt_zero 0)
  · intro h
    exact absurd (h (.char [] 0) List.mem_cons_self) (Nat.not_lt_zero 0)

end traced

end Url

end proxy.http
