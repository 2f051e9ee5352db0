-- A netloc that is printed, and parsed again.
import Aether.Http.HostParsing
import Aether.Http.TextPositions

open util.string lib.rfc7230

namespace proxy.http

namespace Url

/-! ## Netlocs without a user part -/

/-- A text that `parse_netloc` takes for a host from its first character on. -/
structure Bare (str : Text) : Prop where
  some_ : str ≠ []
  no_slash : str.head? ≠ some slash
  no_user : 64 ∉ str

section

variable {str h ds : Text} {port : UInt16}

theorem Bare.two_slashes (hb : Bare str) : two_slashes str 0 = .ok false := by
  cases str with
  | nil => exact absurd rfl hb.some_
  | cons c str => exact two_slashes_of_other rfl (fun hc => hb.no_slash (congrArg some hc))

theorem Bare.parse_user (hb : Bare str) : parse_user str 0 .new = .ok (.new, 0) := by
  have hfind : find str 64 0 = none := find_of_notMem hb.no_user
  rw [Url.parse_user, hfind]

theorem Bare.parse_netloc_alone (hb : Bare str) (hno : colon ∉ str) :
    parse_netloc str = .ok ⟨[], [], str, none⟩ := by
  have hfind : find str colon 0 = none := find_of_notMem hno
  have hhost : substring_from str 0 = .ok str := substring_from_of_drop rfl (Nat.zero_le _)
  simp only [parse_netloc, hb.two_slashes, bind, Except.bind, Bool.false_eq_true, if_false,
    hb.parse_user, hfind, hhost]
  rfl

theorem find_colon (hstr : str = h ++ colon :: ds) (hno : colon ∉ h) :
    find str colon 0 = some h.length ∧ substring_from str (h.length + 1) = .ok ds := by
  have hdrop : str.drop h.length = colon :: ds := by rw [hstr, List.drop_left]
  have hfind : find str colon 0 = some (0 + h.length) := find_of_drop hstr hno
  rw [Nat.zero_add] at hfind
  refine ⟨hfind, substring_from_of_drop (drop_succ_of_drop hdrop) ?_⟩
  rw [hstr]
  simp

theorem Bare.parse_netloc_port (hb : Bare str) (hstr : str = h ++ colon :: ds) (hno : colon ∉ h)
    (hport : parse_port ds = .ok port) : parse_netloc str = .ok ⟨[], [], h, some port⟩ := by
  obtain ⟨hfind, hds⟩ := find_colon hstr hno
  have hhost : substring str 0 (some (0 + h.length)) = .ok h :=
    substring_of_drop hstr (Nat.zero_le _)
  rw [Nat.zero_add] at hhost
  simp only [parse_netloc, hb.two_slashes, bind, Except.bind, Bool.false_eq_true, if_false,
    hb.parse_user, hfind, hds, hport, hhost]
  rfl

theorem Bare.parse_netloc_no_port (hb : Bare str) {e : Error} (hstr : str = h ++ colon :: ds)
    (hno : colon ∉ h) (hport : parse_port ds = .error e) :
    parse_netloc str = .ok ⟨[], [], str, none⟩ := by
  obtain ⟨hfind, hds⟩ := find_colon hstr hno
  have hhost : substring str 0 (some (0 + str.length)) = .ok str :=
    substring_of_drop (List.append_nil str).symm (Nat.zero_le _)
  rw [Nat.zero_add] at hhost
  simp only [parse_netloc, hb.two_slashes, bind, Except.bind, Bool.false_eq_true, if_false,
    hb.parse_user, hfind, hds, hport, hhost]
  rfl

/-! ## Hosts and ports -/

theorem parse_port_decimal (port : UInt16) : parse_port (decimal port.toNat) = .ok port := by
  rw [parse_port_of_number (digits_decimal port.toNat), if_pos port.toNat_lt]
  simp

/-- A colon of a literal does not start a port. -/
theorem colon_of_literal (hshape : HostShape h) (hcolon : colon ∈ h) (rest : Text) :
    ∃ a b e, h = a ++ colon :: b ∧ colon ∉ a ∧ parse_port (b ++ rest) = .error e := by
  cases hshape with
  | name no_bracket no_colon => exact absurd hcolon no_colon
  | literal open_ inside =>
    rename_i inner
    have hinner : colon ∈ inner := by
      rcases List.mem_append.mp hcolon with hmem | hmem
      · exact hmem
      · cases List.mem_singleton.mp hmem
    obtain ⟨a, b, rfl, ha⟩ := List.eq_append_cons_of_mem hinner
    have hmem : 93 ∈ b ++ [93] ++ rest := by simp
    cases hport : parse_port (b ++ [93] ++ rest) with
    | ok port => exact absurd hport (parse_port_of_mem rfl (by decide) (by decide) hmem port)
    | error e => exact ⟨a, b ++ [93], e, by simp, ha, hport⟩

end

end Url

/-! ## The round trip -/

namespace NetworkLocation

open Url

/-- A host: a name or an address without a colon, or a literal in brackets. -/
structure IsHost (h : Text) : Prop where
  some_ : h ≠ []
  shape : HostShape h
  no_user : 64 ∉ h
  no_slash : slash ∉ h

structure IsUser (username password : Text) : Prop where
  username_ : colon ∉ username ∧ 64 ∉ username ∧ slash ∉ username
  password_ : 64 ∉ password ∧ slash ∉ password
  alone : username = [] → password = []

variable {n : NetworkLocation}

theorem to_host_string_subset {c : UInt8} (hc : digit c = none) (hcolon : c ≠ colon)
    (h : c ∈ n.to_host_string) : c ∈ n.host := by
  rcases List.mem_append.mp h with hmem | hmem
  · exact hmem
  · cases hport : n.port with
    | none =>
      rw [hport] at hmem
      cases hmem
    | some port =>
      rw [hport] at hmem
      rcases List.mem_cons.mp hmem with hmem | hmem
      · exact absurd hmem hcolon
      · have hnone := digits_of_notMem hc hmem
        rw [digits_decimal] at hnone
        cases hnone

theorem IsHost.head? (h : IsHost n.host) : n.to_host_string.head? = n.host.head? := by
  unfold to_host_string
  cases hhost : n.host with
  | nil => exact absurd hhost h.some_
  | cons c host => rfl

theorem IsHost.bare (h : IsHost n.host) : Bare n.to_host_string where
  some_ := by
    intro hnil
    exact h.some_ (List.append_eq_nil_iff.mp hnil).1
  no_slash := by
    rw [h.head?]
    exact fun hhead => h.no_slash (List.mem_of_mem_head? hhead)
  no_user := fun hmem => h.no_user (to_host_string_subset rfl (by decide) hmem)

/-- A host and a port are read again, unless the host is a literal with a colon. -/
theorem IsHost.parse_host_string (h : IsHost n.host) :
    parse_netloc n.to_host_string =
      if n.port = none ∨ colon ∉ n.host then .ok ⟨[], [], n.host, n.port⟩
      else .ok ⟨[], [], n.to_host_string, none⟩ := by
  have hbare := h.bare
  by_cases hcolon : colon ∈ n.host
  · have hwhole : parse_netloc n.to_host_string = .ok ⟨[], [], n.to_host_string, none⟩ := by
      obtain ⟨tail, htail⟩ : ∃ tail, n.to_host_string = n.host ++ tail := ⟨_, rfl⟩
      obtain ⟨a, b, e, hhost, ha, hport⟩ := colon_of_literal h.shape hcolon tail
      refine hbare.parse_netloc_no_port ?_ ha hport
      rw [htail, hhost, List.append_assoc, List.cons_append]
    rw [hwhole]
    cases hport : n.port with
    | none => simp [to_host_string, hport]
    | some port => simp [hcolon]
  · rw [if_pos (.inr hcolon)]
    cases hport : n.port with
    | none =>
      have hsame : n.to_host_string = n.host := by simp [to_host_string, hport]
      rw [hsame] at hbare ⊢
      exact hbare.parse_netloc_alone hcolon
    | some port =>
      have hsame : n.to_host_string = n.host ++ colon :: decimal port.toNat := by
        simp [to_host_string, hport]
      exact hbare.parse_netloc_port hsame hcolon (parse_port_decimal port)

theorem print_of_no_user (h : n.host ≠ []) (huser : n.username = []) :
    n.print = n.to_host_string := by
  unfold print empty
  rw [if_neg (by simp [h]), if_pos huser]
  rfl

/-- With a user the host begins at the `@`. -/
theorem host_of_user (hhost : n.host ≠ []) (huser : n.username ≠ []) (hno : 64 ∉ n.username)
    (hslash : slash ∉ n.username) {m : NetworkLocation} (h : parse_netloc n.print = .ok m) :
    m.host.head? = some 64 := by
  obtain ⟨rest, hprint⟩ : ∃ rest, n.print = n.username ++ rest ∧ 64 ∈ rest := by
    unfold print empty
    rw [if_neg (by simp [hhost]), if_neg huser, List.append_assoc, List.append_assoc]
    exact ⟨_, rfl, by simp⟩
  cases hu : n.username with
  | nil => exact absurd hu huser
  | cons c user =>
    rw [hu] at hno hslash hprint
    have hhead : n.print.head? = some c := by rw [hprint.1]; rfl
    obtain ⟨start, hstart, hend⟩ := parse_netloc_ok h
    cases hstart with
    | first no_slashes no_user =>
      rcases no_user with hat | hnot
      · rw [hhead] at hat
        exact absurd (Option.some.inj hat ▸ List.mem_cons_self) hno
      · exact absurd (hprint.1 ▸ List.mem_append_right _ hprint.2) hnot
    | slashes two =>
      rw [hprint.1] at two
      exact absurd ((List.cons.inj two).1 ▸ List.mem_cons_self) hslash
    | user cut =>
      rw [cut, List.drop_left] at hend
      exact hend.head_user

/-- A netloc is read back iff it has no user part, and no port behind a literal with a colon. -/
theorem a_netloc_reads_back_iff (n : NetworkLocation) (hhost : IsHost n.host)
    (huser : IsUser n.username n.password) :
    parse_netloc n.print = .ok n ↔ n.username = [] ∧ (n.port = none ∨ colon ∉ n.host) := by
  obtain ⟨username, password, host, port⟩ := n
  by_cases hname : username = []
  · obtain rfl := hname
    obtain rfl := huser.alone rfl
    have hprint : print ⟨[], [], host, port⟩ = to_host_string ⟨[], [], host, port⟩ :=
      print_of_no_user hhost.some_ rfl
    rw [hprint, hhost.parse_host_string]
    by_cases hport : port = none ∨ colon ∉ host
    · rw [if_pos hport]
      exact iff_of_true rfl ⟨rfl, hport⟩
    · rw [if_neg hport]
      have hsome : port ≠ none := fun hnone => hport (.inl hnone)
      simp [hport, hsome.symm]
  · constructor
    · intro h
      have hat := host_of_user hhost.some_ hname huser.username_.2.1 huser.username_.2.2 h
      exact absurd (List.mem_of_mem_head? hat) hhost.no_user
    · rintro ⟨hnil, -⟩
      exact absurd hnil hname

/-- A name and a port. -/
def a_name_and_port : NetworkLocation := ⟨[], [], text "localhost", some 8080⟩

theorem a_name_and_port_read_back : parse_netloc a_name_and_port.print = .ok a_name_and_port ↔
    a_name_and_port.username = [] ∧
      (a_name_and_port.port = none ∨ colon ∉ a_name_and_port.host) :=
  a_netloc_reads_back_iff a_name_and_port
    ⟨by decide, .name (by decide) (by decide), by decide, by decide⟩
    ⟨by decide, by decide, fun _ => rfl⟩

def a_user : NetworkLocation := ⟨text "user", text "pass", text "a", none⟩

/-- The user has the password in it, and the host the `@`. -/
theorem a_user_does_not_read_back : IsHost a_user.host ∧ IsUser a_user.username a_user.password ∧
    parse_netloc a_user.print = .ok ⟨text "user:pass", text "pass", text "@a", none⟩ ∧
    parse_netloc a_user.print ≠ .ok a_user :=
  ⟨⟨by decide, .name (by decide) (by decide), by decide, by decide⟩,
    ⟨by decide, by decide, by decide⟩, by decide, by decide⟩

end NetworkLocation

end proxy.http
