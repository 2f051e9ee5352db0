-- The host and the port that `url::parse_netloc` finds in a `Host` field, against
-- those that the field names.
import Aether.Http.Url
import Aether.Lib.Rfc7230Host

open util.string lib.rfc7230

namespace proxy.http

/-! ## What `parse_netloc` finds -/

namespace Url

/-- The host and the port that `parse_netloc` makes of the bytes from the host on. -/
inductive HostEnd (rest : Text) : Text → Option UInt16 → Prop where
  | alone (no_colon : colon ∉ rest) : HostEnd rest rest none
  | port {h ds : Text} {port : UInt16} (cut : rest = h ++ colon :: ds) (no_colon : colon ∉ h)
    (number : parse_port ds = .ok port) : HostEnd rest h (some port)
  | no_port {h ds : Text} {e : Error} (cut : rest = h ++ colon :: ds) (no_colon : colon ∉ h)
    (number : parse_port ds = .error e) : HostEnd rest rest none

/-- Where the host begins. -/
inductive HostStart (v : Text) : Nat → Prop where
  | first (no_slashes : v.take 2 ≠ [slash, slash]) (no_user : v.head? = some 64 ∨ 64 ∉ v) :
    HostStart v 0
  | slashes (two : v.take 2 = [slash, slash]) (no_user : 64 ∉ v.drop 2) : HostStart v 2
  | user {a b : Text} (cut : v = a ++ 64 :: b) (some_ : a ≠ []) (other : v.head? ≠ some 64) :
    HostStart v a.length

theorem two_slashes_iff {v : Text} {b : Bool} (h : two_slashes v 0 = .ok b) :
    b = true ↔ v.take 2 = [slash, slash] := by
  unfold two_slashes char_at at h
  match v with
  | [] => cases h
  | [c] =>
    by_cases hc : c = slash
    · simp [bind, Except.bind, hc] at h
    · simp [bind, Except.bind, hc, pure, Except.pure] at h
      simp [← h]
  | c :: d :: rest =>
    by_cases hc : c = slash
    · simp [bind, Except.bind, hc, pure, Except.pure] at h
      simp [← h, hc]
    · simp [bind, Except.bind, hc, pure, Except.pure] at h
      simp [← h, hc]

theorem substring_from_ok {v w : Text} {start : Nat} (h : substring_from v start = .ok w) :
    w = v.drop start := by
  unfold substring_from at h
  split at h
  · exact (Except.ok.inj h).symm
  · cases h

theorem substring_ok {v w a b : Text} {start stop : Nat}
    (h : substring v start (some stop) = .ok w) (hv : v.drop start = a ++ b)
    (hstop : stop = start + a.length) : w = a := by
  simp only [substring] at h
  cases hrest : substring_from v start with
  | error e =>
    rw [hrest] at h
    cases h
  | ok rest =>
    rw [hrest, substring_from_ok hrest, hv, hstop] at h
    have hw : w = (a ++ b).take (start + a.length - start) := by
      simpa [Except.map] using h.symm
    rw [hw, Nat.add_sub_cancel_left, List.take_left]

/-- A password is a part of the user part. -/
theorem parse_password_subset {v a b password : Text} {start : Nat}
    (hv : v.drop start = a ++ 64 :: b)
    (h : parse_password v start (start + a.length) = .ok password) : password ⊆ a := by
  unfold parse_password at h
  split at h
  · obtain rfl := Except.ok.inj h
    exact List.nil_subset a
  · rename_i password_start hfind
    obtain ⟨a', b', -, -, rfl⟩ := find_eq_some hfind
    split at h
    · rename_i hlt
      have hafter : v.drop (start + a'.length + 1) = a.drop (a'.length + 1) ++ 64 :: b := by
        rw [Nat.add_assoc, ← List.drop_drop, hv, List.drop_append_of_le_length (by omega)]
      obtain rfl := substring_ok h hafter (by rw [List.length_drop]; omega)
      exact List.drop_subset _ _
    · obtain rfl := Except.ok.inj h
      exact List.nil_subset a

theorem parse_user_ok {v : Text} {start host_start : Nat} {netloc : NetworkLocation}
    (h : parse_user v start .new = .ok (netloc, host_start)) :
    netloc.port = none ∧ (64 ∉ v.drop start ∧ host_start = start ∧ netloc = .new ∨
      ∃ a b, v.drop start = a ++ 64 :: b ∧ 64 ∉ a ∧ host_start = start + a.length ∧
        netloc.username = a ∧ netloc.password ⊆ a) := by
  unfold parse_user at h
  split at h
  · rename_i hfind
    obtain ⟨rfl, rfl⟩ := Prod.mk.inj (Except.ok.inj h)
    exact ⟨rfl, .inl ⟨find_eq_none hfind, rfl, rfl⟩⟩
  · rename_i user_end hfind
    obtain ⟨a, b, hv, hbefore, rfl⟩ := find_eq_some hfind
    obtain ⟨password, hpassword, h⟩ := bind_eq_ok.mp h
    obtain ⟨username, husername, h⟩ := bind_eq_ok.mp h
    obtain ⟨rfl, rfl⟩ := Prod.mk.inj (Except.ok.inj h)
    exact ⟨rfl, .inr ⟨a, b, hv, hbefore, rfl, substring_ok husername hv rfl,
      parse_password_subset hv hpassword⟩⟩

/-- The host begins at the first `@`, or else behind the slashes. -/
theorem HostStart.of_ok {v : Text} {slashes : Bool} {netloc : NetworkLocation} {start : Nat}
    (hslashes : two_slashes v 0 = .ok slashes)
    (huser : parse_user v (if slashes then 2 else 0) .new = .ok (netloc, start)) :
    HostStart v start := by
  have htwo := two_slashes_iff hslashes
  obtain ⟨-, huser⟩ := parse_user_ok huser
  cases slashes with
  | true =>
    have htwo : v.take 2 = [slash, slash] := htwo.mp rfl
    have hv : v = slash :: slash :: v.drop 2 := by
      rw [← List.take_append_drop 2 v, htwo]
      rfl
    rcases huser with ⟨hno, rfl, -⟩ | ⟨a, b, hcut, -, rfl, -⟩
    · exact .slashes htwo hno
    · simp only [if_true] at hcut ⊢
      rw [hcut] at hv
      have hlen : 2 + a.length = (slash :: slash :: a).length := by
        rw [List.length_cons, List.length_cons]
        omega
      rw [hlen]
      refine .user hv (by simp) ?_
      rw [hv]
      simp [slash]
  | false =>
    have hnot : v.take 2 ≠ [slash, slash] := fun h => (by cases htwo.mpr h)
    simp only [Bool.false_eq_true, if_false, List.drop_zero, Nat.zero_add] at huser
    rcases huser with ⟨hno, rfl, -⟩ | ⟨a, b, hcut, hbefore, rfl, -⟩
    · exact .first hnot (.inr hno)
    · by_cases ha : a = []
      · subst ha
        exact .first hnot (.inl (by rw [hcut]; rfl))
      · refine .user hcut ha ?_
        rw [hcut]
        cases a with
        | nil => exact absurd rfl ha
        | cons c a =>
          intro hc
          obtain rfl := Option.some.inj hc
          exact hbefore List.mem_cons_self

/-- The user part of a netloc, and the host behind it. -/
theorem parse_netloc_parts {v : Text} {n : NetworkLocation} (h : parse_netloc v = .ok n) :
    ∃ slashes netloc start, two_slashes v 0 = .ok slashes ∧
      parse_user v (if slashes then 2 else 0) .new = .ok (netloc, start) ∧
      HostEnd (v.drop start) n.host n.port ∧ n.username = netloc.username ∧
      n.password = netloc.password := by
  unfold parse_netloc at h
  obtain ⟨slashes, hslashes, h⟩ := bind_eq_ok.mp h
  obtain ⟨⟨netloc, start⟩, huser, h⟩ := bind_eq_ok.mp h
  refine ⟨slashes, netloc, start, hslashes, huser, ?_⟩
  obtain ⟨hnone, -⟩ := parse_user_ok huser
  simp only at h
  split at h
  · rename_i hfind
    obtain ⟨host, hhost, h⟩ := bind_eq_ok.mp h
    obtain rfl := Except.ok.inj h
    obtain rfl := substring_from_ok hhost
    rw [hnone]
    exact ⟨.alone (find_eq_none hfind), rfl, rfl⟩
  · rename_i port_start hfind
    obtain ⟨a, b, hcut, hbefore, rfl⟩ := find_eq_some hfind
    obtain ⟨ds, hds, h⟩ := bind_eq_ok.mp h
    have hafter : v.drop (start + a.length + 1) = b := by
      rw [Nat.add_assoc, ← List.drop_drop, hcut]
      simp
    rw [substring_from_ok hds, hafter] at h
    split at h
    · rename_i port hnumber
      obtain ⟨host, hhost, h⟩ := bind_eq_ok.mp h
      obtain rfl := Except.ok.inj h
      obtain rfl := substring_ok hhost hcut rfl
      exact ⟨.port hcut hbefore hnumber, rfl, rfl⟩
    · rename_i e hnumber
      obtain ⟨host, hhost, h⟩ := bind_eq_ok.mp h
      obtain rfl := Except.ok.inj h
      obtain rfl := substring_ok hhost (List.append_nil _).symm (by
        have hle := congrArg List.length hcut
        simp only [List.length_drop, List.length_append, List.length_cons] at hle ⊢
        omega)
      rw [hnone]
      exact ⟨.no_port hcut hbefore hnumber, rfl, rfl⟩

theorem parse_netloc_ok {v : Text} {n : NetworkLocation} (h : parse_netloc v = .ok n) :
    ∃ start, HostStart v start ∧ HostEnd (v.drop start) n.host n.port := by
  obtain ⟨slashes, netloc, start, hslashes, huser, hend, -⟩ := parse_netloc_parts h
  exact ⟨start, .of_ok hslashes huser, hend⟩

/-! ## The port -/

theorem parse_port_of_number {ds : Text} {n : Nat} (h : decimalNumber ds = some n) :
    parse_port ds = if n < 2 ^ 16 then .ok (UInt16.ofNat n)
      else .error (proxy_error .invalid_target_port
        (if n < 2 ^ 64 then "Target port out of range" else "Target port invalid")) := by
  have hdigits : digits ds = some n := h
  have hcast : lexical_cast_size ds = if n < 2 ^ 64 then some n else none := by
    unfold lexical_cast_size
    rw [sign_of_digits hdigits]
    simp [hdigits, negate]
  unfold parse_port
  rw [hcast]
  by_cases hsmall : n < 2 ^ 16
  · rw [if_pos (Nat.lt_trans hsmall (by decide)), if_pos hsmall]
    simp only [if_neg (Nat.not_le.mpr hsmall)]
  · rw [if_neg hsmall]
    by_cases hsize : n < 2 ^ 64
    · rw [if_pos hsize, if_pos hsize]
      simp only [if_pos (Nat.not_lt.mp hsmall)]
    · rw [if_neg hsize, if_neg hsize]

/-- A port has digits only, and a sign. -/
theorem parse_port_of_mem {ds : Text} {c : UInt8} (hdigit : digit c = none) (hsign : c ≠ plus)
    (hsign' : c ≠ minus) (h : c ∈ ds) (port : UInt16) : parse_port ds ≠ .ok port := by
  have hmem : c ∈ (sign ds).2 := by
    cases ds with
    | nil => cases h
    | cons d cs =>
      simp only [sign]
      rcases List.mem_cons.mp h with rfl | h
      · rw [if_neg hsign', if_neg hsign]
        exact List.mem_cons_self
      · split
        · exact h
        · split
          · exact h
          · exact List.mem_cons_of_mem d h
  have hcast : lexical_cast_size ds = none := by
    unfold lexical_cast_size
    simp only [digits_of_notMem hdigit hmem, Option.bind_none]
  unfold parse_port
  rw [hcast]
  intro h
  cases h

/-! ## The field -/

/-- A field whose host and port `parse_netloc` finds: no user part is seen in it, and the first
colon outside of brackets starts a port in digits that is in range. -/
structure Located (v : Text) : Prop where
  no_slashes : v.take 2 ≠ [slash, slash]
  no_user : v.head? = some 64 ∨ 64 ∉ v
  host : PlainHost v ∨ ∃ h n, hostField v = some (h, some n) ∧ colon ∉ h ∧ n < 2 ^ 16

section

variable {v h : Text} {p : Option Nat} {n : NetworkLocation}

/-- Two cuts at a first colon are the same. -/
theorem colon_cut_unique {a a' b b' : Text} (heq : a ++ colon :: b = a' ++ colon :: b')
    (ha : colon ∉ a) (ha' : colon ∉ a') : a = a' ∧ b = b' := by
  have htake := congrArg (List.takeWhile (fun d => d != colon)) heq
  rw [takeWhile_cut ha, takeWhile_cut ha'] at htake
  subst htake
  exact ⟨rfl, (List.cons.inj (List.append_cancel_left heq)).2⟩

theorem not_decimal_nil {port : UInt16} : parse_port [] ≠ .ok port := by
  intro h
  cases h

/-- A host that ends with its bracket has no port for `parse_netloc`. -/
theorem plain_has_no_port {a ds : Text} {port : UInt16} (hplain : PlainHost (a ++ colon :: ds)) :
    parse_port ds ≠ .ok port := by
  have hshape := plainHost_iff.mp hplain
  generalize hv : a ++ colon :: ds = v at hshape
  cases hshape with
  | name no_bracket no_colon =>
    exact absurd (hv ▸ List.mem_append_right a List.mem_cons_self) no_colon
  | literal open_ inside =>
    have hlast := congrArg List.getLast? hv
    rw [List.getLast?_concat, List.getLast?_append_cons] at hlast
    cases ds with
    | nil => exact not_decimal_nil
    | cons d ds =>
      rw [List.getLast?_cons_cons] at hlast
      exact parse_port_of_mem rfl (by decide) (by decide) (List.mem_of_getLast? hlast) port

theorem Located.start_eq_zero {start : Nat} (hl : Located v) (hstart : HostStart v start) :
    start = 0 := by
  cases hstart with
  | first => rfl
  | slashes two => exact absurd two hl.no_slashes
  | user cut some_ other =>
    rcases hl.no_user with huser | huser
    · exact absurd huser other
    · exact absurd (cut ▸ List.mem_append_right _ List.mem_cons_self) huser

/-- The host and the port of such a field are found as they stand there. -/
theorem Located.reads (hl : Located v) (hn : parse_netloc v = .ok n) :
    hostField v = some (n.host, n.port.map UInt16.toNat) := by
  obtain ⟨start, hstart, hend⟩ := parse_netloc_ok hn
  obtain rfl := hl.start_eq_zero hstart
  rw [List.drop_zero] at hend
  generalize n.host = host at hend
  generalize n.port = port at hend
  rcases hl.host with hplain | ⟨h, k, hfield, hcolon, hk⟩
  · cases hend with
    | alone => exact hplain
    | no_port => exact hplain
    | port cut no_colon number =>
      rw [cut] at hplain
      exact absurd number (plain_has_no_port hplain)
  · obtain ⟨r, hv, -, hport⟩ := hostField_iff.mp hfield
    obtain ⟨ds, rfl, hds⟩ := cutPort_eq_some_iff.mp hport
    have hnumber : parse_port ds = .ok (UInt16.ofNat k) := by
      rw [parse_port_of_number hds, if_pos hk]
    cases hend with
    | alone no_colon => exact absurd (hv ▸ List.mem_append_right h List.mem_cons_self) no_colon
    | port cut no_colon number =>
      obtain ⟨rfl, rfl⟩ := colon_cut_unique (cut.symm.trans hv) no_colon hcolon
      obtain rfl := Except.ok.inj (number.symm.trans hnumber)
      rw [hfield, Option.map_some, UInt16.toNat_ofNat_of_lt' hk]
    | no_port cut no_colon number =>
      obtain ⟨rfl, rfl⟩ := colon_cut_unique (cut.symm.trans hv) no_colon hcolon
      cases number.symm.trans hnumber

/-- The host is cut at the first colon, or has it. -/
theorem HostEnd.cut_or_mem {rest h r host : Text} {port : Option UInt16}
    (hend : HostEnd rest host port) (hrest : rest = h ++ r) (hno : colon ∉ h) (hr : AfterHost r) :
    host = h ∨ colon ∈ host := by
  cases hend with
  | alone no_colon =>
    rcases hr with rfl | ⟨ds, rfl⟩
    · exact .inl (by rw [hrest, List.append_nil])
    · exact absurd (hrest ▸ List.mem_append_right h List.mem_cons_self) no_colon
  | port cut no_colon =>
    rcases hr with rfl | ⟨ds, rfl⟩
    · rw [List.append_nil] at hrest
      exact absurd (hrest ▸ cut ▸ List.mem_append_right host List.mem_cons_self) hno
    · exact .inl (colon_cut_unique (cut.symm.trans hrest) no_colon hno).1
  | no_port cut => exact .inr (cut ▸ List.mem_append_right _ List.mem_cons_self)

theorem HostEnd.head_user {b host : Text} {port : Option UInt16}
    (hend : HostEnd (64 :: b) host port) :
    host.head? = some 64 := by
  cases hend with
  | alone => rfl
  | no_port => rfl
  | port cut =>
    cases host with
    | nil => cases cut
    | cons c host =>
      rw [← (List.cons.inj cut).1]
      rfl

theorem slashes_cut {r : Text} (two : v.take 2 = [slash, slash]) (hv : v = h ++ r)
    (hafter : AfterHost r) : ∃ h', h = slash :: slash :: h' ∧ v.drop 2 = h' ++ r := by
  have hr : r.head? ≠ some slash := by
    rcases hafter with rfl | ⟨ds, rfl⟩
    · simp
    · simp [slash]
  subst hv
  match h with
  | [] =>
    cases r with
    | nil => cases two
    | cons c r => exact absurd (congrArg List.head? two) (by simpa using hr)
  | [c] =>
    cases r with
    | nil => cases two
    | cons d r =>
      have hd := (List.cons.inj (List.cons.inj two).2).1
      exact absurd (congrArg some hd) hr
  | c :: d :: h' =>
    obtain rfl : c = slash := (List.cons.inj two).1
    obtain rfl : d = slash := (List.cons.inj (List.cons.inj two).2).1
    exact ⟨h', rfl, rfl⟩

/-- The host that is found is that of the field only if it is found as it stands there. -/
theorem located_of_same (hn : parse_netloc v = .ok n) (hfield : hostField v = some (h, p))
    (hsame : SameHost h n.host) : Located v := by
  obtain ⟨start, hstart, hend⟩ := parse_netloc_ok hn
  obtain ⟨r, hv, hplain, hport⟩ := hostField_iff.mp hfield
  have hafter := cutPort_after hport
  generalize n.host = host at hend hsame
  generalize n.port = port at hend
  cases hstart with
  | first no_slashes no_user =>
    refine ⟨no_slashes, no_user, ?_⟩
    rw [List.drop_zero] at hend
    have hlen := hsame.length
    have hwhole (hhost : host = v) : PlainHost v := by
      have hr : r = [] := by
        rw [← List.length_eq_zero_iff]
        rw [hhost, hv, List.length_append] at hlen
        omega
      rw [hv, hr, List.append_nil]
      exact hplain
    cases hend with
    | alone => exact .inl (hwhole rfl)
    | no_port => exact .inl (hwhole rfl)
    | port cut no_colon number =>
      rename_i ds port
      obtain ⟨rfl, rfl⟩ := List.append_inj (hv.symm.trans cut) hlen
      cases p with
      | none =>
        rcases cutPort_eq_none_iff.mp hport with hnil | hnil
        · cases hnil
        · obtain rfl := (List.cons.inj hnil).2
          exact absurd number not_decimal_nil
      | some k =>
        refine .inr ⟨h, k, hfield, no_colon, ?_⟩
        obtain ⟨ds', hds, hk⟩ := cutPort_eq_some_iff.mp hport
        obtain rfl := (List.cons.inj hds).2
        rw [parse_port_of_number hk] at number
        by_contra hlarge
        rw [if_neg hlarge] at number
        cases number
  | slashes two no_user =>
    exfalso
    obtain ⟨h', rfl, hrest⟩ := slashes_cut two hv hafter
    have hno : colon ∉ slash :: slash :: h' := hplain.no_colon (by simp [slash])
    have hno' : colon ∉ h' := fun hmem => hno (by simp [hmem])
    rcases hend.cut_or_mem hrest hno' hafter with rfl | hmem
    · have hlen := hsame.length
      simp only [List.length_cons] at hlen
      omega
    · exact hno (hsame.mem (by decide) hmem)
  | user cut some_ other =>
    rename_i a b
    have hdrop : v.drop a.length = 64 :: b := by rw [cut, List.drop_left]
    rw [hdrop] at hend
    have hhead := hsame.head (by decide) hend.head_user
    rw [hv, List.head?_append, hhead] at other
    exact absurd rfl other

end

end Url

end proxy.http
