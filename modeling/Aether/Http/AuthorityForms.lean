-- The target of a CONNECT request: a host and a port that are printed and parsed
-- again, and what the parser takes for a host and a port.
import Aether.Http.NetlocRoundTrip

open util.string lib.rfc7230

namespace proxy.http.Url

/-! ## Ports -/

/-- Behind a sign the port is not in digits. A minus is taken modulo 2^64. -/
inductive SignedPort : Text → Prop where
  | plus {ds : Text} {n : Nat} (number : decimalNumber ds = some n) (small : n < 2 ^ 16) :
    SignedPort (plus :: ds)
  | minus {ds : Text} {n : Nat} (number : decimalNumber ds = some n) (size : n < 2 ^ 64)
    (small : (2 ^ 64 - n) % 2 ^ 64 < 2 ^ 16) : SignedPort (minus :: ds)

/-- Decimal digits of a number that is a port. -/
def PortNumber (ds : Text) : Prop := ∃ n, decimalNumber ds = some n ∧ n < 2 ^ 16

theorem parse_port_ok_iff {ds : Text} : (∃ port, parse_port ds = .ok port) ↔
    ∃ n, lexical_cast_size ds = some n ∧ n < 2 ^ 16 := by
  unfold parse_port
  cases lexical_cast_size ds with
  | none => simp
  | some n =>
    by_cases hn : n < 2 ^ 16
    · simp only [if_neg (Nat.not_le.mpr hn)]
      exact iff_of_true ⟨_, rfl⟩ ⟨n, rfl, hn⟩
    · simp only [if_pos (Nat.not_lt.mp hn)]
      refine iff_of_false ?_ ?_
      · rintro ⟨port, hport⟩
        cases hport
      · rintro ⟨m, hm, hsmall⟩
        obtain rfl := Option.some.inj hm
        exact hn hsmall

/-- A port is a number, or one behind a sign. -/
theorem parse_port_iff {ds : Text} :
    (∃ port, parse_port ds = .ok port) ↔ PortNumber ds ∨ SignedPort ds := by
  have hcast (s : Bool) (rest : Text) (n : Nat) :
      (digits rest).bind (fun m => if m < 2 ^ 64 then some (negate s m) else none) = some n ↔
        ∃ m, decimalNumber rest = some m ∧ m < 2 ^ 64 ∧ negate s m = n := by
    rw [Option.bind_eq_some_iff]
    refine exists_congr fun m => and_congr_right fun _ => ?_
    split
    · rename_i hm
      rw [and_iff_right hm, Option.some_inj]
    · rename_i hm
      exact iff_of_false (by simp) (fun h => hm h.1)
  rw [parse_port_ok_iff]
  constructor
  · rintro ⟨n, hn, hsmall⟩
    unfold lexical_cast_size at hn
    cases ds with
    | nil => cases hn
    | cons c ds =>
      by_cases hminus : c = minus
      · subst hminus
        obtain ⟨m, hm, hsize, rfl⟩ := (hcast true ds n).mp hn
        exact .inr (.minus hm hsize hsmall)
      · by_cases hplus : c = plus
        · subst hplus
          obtain ⟨m, hm, -, rfl⟩ := (hcast false ds n).mp hn
          exact .inr (.plus hm hsmall)
        · simp only [sign, if_neg hminus, if_neg hplus] at hn
          obtain ⟨m, hm, -, rfl⟩ := (hcast false (c :: ds) n).mp hn
          exact .inl ⟨m, hm, hsmall⟩
  · rintro (⟨n, hn, hsmall⟩ | hsigned)
    · refine ⟨n, ?_, hsmall⟩
      have hdigits : digits ds = some n := hn
      unfold lexical_cast_size
      rw [sign_of_digits hdigits]
      exact (hcast false ds n).mpr ⟨n, hn, Nat.lt_trans hsmall (by decide), rfl⟩
    · cases hsigned with
      | plus number small =>
        exact ⟨_, (hcast false _ _).mpr ⟨_, number, Nat.lt_trans small (by decide), rfl⟩, small⟩
      | minus number size small =>
        exact ⟨_, (hcast true _ _).mpr ⟨_, number, size, rfl⟩, small⟩

theorem SignedPort.not_number {ds : Text} (h : SignedPort ds) : ¬ PortNumber ds := by
  rintro ⟨n, hn, -⟩
  have hsign := sign_of_digits hn
  cases h with
  | plus => cases hsign
  | minus => cases hsign

/-! ## Authority forms -/

/-- A nonempty host, a colon, and a port in decimal digits. -/
def IsAuthority (str : Text) : Prop :=
  ∃ host ds, str = host ++ colon :: ds ∧ colon ∉ host ∧ host ≠ [] ∧ PortNumber ds

theorem parse_authority_of {str host ds : Text} (hstr : str = host ++ colon :: ds)
    (hno : colon ∉ host) :
    parse_authority_form str = (parse_port ds).map (make_authority_form host) := by
  obtain ⟨hfind, hds⟩ := find_colon hstr hno
  have hhost : str.take host.length = host := by rw [hstr, List.take_left]
  unfold parse_authority_form
  rw [hfind]
  simp only [← substring_from_ok hds, hhost]

theorem authority_form_ok_iff {str : Text} : (∃ u, parse_authority_form str = .ok u) ↔
    ∃ host ds, str = host ++ colon :: ds ∧ colon ∉ host ∧ (PortNumber ds ∨ SignedPort ds) := by
  have hport (host ds : Text) : (∃ u, (parse_port ds).map (make_authority_form host) = .ok u) ↔
      PortNumber ds ∨ SignedPort ds := by
    rw [← parse_port_iff]
    cases parse_port ds <;> simp [Except.map]
  constructor
  · rintro ⟨u, hu⟩
    cases hfind : find str colon 0 with
    | none =>
      unfold parse_authority_form at hu
      rw [hfind] at hu
      cases hu
    | some i =>
      obtain ⟨host, ds, hstr, hno, -⟩ := find_eq_some hfind
      rw [List.drop_zero] at hstr
      rw [parse_authority_of hstr hno] at hu
      exact ⟨host, ds, hstr, hno, (hport host ds).mp ⟨u, hu⟩⟩
  · rintro ⟨host, ds, hstr, hno, h⟩
    rw [parse_authority_of hstr hno]
    exact (hport host ds).mpr h

/-- Only authorities are accepted, unless the port has a sign or the host is empty. -/
theorem only_authorities_iff (str : Text) :
    ((∃ u, parse_authority_form str = .ok u) → IsAuthority str) ↔
      ∀ host ds, str = host ++ colon :: ds → colon ∉ host →
        ¬ SignedPort ds ∧ (host = [] → ¬ PortNumber ds) := by
  rw [authority_form_ok_iff]
  constructor
  · intro h host ds hstr hno
    constructor
    · intro hsigned
      obtain ⟨host', ds', hstr', hno', -, hnumber⟩ := h ⟨host, ds, hstr, hno, .inr hsigned⟩
      obtain ⟨-, rfl⟩ := colon_cut_unique (hstr.symm.trans hstr') hno hno'
      exact hsigned.not_number hnumber
    · intro hempty hnumber
      obtain ⟨host', ds', hstr', hno', hsome, -⟩ := h ⟨host, ds, hstr, hno, .inl hnumber⟩
      obtain ⟨hsame, -⟩ := colon_cut_unique (hstr.symm.trans hstr') hno hno'
      exact hsome (hsame.symm.trans hempty)
  · rintro h ⟨host, ds, hstr, hno, hport⟩
    obtain ⟨hsigned, hempty⟩ := h host ds hstr hno
    have hnumber := hport.resolve_right hsigned
    exact ⟨host, ds, hstr, hno, fun hnil => hempty hnil hnumber, hnumber⟩

/-- A host and a port are read back iff the host is not empty and has no colon. -/
theorem authority_reads_back_iff {host : Text} (hshape : HostShape host)
    (hslash : host.head? ≠ some slash) (port : UInt16) :
    (∃ u, parse_target (make_authority_form host port).print .CONNECT = .ok u ∧
        u.netloc.host = host ∧ u.netloc.port = some port) ↔ host ≠ [] ∧ colon ∉ host := by
  cases hhost : host with
  | nil =>
    refine iff_of_false ?_ (fun h => h.1 rfl)
    rintro ⟨u, hu, -⟩
    cases hu
  | cons c rest =>
    have hprint : (make_authority_form (c :: rest) port).print =
        c :: (rest ++ colon :: decimal port.toNat) := by
      simp [print, make_authority_form, NetworkLocation.print, NetworkLocation.empty,
        NetworkLocation.to_host_string]
    have hstar : c :: (rest ++ colon :: decimal port.toNat) ≠ text "*" := by
      intro h
      have hlen := congrArg List.length h
      simp [text] at hlen
    have hc : c ≠ slash := by
      rintro rfl
      exact hslash (by rw [hhost]; rfl)
    have htarget : parse_target (c :: (rest ++ colon :: decimal port.toNat)) .CONNECT =
        parse_authority_form (c :: (rest ++ colon :: decimal port.toNat)) := by
      unfold parse_target
      rw [if_neg hstar]
      simp [char_at, bind, Except.bind, hc]
    rw [hprint, htarget, and_iff_right (List.cons_ne_nil c rest)]
    by_cases hcolon : colon ∈ c :: rest
    · refine iff_of_false ?_ (not_not_intro hcolon)
      obtain ⟨a, b, e, hcut, hno, hport⟩ :=
        colon_of_literal (hhost ▸ hshape) hcolon (colon :: decimal port.toNat)
      have hstr : c :: (rest ++ colon :: decimal port.toNat) =
          a ++ colon :: (b ++ colon :: decimal port.toNat) := by
        rw [← List.cons_append, hcut, List.append_assoc, List.cons_append]
      rw [parse_authority_of hstr hno, hport]
      rintro ⟨u, hu, -⟩
      cases hu
    · have hparse : parse_authority_form (c :: (rest ++ colon :: decimal port.toNat)) =
          .ok (make_authority_form (c :: rest) port) := by
        rw [parse_authority_of (List.cons_append).symm hcolon, parse_port_decimal]
        rfl
      exact iff_of_true ⟨_, hparse, rfl, rfl⟩ hcolon

/-- An authority form is read back, and is one, exactly if the host has no colon and is not empty,
and the port has no sign. -/
theorem authority_forms_are_sound_iff (host : Text) (hshape : HostShape host)
    (hslash : host.head? ≠ some slash) (port : UInt16) (str : Text) :
    ((∃ u, parse_target (make_authority_form host port).print .CONNECT = .ok u ∧
        u.netloc.host = host ∧ u.netloc.port = some port) ↔ host ≠ [] ∧ colon ∉ host) ∧
      (((∃ u, parse_authority_form str = .ok u) → IsAuthority str) ↔
        ∀ host ds, str = host ++ colon :: ds → colon ∉ host →
          ¬ SignedPort ds ∧ (host = [] → ¬ PortNumber ds)) :=
  ⟨authority_reads_back_iff hshape hslash port, only_authorities_iff str⟩

/-- `localhost` and the port 443, and the text `localhost:443`. -/
theorem a_local_authority_form :
    ((∃ u, parse_target (make_authority_form (text "localhost") 443).print .CONNECT = .ok u ∧
        u.netloc.host = text "localhost" ∧ u.netloc.port = some 443) ↔
        text "localhost" ≠ [] ∧ colon ∉ text "localhost") ∧
      (((∃ u, parse_authority_form (text "localhost:443") = .ok u) →
          IsAuthority (text "localhost:443")) ↔
        ∀ host ds, text "localhost:443" = host ++ colon :: ds → colon ∉ host →
          ¬ SignedPort ds ∧ (host = [] → ¬ PortNumber ds)) :=
  authority_forms_are_sound_iff (text "localhost") (.name (by decide) (by decide)) (by decide) 443
    (text "localhost:443")

/-- A literal is cut at its first colon, and a port may have a minus and no host. -/
theorem a_literal_is_refused_and_a_minus_is_not :
    parse_target (make_authority_form (text "[::1]") 443).print .CONNECT =
        .error (proxy_error .invalid_target_port "Target port invalid") ∧
      parse_authority_form (text ":-18446744073709551615") = .ok (make_authority_form [] 1) ∧
      ¬ IsAuthority (text ":-18446744073709551615") := by
  refine ⟨by decide, by decide, ?_⟩
  rintro ⟨host, ds, hstr, hno, hsome, -⟩
  cases host with
  | nil => exact hsome rfl
  | cons c host =>
    have hc : colon = c := (List.cons.inj hstr).1
    exact hno (hc ▸ List.mem_cons_self)

end proxy.http.Url
