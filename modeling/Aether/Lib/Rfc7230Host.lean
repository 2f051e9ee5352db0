-- The `Host` field of RFC 7230, section 5.4, and the default ports of sections
-- 2.7.1 and 2.7.2. Nothing here is about the proxy.
import Aether.Lib.Rfc7230Length
import Mathlib.Data.List.TakeWhile

namespace lib.rfc7230

/-- A `uri-host` and what comes after it. A literal in brackets ends with its bracket, and any other
host before a colon. -/
def cutHost (v : List UInt8) : Option (List UInt8 × List UInt8) :=
  if v.head? = some 91 then
    if 93 ∈ v then
      some (v.takeWhile (fun c => c != 93) ++ [93], (v.dropWhile (fun c => c != 93)).tail)
    else none
  else some (v.takeWhile (fun c => c != 58), v.dropWhile (fun c => c != 58))

/-- The port after a host. It may be left out, behind a colon too. -/
def cutPort : List UInt8 → Option (Option Nat)
  | [] => some none
  | c :: ds =>
    if c ≠ 58 then none else if ds = [] then some none else (decimalNumber ds).map some

/-- The host and the port that a field names. -/
def hostField (v : List UInt8) : Option (List UInt8 × Option Nat) :=
  (cutHost v).bind (fun p => (cutPort p.2).map (fun port => (p.1, port)))

/-- Hosts are compared without a look at case. -/
def SameHost (h h' : List UInt8) : Prop := h.map lower = h'.map lower

instance (h h' : List UInt8) : Decidable (SameHost h h') := inferInstanceAs (Decidable (_ = _))

def defaultPort (scheme : List UInt8) : Option Nat :=
  if scheme.map lower = [104, 116, 116, 112] then some 80
  else if scheme.map lower = [104, 116, 116, 112, 115] then some 443
  else none

/-- A field names a host, and a port up to the default one. -/
def Names (default : Option Nat) (v host : List UInt8) (port : Nat) : Prop :=
  ∃ h p, hostField v = some (h, p) ∧ SameHost h host ∧ p.or default = some port

/-- A host that names itself: it has no colon, or it is a literal in brackets. -/
def PlainHost (h : List UInt8) : Prop := hostField h = some (h, none)

/-! ## A field is a host and what comes after it -/

section

variable {v h r a b : List UInt8} {c : UInt8} {p : Option Nat}

theorem takeWhile_cut (hnot : c ∉ a) : (a ++ c :: b).takeWhile (fun d => d != c) = a := by
  have hall : ∀ d ∈ a, (d != c) = true := by
    intro d hd
    exact bne_iff_ne.mpr (fun heq => hnot (heq ▸ hd))
  rw [List.takeWhile_append_of_pos hall, List.takeWhile_cons_of_neg (by simp), List.append_nil]

theorem dropWhile_cut (hnot : c ∉ a) :
    (a ++ c :: b).dropWhile (fun d => d != c) = c :: b := by
  have hall : ∀ d ∈ a, (d != c) = true := by
    intro d hd
    exact bne_iff_ne.mpr (fun heq => hnot (heq ▸ hd))
  rw [List.dropWhile_append_of_pos hall, List.dropWhile_cons_of_neg (by simp)]

theorem takeWhile_uncut (hnot : c ∉ a) : a.takeWhile (fun d => d != c) = a := by
  rw [List.takeWhile_eq_self_iff]
  intro d hd
  exact bne_iff_ne.mpr (fun heq => hnot (heq ▸ hd))

theorem dropWhile_uncut (hnot : c ∉ a) : a.dropWhile (fun d => d != c) = [] := by
  rw [List.dropWhile_eq_nil_iff]
  intro d hd
  exact bne_iff_ne.mpr (fun heq => hnot (heq ▸ hd))

/-- The two kinds of a host. -/
inductive HostShape : List UInt8 → Prop where
  | literal {inner : List UInt8} (open_ : (inner ++ [93]).head? = some 91) (inside : 93 ∉ inner) :
    HostShape (inner ++ [93])
  | name {h : List UInt8} (no_bracket : h.head? ≠ some 91) (no_colon : 58 ∉ h) : HostShape h

/-- What may come after a host. -/
def AfterHost (r : List UInt8) : Prop := r = [] ∨ ∃ ds, r = 58 :: ds

theorem cutPort_after (hport : cutPort r = some p) : AfterHost r := by
  cases r with
  | nil => exact .inl rfl
  | cons c ds =>
    by_cases hc : c = 58
    · exact .inr ⟨ds, by rw [hc]⟩
    · simp [cutPort, hc] at hport

theorem HostShape.of_cutHost (hcut : cutHost v = some (h, r)) : v = h ++ r ∧ HostShape h := by
  unfold cutHost at hcut
  split at hcut
  · rename_i hhead
    split at hcut
    · rename_i hmem
      obtain ⟨inner, rest, rfl, hinside⟩ := List.eq_append_cons_of_mem hmem
      rw [takeWhile_cut hinside, dropWhile_cut hinside] at hcut
      obtain ⟨rfl, rfl⟩ := Prod.mk.inj (Option.some.inj hcut)
      refine ⟨by simp, .literal ?_ hinside⟩
      simpa [List.head?_append] using hhead
    · cases hcut
  · rename_i hhead
    obtain ⟨rfl, rfl⟩ := Prod.mk.inj (Option.some.inj hcut)
    refine ⟨List.takeWhile_append_dropWhile.symm, .name ?_ ?_⟩
    · cases v with
      | nil => simp
      | cons c cs =>
        by_cases hc : c = 58
        · simp [hc]
        · rw [List.takeWhile_cons_of_pos (by simpa using hc)]
          exact hhead
    · intro hmem
      simpa using List.mem_takeWhile_imp hmem

theorem HostShape.cutHost_append (hshape : HostShape h) (hafter : AfterHost r) :
    cutHost (h ++ r) = some (h, r) := by
  cases hshape with
  | literal open_ inside =>
    rename_i inner
    have hhead : (inner ++ [93] ++ r).head? = some 91 := by simpa [List.head?_append] using open_
    unfold cutHost
    rw [if_pos hhead, if_pos (by simp), List.append_assoc, List.singleton_append,
      takeWhile_cut inside, dropWhile_cut inside, List.tail_cons]
  | name no_bracket no_colon =>
    unfold cutHost
    rcases hafter with rfl | ⟨ds, rfl⟩
    · rw [List.append_nil, if_neg no_bracket, takeWhile_uncut no_colon, dropWhile_uncut no_colon]
    · have hhead : (h ++ 58 :: ds).head? ≠ some 91 := by
        cases h with
        | nil => simp
        | cons c cs => exact no_bracket
      rw [if_neg hhead, takeWhile_cut no_colon, dropWhile_cut no_colon]

theorem plainHost_iff : PlainHost h ↔ HostShape h := by
  unfold PlainHost hostField
  constructor
  · intro hplain
    obtain ⟨⟨host, rest⟩, hcut, hport⟩ := Option.bind_eq_some_iff.mp hplain
    obtain ⟨port, -, heq⟩ := Option.map_eq_some_iff.mp hport
    obtain ⟨rfl, -⟩ := Prod.mk.inj heq
    exact (HostShape.of_cutHost hcut).2
  · intro hshape
    have hcut := hshape.cutHost_append (.inl rfl)
    rw [List.append_nil] at hcut
    rw [hcut]
    rfl

/-- A field is a host that names itself, and a port. -/
theorem hostField_iff : hostField v = some (h, p) ↔
    ∃ r, v = h ++ r ∧ PlainHost h ∧ cutPort r = some p := by
  rw [plainHost_iff]
  unfold hostField
  constructor
  · intro hfield
    obtain ⟨⟨host, r⟩, hcut, hrest⟩ := Option.bind_eq_some_iff.mp hfield
    obtain ⟨port, hport, heq⟩ := Option.map_eq_some_iff.mp hrest
    obtain ⟨rfl, rfl⟩ := Prod.mk.inj heq
    obtain ⟨hv, hshape⟩ := HostShape.of_cutHost hcut
    exact ⟨r, hv, hshape, hport⟩
  · rintro ⟨r, rfl, hshape, hport⟩
    rw [hshape.cutHost_append (cutPort_after hport), Option.bind_some, hport, Option.map_some]

theorem cutPort_eq_none_iff : cutPort r = some none ↔ r = [] ∨ r = [58] := by
  cases r with
  | nil => simp [cutPort]
  | cons c ds =>
    unfold cutPort
    by_cases hc : c = 58 <;> by_cases hds : ds = [] <;> simp [hc, hds]

theorem cutPort_eq_some_iff {n : Nat} :
    cutPort r = some (some n) ↔ ∃ ds, r = 58 :: ds ∧ decimalNumber ds = some n := by
  cases r with
  | nil => simp [cutPort]
  | cons c ds =>
    unfold cutPort
    by_cases hc : c = 58
    · by_cases hds : ds = []
      · simp [hc, hds, decimalNumber]
      · simp [hc, hds]
    · simp [hc]

theorem PlainHost.no_colon (hplain : PlainHost h) (hhead : h.head? ≠ some 91) : 58 ∉ h := by
  have hshape := plainHost_iff.mp hplain
  cases hshape with
  | literal open_ => exact absurd open_ hhead
  | name no_bracket no_colon => exact no_colon

end

/-! ## Hosts that are the same -/

/-- Letters are all that `lower` makes from another character. -/
theorem eq_of_lower {c d : UInt8} (h : lower c = d) (hd : d < 97) : c = d := by
  unfold lower at h
  split at h
  · rename_i hletter
    have hsum : c.toNat + 32 = d.toNat := by
      rw [← h, UInt8.toNat_add]
      have hhigh : c.toNat ≤ 90 := hletter.2
      exact (Nat.mod_eq_of_lt (by simp; omega)).symm
    have hlow : 65 ≤ c.toNat := hletter.1
    have hd : d.toNat < 97 := hd
    omega
  · exact h

theorem SameHost.length {h h' : List UInt8} (hsame : SameHost h h') : h.length = h'.length := by
  rw [← List.length_map lower, hsame, List.length_map]

theorem SameHost.mem {h h' : List UInt8} {c : UInt8} (hsame : SameHost h h') (hc : c < 65)
    (hmem : c ∈ h') : c ∈ h := by
  have hlower : lower c = c := if_neg (fun hand => absurd hand.1 (UInt8.not_le.mpr hc))
  have hmem' : c ∈ h.map lower := by
    rw [hsame, List.mem_map]
    exact ⟨c, hmem, hlower⟩
  obtain ⟨d, hd, hdc⟩ := List.mem_map.mp hmem'
  rwa [← eq_of_lower hdc (UInt8.lt_trans hc (by decide))]

theorem SameHost.head {h h' : List UInt8} {c : UInt8} (hsame : SameHost h h') (hc : c < 65)
    (hhead : h'.head? = some c) : h.head? = some c := by
  have hlower : lower c = c := if_neg (fun hand => absurd hand.1 (UInt8.not_le.mpr hc))
  have hmap : (h.map lower).head? = some c := by
    rw [hsame, List.head?_map, hhead, Option.map_some, hlower]
  rw [List.head?_map, Option.map_eq_some_iff] at hmap
  obtain ⟨d, hd, hdc⟩ := hmap
  rw [hd, eq_of_lower hdc (UInt8.lt_trans hc (by decide))]

end lib.rfc7230
