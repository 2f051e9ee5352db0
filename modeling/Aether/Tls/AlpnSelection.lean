-- The choice of a protocol for the client, `alpn_select_callback` of
-- `tls/tls_service.cpp`.
--
-- The client's list is searched as one string, so that a name may be found inside of
-- another one, or across the byte of a length.
import Aether.Util.Text

open util.string

namespace proxy.tls

def default_alpn : Text := text "http/1.1"

/-- `std::string_view::find`: the first position. -/
def find (protos alpn : Text) : Option Nat :=
  if alpn <+: protos then some 0
  else
    match protos with
    | [] => none
    | _ :: rest => (find rest alpn).map (· + 1)

/-- The argument that `create_ssl_context` sets with the callback. -/
def select_arg (server_alpn : Option Text) : Option Text :=
  server_alpn.filter (fun alpn => decide (alpn.length > 0))

/-- Where `out` points to in the list, and `outlen`. -/
structure Selected where
  out : Nat
  outlen : UInt8
  deriving DecidableEq, Repr

/-- What OpenSSL takes from the list. -/
def Selected.name (s : Selected) (protos : Text) : Text := (protos.drop s.out).take s.outlen.toNat

def select_default (protos : Text) : Option Selected :=
  match find protos default_alpn with
  -- Use default ALPN.
  | some pos => some ⟨pos, UInt8.ofNat default_alpn.length⟩
  -- Use first option.
  | none => protos.head?.map (fun length => ⟨1, length⟩)

/-- Of an empty list, which OpenSSL does not give, a byte is read that it does not have. -/
def alpn_select_callback (protos : Text) (arg : Option Text) : Option Selected :=
  match arg with
  | none => select_default protos
  -- Use ALPN already negotiated.
  | some arg =>
    match find protos (c_string arg) with
    | some pos => some ⟨pos, UInt8.ofNat (c_string arg).length⟩
    | none => select_default protos

/-! ## Lists of protocols -/

structure ProtocolName where
  bytes : Text
  nonempty : bytes ≠ []
  short : bytes.length ≤ 255

/-- The protocol that was negotiated with the server. -/
structure ServerProtocol extends ProtocolName where
  no_nul : 0 ∉ bytes

def ProtocolName.wire (p : ProtocolName) : Text := UInt8.ofNat p.bytes.length :: p.bytes

def wire (protocols : List ProtocolName) : Text := protocols.flatMap ProtocolName.wire

def Offers (protocols : List ProtocolName) (name : Text) : Prop := ∃ p ∈ protocols, p.bytes = name

/-- The name is that of an entry: of the server's protocol if it is offered, or else of the default
if that is offered, or else of the first entry. -/
structure Chooses (first : ProtocolName) (rest : List ProtocolName) (server : Option ServerProtocol)
    (name : Text) : Prop where
  entry : Offers (first :: rest) name
  negotiated : ∀ s, server = some s → Offers (first :: rest) s.bytes → name = s.bytes
  default : (∀ s, server = some s → ¬ Offers (first :: rest) s.bytes) →
    Offers (first :: rest) default_alpn → name = default_alpn
  first : (∀ s, server = some s → ¬ Offers (first :: rest) s.bytes) →
    ¬ Offers (first :: rest) default_alpn → name = first.bytes

/-- Where the name occurs in the bytes of the list at all, it is offered. -/
def OccursAsEntry (protocols : List ProtocolName) (name : Text) : Prop :=
  name <:+: wire protocols → Offers protocols name

/-! ## The search -/

variable {protos name : Text} {pos : Nat} {protocols : List ProtocolName}

theorem take_of_find (h : find protos name = some pos) :
    (protos.drop pos).take name.length = name := by
  induction protos generalizing pos with
  | nil =>
    unfold find at h
    split at h
    · rename_i hprefix
      simp [List.prefix_nil.mp hprefix]
    · cases h
  | cons c rest ih =>
    unfold find at h
    split at h
    · rename_i hprefix
      cases h
      exact (List.prefix_iff_eq_take.mp hprefix).symm
    · obtain ⟨before, hfind, rfl⟩ := Option.map_eq_some_iff.mp h
      exact ih hfind

theorem find_eq_none_iff : find protos name = none ↔ ¬ name <:+: protos := by
  induction protos with
  | nil =>
    unfold find
    rw [List.infix_nil, ← List.prefix_nil]
    split <;> simp_all
  | cons c rest ih =>
    unfold find
    rw [List.infix_cons_iff]
    split
    · simp_all
    · simp_all

theorem name_of_find (h : find protos name = some pos) (hshort : name.length ≤ 255) :
    Selected.name ⟨pos, UInt8.ofNat name.length⟩ protos = name := by
  have hlen : (UInt8.ofNat name.length).toNat = name.length := by
    simp only [UInt8.toNat_ofNat']
    omega
  rw [Selected.name, hlen]
  exact take_of_find h

theorem occurs_of_offers (h : Offers protocols name) : name <:+: wire protocols := by
  obtain ⟨p, hmem, rfl⟩ := h
  obtain ⟨before, after, rfl⟩ := List.append_of_mem hmem
  refine ⟨wire before ++ [UInt8.ofNat p.bytes.length], wire after, ?_⟩
  simp [wire, ProtocolName.wire]

theorem default_alpn_short : default_alpn.length ≤ 255 := by decide

/-! ## The choice -/

variable {first : ProtocolName} {rest : List ProtocolName} {server : Option ServerProtocol}

theorem first_name : Selected.name ⟨1, UInt8.ofNat first.bytes.length⟩ (wire (first :: rest)) =
    first.bytes := by
  have hlen : (UInt8.ofNat first.bytes.length).toNat = first.bytes.length := by
    have hshort := first.short
    simp only [UInt8.toNat_ofNat']
    omega
  simp [Selected.name, wire, ProtocolName.wire, hlen]

/-- Without the server's protocol the default is chosen where it occurs, and the first entry where
it does not. -/
theorem select_default_chooses_iff
    (hserver : ∀ s, server = some s → ¬ Offers (first :: rest) s.bytes) :
    (∃ selected, select_default (wire (first :: rest)) = some selected ∧
      Chooses first rest server (selected.name (wire (first :: rest)))) ↔
      OccursAsEntry (first :: rest) default_alpn := by
  unfold select_default
  cases hfind : find (wire (first :: rest)) default_alpn with
  | some pos =>
    have hname := name_of_find hfind default_alpn_short
    constructor
    · rintro ⟨selected, hselected, hchooses⟩ _
      cases hselected
      rw [hname] at hchooses
      exact hchooses.entry
    · intro hentry
      have hoccurs : default_alpn <:+: wire (first :: rest) := by
        apply Decidable.not_not.mp
        intro hnot
        rw [find_eq_none_iff.mpr hnot] at hfind
        cases hfind
      have hoffers := hentry hoccurs
      refine ⟨_, rfl, ?_⟩
      rw [hname]
      exact ⟨hoffers, fun s hs hoffered => absurd hoffered (hserver s hs), fun _ _ => rfl,
        fun _ hnot => absurd hoffers hnot⟩
  | none =>
    have hoccurs := find_eq_none_iff.mp hfind
    have hoffers : ¬ Offers (first :: rest) default_alpn :=
      fun hoffers => hoccurs (occurs_of_offers hoffers)
    constructor
    · intro _ hpart
      exact absurd hpart hoccurs
    · intro _
      refine ⟨⟨1, UInt8.ofNat first.bytes.length⟩, rfl, ?_⟩
      rw [first_name]
      exact ⟨⟨first, List.mem_cons_self, rfl⟩, fun s hs hoffered => absurd hoffered (hserver s hs),
        fun _ hdefault => absurd hdefault hoffers, fun _ _ => rfl⟩

/-- The right name is chosen if and only if the server's protocol, or else the default, occurs in
the bytes of the list only if it is offered. -/
theorem the_right_protocol_is_selected_iff (first : ProtocolName) (rest : List ProtocolName)
    (server : Option ServerProtocol) :
    (∃ selected, alpn_select_callback (wire (first :: rest))
        (select_arg (server.map (fun s => s.bytes))) = some selected ∧
      Chooses first rest server (selected.name (wire (first :: rest)))) ↔
      (∀ s, server = some s → OccursAsEntry (first :: rest) s.bytes) ∧
      ((∀ s, server = some s → ¬ s.bytes <:+: wire (first :: rest)) →
        OccursAsEntry (first :: rest) default_alpn) := by
  cases server with
  | none =>
    have hnone : ∀ s : ServerProtocol, none = some s → ¬ Offers (first :: rest) s.bytes :=
      fun s hs => by cases hs
    have hdefault := select_default_chooses_iff hnone
    simpa [alpn_select_callback, select_arg] using hdefault
  | some s =>
    have harg : select_arg (some s.bytes) = some s.bytes := by
      simpa [select_arg] using List.length_pos_iff.mpr s.nonempty
    simp only [Option.map_some, harg, alpn_select_callback, c_string_of_notMem s.no_nul,
      Option.some.injEq, forall_eq']
    cases hfind : find (wire (first :: rest)) s.bytes with
    | some pos =>
      have hname := name_of_find hfind s.short
      have hoccurs : s.bytes <:+: wire (first :: rest) := by
        apply Decidable.not_not.mp
        intro hnot
        rw [find_eq_none_iff.mpr hnot] at hfind
        cases hfind
      constructor
      · rintro ⟨selected, hselected, hchooses⟩
        cases hselected
        rw [hname] at hchooses
        exact ⟨fun _ => hchooses.entry, fun hnot => absurd hoccurs hnot⟩
      · rintro ⟨hentry, -⟩
        have hoffers := hentry hoccurs
        refine ⟨_, rfl, ?_⟩
        rw [hname]
        exact ⟨hoffers, fun s' hs' _ => by cases hs'; rfl,
          fun hnot => absurd hoffers (hnot s rfl), fun hnot => absurd hoffers (hnot s rfl)⟩
    | none =>
      have hoccurs := find_eq_none_iff.mp hfind
      have hserver : ∀ s', some s = some s' → ¬ Offers (first :: rest) s'.bytes := by
        rintro s' hs' hoffers
        cases hs'
        exact hoccurs (occurs_of_offers hoffers)
      rw [select_default_chooses_iff hserver]
      constructor
      · intro hentry
        exact ⟨fun hpart => absurd hpart hoccurs, fun _ => hentry⟩
      · rintro ⟨-, hentry⟩
        exact hentry hoccurs

/-- The list offers one protocol, whose name begins with that of the server's. -/
def offered : ProtocolName := ⟨[104, 50, 99], by decide, by decide⟩

def negotiated : ServerProtocol := ⟨⟨[104, 50], by decide, by decide⟩, by decide⟩

theorem a_part_of_a_name_is_selected : ¬ ∀ (first : ProtocolName) (rest : List ProtocolName)
    (server : Option ServerProtocol), ∃ selected, alpn_select_callback (wire (first :: rest))
        (select_arg (server.map (fun s => s.bytes))) = some selected ∧
      Chooses first rest server (selected.name (wire (first :: rest))) := by
  intro h
  obtain ⟨selected, hselected, hchooses⟩ := h offered [] (some negotiated)
  have hcalled : alpn_select_callback [3, 104, 50, 99] (some [104, 50]) = some ⟨1, 2⟩ := by decide
  have heq := Option.some.inj (hselected.symm.trans hcalled)
  subst heq
  obtain ⟨p, hmem, hname⟩ := hchooses.entry
  rw [List.mem_singleton.mp hmem] at hname
  revert hname
  decide

end proxy.tls
