-- The references to certificates and keys that `client_connection::establish_tls_async` and
-- `server_connection::on_handshake` take, with those that the contexts of OpenSSL keep.
--
-- A function that sets a context up either counts the reference that it keeps, or takes over that
-- of its caller. Which one does what is a parameter, and what OpenSSL documents a hypothesis.
import Aether.Util.OpensslPtrRuns

open Function openssl openssl.ptrs

namespace proxy.connection.tls_references

/-! ## The calls -/

/-- The pointers of `ssl_server_context_args`. -/
structure ServerContextArgs where
  cert : Nat
  pkey : Nat
  dhpkey : Nat
  /-- Empty also if there is none. -/
  cert_chain : List Nat
  deriving Repr

/-- What OpenSSL answers while a context is set up. -/
structure Answers where
  use_private_key : Bool
  use_certificate : Bool
  /-- How many certificates are added before one is refused. -/
  chain_certs_added : Nat
  set0_tmp_dh_pkey : Bool
  deriving Repr

/-- The functions that keep a reference in a context. -/
inductive ContextCall where
  | use_PrivateKey
  | use_certificate
  | add_extra_chain_cert
  | set0_tmp_dh_pkey
  deriving DecidableEq, Repr

/-- What OpenSSL documents of the functions: which of them count a reference. -/
structure Documented (counts : ContextCall → Bool) : Prop where
  use_PrivateKey : counts .use_PrivateKey = true
  use_certificate : counts .use_certificate = true
  add_extra_chain_cert : counts .add_extra_chain_cert = false
  set0_tmp_dh_pkey : counts .set0_tmp_dh_pkey = false

/-- A function is given the object of a pointer to keep. -/
def keep (counts : ContextCall → Bool) (call : ContextCall) (p : Nat) : ptrs.Event :=
  if counts call then .share p else .adopt p

/-- The certificates of the chain that are added. -/
def ServerContextArgs.added (args : ServerContextArgs) (answers : Answers) : List Nat :=
  if answers.use_private_key && answers.use_certificate then
    args.cert_chain.take answers.chain_certs_added
  else []

/-- The calls of `client_connection::establish_tls_async`, with its `cert_`, until the context is
set up or one of them fails. -/
def establish_tls (counts : ContextCall → Bool) (pointers : Nat → Option Pointer) (cert_ : Nat)
    (args : ServerContextArgs) (answers : Answers) : List ptrs.Event :=
  if !answers.use_private_key then []
  else keep counts .use_PrivateKey args.pkey :: .copy_assign cert_ args.cert ::
    if !answers.use_certificate then []
    else keep counts .use_certificate cert_ ::
      ((args.added answers).map (keep counts .add_extra_chain_cert) ++
        if (args.added answers).length < args.cert_chain.length then []
        else if ((pointers args.dhpkey).bind Pointer.native_).isSome &&
            answers.set0_tmp_dh_pkey then
          [keep counts .set0_tmp_dh_pkey args.dhpkey, .increment args.dhpkey]
        else [])

/-- The calls of `server_connection::on_handshake`, with its `cert_`, the pointer that is made of
the certificate of the server, and what is added to its `cert_chain_`. -/
def on_handshake (cert_ temporary : Nat) (leaf : Option Nat) (chain : List (Nat × Nat)) :
    List ptrs.Event :=
  leaf.toList.map .get ++ [.wrap_unique temporary .x509 leaf, .move_assign cert_ temporary,
    .destroy temporary] ++ chain.map fun c => .reference c.1 .x509 (some c.2)

/-- What happens to the certificates and keys of the proxy. -/
inductive Action where
  /-- Something else is done with a pointer, or by OpenSSL. -/
  | event (e : ptrs.Event)
  /-- A pointer to an object that is read from a file or generated. -/
  | load (p : Nat) (type : NativeType) (a : Nat)
  | establish_tls (cert_ : Nat) (args : ServerContextArgs) (answers : Answers)
  | on_handshake (cert_ temporary : Nat) (leaf : Option Nat) (chain : List (Nat × Nat))
  deriving Repr

def Action.calls (counts : ContextCall → Bool) (pointers : Nat → Option Pointer) :
    Action → List ptrs.Event
  | .event e => [e]
  | .load p type a => [.give a, .wrap_unique p type (some a)]
  | .establish_tls cert_ args answers =>
    tls_references.establish_tls counts pointers cert_ args answers
  | .on_handshake cert_ temporary leaf chain =>
    tls_references.on_handshake cert_ temporary leaf chain

/-- No reference is taken by hand, or given away. -/
def keeps_raw : ptrs.Event → Bool
  | .construct _ _ | .in_place _ _ _ | .wrap_unique _ _ none | .reference _ _ _
  | .copy_construct _ _ | .copy_assign _ _ | .move_construct _ _ | .move_assign _ _
  | .destroy _ | .make _ | .share _ | .drop _ => true
  | _ => false

def Action.ordinary : Action → Bool
  | .event e => keeps_raw e
  | _ => true

/-- The certificates that an action adds to a chain. -/
def Action.chain_added : Action → List Nat
  | .establish_tls _ args answers => args.added answers
  | _ => []

def act (counts : ContextCall → Bool) (s : ptrs.System) (a : Action) : Except Fault ptrs.System :=
  s.run (a.calls counts s.pointers)

def act_all (counts : ContextCall → Bool) (s : ptrs.System) (as : List Action) :
    Except Fault ptrs.System :=
  as.foldlM (act counts) s

/-- What the actions mean for pointers that share objects. -/
inductive Acts (counts : ContextCall → Bool) : Shares → List Action → Shares → Prop where
  | nil (t : Shares) : Acts counts t [] t
  | cons {t t₁ t' : Shares} {a : Action} {as : List Action} (ordinary : a.ordinary = true)
    (run : Run (fun _ => True) t (a.calls counts t.pointers) t₁) (rest : Acts counts t₁ as t') :
    Acts counts t (a :: as) t'

/-! ## What is by hand -/

variable {t t' : Shares} {references : Nat → Nat} {es : List ptrs.Event}
  {counts : ContextCall → Bool}

theorem raw_of_keeps {e : ptrs.Event} (hk : keeps_raw e = true) (h : Step t e t') :
    t'.raw = t.raw := by
  cases h <;> first | rfl | cases hk

theorem not_short_of_keeps {e : ptrs.Event} (hk : keeps_raw e = true) (h : Step t e t')
    (hraw : NotShort t) : NotShort t' := by
  intro a
  rw [raw_of_keeps hk h]
  exact hraw a

theorem run_keeps (hk : ∀ e ∈ es, keeps_raw e = true) (hraw : NotShort t)
    (h : Run (fun _ => True) t es t') : Run NotShort t es t' := by
  induction h with
  | nil _ => exact .nil hraw
  | cons _ step _ ih =>
    rw [List.forall_mem_cons] at hk
    exact .cons hraw step (ih hk.2 (not_short_of_keeps hk.1 step hraw))

theorem raw_of_run (hk : ∀ e ∈ es, keeps_raw e = true) (h : Run (fun _ => True) t es t') :
    t'.raw = t.raw := by
  induction h with
  | nil _ => rfl
  | cons _ step _ ih =>
    rw [List.forall_mem_cons] at hk
    exact (ih hk.2).trans (raw_of_keeps hk.1 step)

/-- A reference that is by hand is taken over by a pointer at once. -/
theorem run_taken {e : ptrs.Event} {p a : Nat} {type : NativeType}
    (he : ∀ t₁, Step t e t₁ → t₁ = t.add_raw a) (hk : ∀ e ∈ es, keeps_raw e = true)
    (h : Run (fun _ => True) t (e :: .wrap_unique p type (some a) :: es) t') :
    t'.raw = t.raw ∧
      (NotShort t → Run NotShort t (e :: .wrap_unique p type (some a) :: es) t') := by
  obtain _ | ⟨-, hfirst, hrest⟩ := h
  obtain rfl := he _ hfirst
  obtain _ | @⟨_, t₂, _, _, _, -, hwrap, hrest⟩ := hrest
  have hsame : t₂.raw = t.raw := by
    cases hwrap
    simp [Shares.spend_raw, Shares.set, Shares.add_raw]
  refine ⟨(raw_of_run hk hrest).trans hsame, fun hraw => ?_⟩
  have hraw₂ : NotShort t₂ := by
    intro b
    rw [hsame]
    exact hraw b
  exact .cons hraw hfirst (.cons (hraw.add_raw a) hwrap (run_keeps hk hraw₂ hrest))

theorem spend_raw_le (t : Shares) (a b : Nat) : (t.spend_raw a).raw b ≤ t.raw b := by
  show update t.raw a (t.raw a - 1) b ≤ t.raw b
  rw [update_apply]
  split
  · rename_i heq
    subst heq
    omega
  · exact le_refl _

/-- References that are given away without a count are missing. -/
theorem raw_of_adopts {places : List Nat}
    (h : Run (fun _ => True) t (places.map .adopt) t') :
    (∀ a, t'.raw a ≤ t.raw a) ∧ (places ≠ [] → ∃ a, t'.raw a < t.raw a) := by
  induction places generalizing t with
  | nil =>
    cases h
    exact ⟨fun a => le_refl _, fun hne => absurd rfl hne⟩
  | cons p places ih =>
    obtain _ | ⟨-, hadopt, hrest⟩ := h
    obtain ⟨hle, -⟩ := ih hrest
    cases hadopt with
    | @adopt _ a _ there some_ =>
      refine ⟨fun b => (hle b).trans (spend_raw_le (t.add_outside a) a b), fun _ => ⟨a, ?_⟩⟩
      have hspent : ((t.add_outside a).spend_raw a).raw a = t.raw a - 1 := update_self _ _ _
      have ha := hle a
      rw [hspent] at ha
      omega

/-- The parameters keep the reference that is counted behind their call. -/
theorem run_adopt_increment (references : Nat → Nat) {p : Nat}
    (h : Run (fun _ => True) t [.adopt p, .increment p] t') :
    t'.raw = t.raw ∧ (Counts t references → NotShort t → ∃ references',
      (t.counted_by references).run [.adopt p, .increment p] = .ok (t'.counted_by references') ∧
        Counts t' references') := by
  obtain _ | ⟨-, hadopt, hrest⟩ := h
  obtain _ | ⟨-, hincrement, hnil⟩ := hrest
  cases hnil
  cases hadopt with
  | @adopt _ a x there some_ =>
    cases hincrement with
    | @increment _ b y there' counted some' =>
      obtain rfl : x = y := Option.some.inj (there.symm.trans there')
      obtain rfl : a = b := Option.some.inj (some_.symm.trans some')
      have hraw : (((t.add_outside a).spend_raw a).add_raw a).raw = t.raw := by
        simp [Shares.add_raw, Shares.spend_raw, Shares.add_outside]
      refine ⟨hraw, fun hcounts hshort => ?_⟩
      have hown := Shares.own_of_there there
      rw [some_] at hown
      -- The object was there before the context took its reference over.
      have hthere : references a ≠ 0 := by
        intro hzero
        have hmissing := short_of_owned hcounts (.inl ⟨p, hown⟩) hzero
        have ha := hshort a
        omega
      refine ⟨update references a (references a + 1), ?_, (hcounts.adopt a).add_raw a⟩
      have hfirst : (t.counted_by references).step (.adopt p) =
          .ok (((t.add_outside a).spend_raw a).counted_by references) := by
        rw [ptrs.System.step, ptrs.System.adopt, Shares.pointer_counted there]
        simp only [bind, Except.bind, some_]
        rfl
      have hsecond : (((t.add_outside a).spend_raw a).counted_by references).step (.increment p) =
          .ok ((((t.add_outside a).spend_raw a).add_raw a).counted_by
            (update references a (references a + 1))) := by
        rw [ptrs.System.step, ptrs.System.increment, Shares.pointer_counted there']
        simp only [bind, Except.bind, ptrs.System.require, counted, if_true, some_]
        exact Shares.increment_counted hthere
      rw [ptrs.System.run_cons, hfirst]
      exact (ptrs.System.run_cons _ _ _).trans (by rw [hsecond]; rfl)

/-! ## Actions -/

/-- A context is set up, or not to its end: what OpenSSL counts, the chain, and the parameters. -/
theorem establish_tls_calls (documented : Documented counts) (pointers : Nat → Option Pointer)
    (cert_ : Nat) (args : ServerContextArgs) (answers : Answers) :
    ∃ front last, establish_tls counts pointers cert_ args answers =
        front ++ ((args.added answers).map .adopt ++ last) ∧
      (∀ e ∈ front, keeps_raw e = true) ∧
      (last = [] ∨ last = [.adopt args.dhpkey, .increment args.dhpkey]) := by
  obtain ⟨key, cert, added, dh⟩ := answers
  have hchain : keep counts .add_extra_chain_cert = .adopt := by
    funext p
    rw [keep, documented.add_extra_chain_cert]
    rfl
  have hkey : keep counts .use_PrivateKey args.pkey = .share args.pkey := by
    rw [keep, documented.use_PrivateKey]
    rfl
  have hcert : keep counts .use_certificate cert_ = .share cert_ := by
    rw [keep, documented.use_certificate]
    rfl
  have hdh : keep counts .set0_tmp_dh_pkey args.dhpkey = .adopt args.dhpkey := by
    rw [keep, documented.set0_tmp_dh_pkey]
    rfl
  unfold establish_tls
  rw [hchain, hkey, hcert, hdh]
  cases key with
  | false => exact ⟨[], [], rfl, by simp, .inl rfl⟩
  | true =>
    cases cert with
    | false =>
      exact ⟨[.share args.pkey, .copy_assign cert_ args.cert], [], rfl, by simp [keeps_raw],
        .inl rfl⟩
    | true =>
      refine ⟨[.share args.pkey, .copy_assign cert_ args.cert, .share cert_], _, rfl,
        by simp [keeps_raw], ?_⟩
      split
      · exact .inl rfl
      · split
        · exact .inr rfl
        · exact .inl rfl

theorem keeps_chain (cert_ temporary : Nat) (chain : List (Nat × Nat)) :
    ∀ e ∈ ptrs.Event.move_assign cert_ temporary :: .destroy temporary ::
      chain.map fun c => .reference c.1 .x509 (some c.2), keeps_raw e = true := by
  intro e he
  rcases List.mem_cons.mp he with rfl | he
  · rfl
  · rcases List.mem_cons.mp he with rfl | he
    · rfl
    · obtain ⟨c, -, rfl⟩ := List.mem_map.mp he
      rfl

/-- The calls of a handshake, if the server has no certificate. -/
theorem on_handshake_keeps (cert_ temporary : Nat) (chain : List (Nat × Nat)) :
    ∀ e ∈ on_handshake cert_ temporary none chain, keeps_raw e = true :=
  List.forall_mem_cons.mpr ⟨rfl, keeps_chain cert_ temporary chain⟩

/-- The reference to the certificate of the server is taken over by the pointer that is made. -/
theorem on_handshake_calls (cert_ temporary a : Nat) (chain : List (Nat × Nat)) :
    ∃ es, on_handshake cert_ temporary (some a) chain =
        .get a :: .wrap_unique temporary .x509 (some a) :: es ∧ ∀ e ∈ es, keeps_raw e = true :=
  ⟨_, rfl, keeps_chain cert_ temporary chain⟩

theorem step_give {a : Nat} {t₁ : Shares} (h : Step t (.give a) t₁) : t₁ = t.add_raw a := by
  cases h
  rfl

theorem step_get {a : Nat} {t₁ : Shares} (h : Step t (.get a) t₁) : t₁ = t.add_raw a := by
  cases h
  rfl

variable {a : Action}

/-- Only a chain leaves a reference missing. -/
theorem raw_of_act (documented : Documented counts) (ordinary : a.ordinary = true)
    (h : Run (fun _ => True) t (a.calls counts t.pointers) t') :
    (∀ b, t'.raw b ≤ t.raw b) ∧ (a.chain_added ≠ [] → ∃ b, t'.raw b < t.raw b) := by
  have hsame (heq : t'.raw = t.raw) (hnone : a.chain_added = []) :
      (∀ b, t'.raw b ≤ t.raw b) ∧ (a.chain_added ≠ [] → ∃ b, t'.raw b < t.raw b) := by
    refine ⟨fun b => ?_, fun hne => absurd hnone hne⟩
    rw [heq]
  cases a with
  | event e =>
    have hk : ∀ e' ∈ [e], keeps_raw e' = true := by
      intro e' he'
      obtain rfl := List.mem_singleton.mp he'
      exact ordinary
    exact hsame (raw_of_run hk h) rfl
  | load p type b => exact hsame (run_taken (fun _ => step_give) (by simp) h).1 rfl
  | on_handshake cert_ temporary leaf chain =>
    cases leaf with
    | none => exact hsame (raw_of_run (on_handshake_keeps _ _ _) h) rfl
    | some b =>
      obtain ⟨es, hcalls, hk⟩ := on_handshake_calls cert_ temporary b chain
      rw [Action.calls, hcalls] at h
      exact hsame (run_taken (fun _ => step_get) hk h).1 rfl
  | establish_tls cert_ args answers =>
    obtain ⟨front, last, hcalls, hfront, hlast⟩ :=
      establish_tls_calls documented t.pointers cert_ args answers
    rw [Action.calls, hcalls] at h
    obtain ⟨t₁, hrun₁, h⟩ := h.append
    obtain ⟨t₂, hrun₂, hrun₃⟩ := h.append
    obtain ⟨hle, hlt⟩ := raw_of_adopts hrun₂
    rw [raw_of_run hfront hrun₁] at hle hlt
    have hend : t'.raw = t₂.raw := by
      rcases hlast with rfl | rfl
      · cases hrun₃
        rfl
      · exact (run_adopt_increment (fun _ => 0) hrun₃).1
    rw [hend]
    exact ⟨hle, hlt⟩

/-- Without a chain no function fails, and no reference is missing behind it. -/
theorem act_follows (documented : Documented counts) (ordinary : a.ordinary = true)
    (hnone : a.chain_added = []) (h : Counts t references) (hraw : NotShort t)
    (hrun : Run (fun _ => True) t (a.calls counts t.pointers) t') :
    ∃ references', act counts (t.counted_by references) a = .ok (t'.counted_by references') ∧
      Counts t' references' ∧ NotShort t' := by
  show ∃ references', (t.counted_by references).run (a.calls counts t.pointers) = _ ∧ _
  cases a with
  | event e =>
    have hk : ∀ e' ∈ [e], keeps_raw e' = true := by
      intro e' he'
      obtain rfl := List.mem_singleton.mp he'
      exact ordinary
    exact run_follows h (run_keeps hk hraw hrun)
  | load p type b =>
    exact run_follows h ((run_taken (fun _ => step_give) (by simp) hrun).2 hraw)
  | on_handshake cert_ temporary leaf chain =>
    cases leaf with
    | none => exact run_follows h (run_keeps (on_handshake_keeps _ _ _) hraw hrun)
    | some b =>
      obtain ⟨es, hcalls, hk⟩ := on_handshake_calls cert_ temporary b chain
      rw [Action.calls, hcalls] at hrun ⊢
      exact run_follows h ((run_taken (fun _ => step_get) hk hrun).2 hraw)
  | establish_tls cert_ args answers =>
    obtain ⟨front, last, hcalls, hfront, hlast⟩ :=
      establish_tls_calls documented t.pointers cert_ args answers
    have hadded : args.added answers = [] := hnone
    rw [hadded] at hcalls
    rw [Action.calls, hcalls] at hrun ⊢
    obtain ⟨t₁, hrun₁, hrun₂⟩ := hrun.append
    obtain ⟨references₁, hok₁, hcounts₁, hraw₁⟩ := run_follows h (run_keeps hfront hraw hrun₁)
    have hsplit : (t.counted_by references).run (front ++ ([].map ptrs.Event.adopt ++ last)) =
        (t₁.counted_by references₁).run last := by
      rw [ptrs.System.run_append, hok₁]
      rfl
    rw [hsplit]
    rcases hlast with rfl | rfl
    · cases hrun₂
      exact ⟨references₁, rfl, hcounts₁, hraw₁⟩
    · obtain ⟨hsame, hrest⟩ := run_adopt_increment references₁ hrun₂
      obtain ⟨references₂, hok₂, hcounts₂⟩ := hrest hcounts₁ hraw₁
      refine ⟨references₂, hok₂, hcounts₂, fun b => ?_⟩
      rw [hsame]
      exact hraw₁ b

/-! ## Runs -/

variable {as : List Action}

theorem acts_follow (documented : Documented counts) (h : Acts counts t as t')
    (hnone : ∀ a ∈ as, a.chain_added = []) (hcounts : Counts t references) (hraw : NotShort t) :
    ∃ references', act_all counts (t.counted_by references) as =
        .ok (t'.counted_by references') ∧
      Counts t' references' ∧ NotShort t' := by
  induction h generalizing references with
  | nil t => exact ⟨references, rfl, hcounts, hraw⟩
  | cons ordinary run _ ih =>
    rw [List.forall_mem_cons] at hnone
    obtain ⟨references₁, hok, hcounts₁, hraw₁⟩ :=
      act_follows documented ordinary hnone.1 hcounts hraw run
    obtain ⟨references₂, hrest, hcounts₂⟩ := ih hnone.2 hcounts₁ hraw₁
    refine ⟨references₂, ?_, hcounts₂⟩
    show Except.bind (act _ _ _) _ = _
    rw [hok]
    exact hrest

theorem counts_of_acts {s : ptrs.System} (h : Acts counts t as t') (hcounts : Counts t references)
    (hs : act_all counts (t.counted_by references) as = .ok s) :
    ∃ references', s = t'.counted_by references' ∧ Counts t' references' := by
  induction h generalizing references with
  | nil t =>
    obtain rfl := Except.ok.inj hs
    exact ⟨references, rfl, hcounts⟩
  | @cons t t₁ t' a as _ run _ ih =>
    have hsplit : act_all counts (t.counted_by references) (a :: as) =
        (act counts (t.counted_by references) a).bind fun s => act_all counts s as := rfl
    rw [hsplit] at hs
    cases hact : act counts (t.counted_by references) a with
    | error fault =>
      rw [hact] at hs
      cases hs
    | ok s₁ =>
      rw [hact] at hs
      obtain ⟨references₁, rfl, hcounts₁⟩ := counts_of_run hcounts run hact
      exact ih hcounts₁ hs

theorem raw_of_acts (documented : Documented counts) (h : Acts counts t as t') :
    (∀ b, t'.raw b ≤ t.raw b) ∧
      ((∃ a ∈ as, a.chain_added ≠ []) → ∃ b, t'.raw b < t.raw b) := by
  induction h with
  | nil t => exact ⟨fun b => le_refl _, by simp⟩
  | cons ordinary run _ ih =>
    obtain ⟨hle, hlt⟩ := raw_of_act documented ordinary run
    refine ⟨fun b => (ih.1 b).trans (hle b), ?_⟩
    rintro ⟨a, ha, hadded⟩
    rcases List.mem_cons.mp ha with rfl | ha
    · obtain ⟨b, hb⟩ := hlt hadded
      exact ⟨b, (ih.1 b).trans_lt hb⟩
    · obtain ⟨b, hb⟩ := ih.2 ⟨a, ha, hadded⟩
      exact ⟨b, hb.trans_le (hle b)⟩

/-- When all pointers are gone and all contexts are freed, each certificate and key was freed once
and used by nobody behind that, exactly if no certificate was added to the chain of a context. -/
theorem everything_is_freed_once_iff (documented : Documented counts) (h : Acts counts .new as t)
    (hpointers : ∀ p, t.pointers p = none) (hout : ∀ a, t.outside a = 0) :
    (∃ s, act_all counts .new as = .ok s ∧ ∀ a, s.references a = 0) ↔
      ∀ a ∈ as, a.chain_added = [] := by
  obtain ⟨hle, hlt⟩ := raw_of_acts documented h
  constructor
  · rintro ⟨s, hs, -⟩ a ha
    obtain ⟨references, -, hcounts⟩ := counts_of_acts h counts_new_system hs
    by_contra hne
    obtain ⟨b, hb⟩ := hlt ⟨a, ha, hne⟩
    have hzero : Shares.new.raw b = 0 := rfl
    have hcount := references_of_released hcounts hpointers hout b
    omega
  · intro hnone
    obtain ⟨references, hs, hcounts, -⟩ :=
      acts_follow documented h hnone counts_new_system fun _ => le_refl _
    refine ⟨_, hs, fun b => ?_⟩
    have hzero : Shares.new.raw b = 0 := rfl
    have hcount := references_of_released hcounts hpointers hout b
    have hb := hle b
    show references b = 0
    omega

/-- A client's context is given a certificate and its key, with the certificate as its chain. -/
def with_chain : List Action :=
  [.load 12 .x509 1, .load 20 .evp_pkey 2, .event (.construct 22 .evp_pkey),
    .event (.construct 30 .x509),
    .establish_tls 30 ⟨12, 20, 22, [12]⟩ ⟨true, true, 1, false⟩,
    .event (.drop 2), .event (.drop 1), .event (.drop 1), .event (.destroy 12),
    .event (.destroy 20), .event (.destroy 22), .event (.destroy 30)]

/-- Which functions count, as it is documented. -/
def as_documented : ContextCall → Bool
  | .use_PrivateKey | .use_certificate => true
  | .add_extra_chain_cert | .set0_tmp_dh_pkey => false

/-- The certificate is freed with the context, and used behind that. -/
theorem a_chain_is_freed_twice :
    ¬ ∃ s, act_all as_documented .new with_chain = .ok s ∧ ∀ a, s.references a = 0 := by
  have hloaded :
      ¬ (((Shares.new.add_raw 1).set 12 (some ⟨.x509, some 1⟩)).spend_raw 1).Owned 2 := by
    rintro (⟨p, hp⟩ | hout | hraw)
    · simp only [Shares.own, Shares.set, Shares.spend_raw, Shares.add_raw, Shares.new,
        update_apply] at hp
      split at hp <;> cases hp
    · cases hout
    · revert hraw
      decide
  obtain ⟨t, hacts, hpointers, hout⟩ : ∃ t, Acts as_documented .new with_chain t ∧
      (∀ p, t.pointers p = none) ∧ ∀ a, t.outside a = 0 := by
    refine ⟨_, .cons rfl (.cons trivial (.give (not_owned_new 1)) (.cons trivial
      (.wrap_unique rfl .x509 1) (.nil trivial))) (.cons rfl (.cons trivial (.give hloaded)
      (.cons trivial (.wrap_unique rfl .evp_pkey 2) (.nil trivial)))
      (.cons rfl (.cons trivial (.construct rfl .evp_pkey) (.nil trivial))
      (.cons rfl (.cons trivial (.construct rfl .x509) (.nil trivial))
      (.cons rfl (.cons trivial (.share rfl rfl) (.cons trivial (.copy_assign rfl rfl rfl rfl)
        (.cons trivial (.share rfl rfl) (.cons trivial (.adopt rfl rfl) (.nil trivial)))))
      (.cons rfl (.cons trivial (.drop (by decide)) (.nil trivial))
      (.cons rfl (.cons trivial (.drop (by decide)) (.nil trivial))
      (.cons rfl (.cons trivial (.drop (by decide)) (.nil trivial))
      (.cons rfl (.cons trivial (.destroy rfl) (.nil trivial))
      (.cons rfl (.cons trivial (.destroy rfl) (.nil trivial))
      (.cons rfl (.cons trivial (.destroy rfl) (.nil trivial))
      (.cons rfl (.cons trivial (.destroy rfl) (.nil trivial)) (.nil _)))))))))))), ?_, ?_⟩
    · intro p
      simp only [Shares.set, Shares.spend_raw, Shares.add_raw, Shares.add_outside,
        Shares.drop_outside, Shares.new, update_apply]
      grind
    · intro a
      simp only [Shares.set, Shares.spend_raw, Shares.add_raw, Shares.add_outside,
        Shares.drop_outside, Shares.new, update_apply]
      grind
  rw [everything_is_freed_once_iff ⟨rfl, rfl, rfl, rfl⟩ hacts hpointers hout]
  intro hnone
  have hadded := hnone _ (List.mem_cons_of_mem _ (List.mem_cons_of_mem _ (List.mem_cons_of_mem _
    (List.mem_cons_of_mem _ List.mem_cons_self))))
  cases hadded

end proxy.connection.tls_references
