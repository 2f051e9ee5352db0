-- The certificates that a store keeps over its calls.
--
-- The queue has the keys of the map in the order of their insertions, so that its front is
-- the next to delete. An insertion under a key that the map has leaves the map as it is, but
-- the queue gets the key once more.
import Aether.Lib.Runs
import Aether.Tls.ServerStore

open lib.runs

namespace proxy.tls.x509

/-! ## Calls -/

/-- A store, and the keys of all insertions so far. -/
structure History where
  store : ServerStore
  inserted : List Name

inductive StoreCall where
  | insert (key : Name) (cert : MemoryCertificate)
  | create_certificate (ci : CertificateInterface)

namespace History

def new : History := ⟨.new, []⟩

/-- The key that `create_certificate` inserts under. -/
def key_of (ci : CertificateInterface) : Name := ci.common_name.getD []

/-- The history after an insertion. There is none where the store is used after the deletion. -/
def after (h : History) (key : Name) (result : Except Error Obtained) : Option History :=
  result.toOption.map (fun o => ⟨o.store, h.inserted ++ [key]⟩)

/-- A certificate that cannot be generated is not inserted. -/
def step (ssl : OpenSsl) (h : History) : StoreCall → Option History
  | .insert key cert => h.after key (h.store.insert key cert)
  | .create_certificate ci =>
    match ssl.generate_certificate ci with
    | .error _ => some h
    | .ok _ => h.after (key_of ci) (h.store.create_certificate ssl ci)

/-! ## What the store should keep -/

/-- The map is within its capacity, and the queue has each of its keys once, in the order of the
insertions. -/
structure Consistent (h : History) : Prop where
  bound : h.store.cert_map_.size ≤ max_num_certs
  keys : ∀ k, k ∈ h.store.cert_queue_ ↔ k ∈ h.store.cert_map_
  once : h.store.cert_queue_.Nodup
  order : h.store.cert_queue_ <:+ h.inserted

/-- The certificate is given out and is in the store, and of the others the oldest is deleted if
there is no room. -/
structure Inserts (h : History) (key : Name) (cert : MemoryCertificate) (o : Obtained) : Prop where
  given : o.cert = cert
  stored : o.store.cert_map_[key]? = some cert
  others : ∀ k, k ≠ key → o.store.cert_map_[k]? =
    if h.store.cert_map_.size = max_num_certs ∧ h.store.cert_queue_.head? = some k then none
    else h.store.cert_map_[k]?
  consistent : Consistent ⟨o.store, h.inserted ++ [key]⟩

/-- The call inserts its certificate, if there is one. -/
def Right (ssl : OpenSsl) (h : History) : StoreCall → Prop
  | .insert key cert => ∃ o, h.store.insert key cert = .ok o ∧ h.Inserts key cert o
  | .create_certificate ci => ∀ cert, ssl.generate_certificate ci = .ok cert →
    ∃ o, h.store.create_certificate ssl ci = .ok o ∧
      h.Inserts (key_of ci) ⟨cert, cert.all_server_names⟩ o

/-- The call inserts under no key that the map has. -/
def Fresh (ssl : OpenSsl) (h : History) : StoreCall → Prop
  | .insert key _ => key ∉ h.store.cert_map_
  | .create_certificate ci => ∀ cert, ssl.generate_certificate ci = .ok cert →
    key_of ci ∉ h.store.cert_map_

/-! ## Insertions -/

variable {ssl : OpenSsl} {h h' : History} {key : Name} {cert : MemoryCertificate} {o : Obtained}

theorem consistent_new : Consistent .new where
  bound := Nat.zero_le _
  keys := by simp [new, ServerStore.new]
  once := List.nodup_nil
  order := List.suffix_refl []

/-- The queue is as long as the map is large. -/
theorem Consistent.length_queue (hc : Consistent h) :
    h.store.cert_queue_.length = h.store.cert_map_.size := by
  rw [← Std.TreeMap.length_keys]
  apply List.Perm.length_eq
  apply (List.perm_ext_iff_of_nodup hc.once Std.TreeMap.nodup_keys).mpr
  intro k
  rw [hc.keys, Std.TreeMap.mem_keys]

theorem size_of_fresh (hkey : key ∉ h.store.cert_map_) :
    (h.store.cert_map_.insertIfNew key cert).size = h.store.cert_map_.size + 1 := by
  rw [Std.TreeMap.size_insertIfNew, if_neg hkey]

theorem getElem_of_fresh (hkey : key ∉ h.store.cert_map_) (k : Name) :
    (h.store.cert_map_.insertIfNew key cert)[k]? =
      if k = key then some cert else h.store.cert_map_[k]? := by
  rw [Std.TreeMap.getElem?_insertIfNew]
  by_cases hk : k = key
  · subst hk
    simp [hkey]
  · have hne : compare key k ≠ .eq := fun heq => hk (Std.LawfulEqCmp.eq_of_compare heq).symm
    rw [if_neg hk, if_neg (fun hnew => hne hnew.1)]

theorem mem_of_fresh (k : Name) :
    k ∈ h.store.cert_map_.insertIfNew key cert ↔ k = key ∨ k ∈ h.store.cert_map_ := by
  rw [Std.TreeMap.mem_insertIfNew, Std.LawfulEqCmp.compare_eq_iff_eq, eq_comm]

theorem nodup_snoc {queue : List Name} (hqueue : queue.Nodup) (hkey : key ∉ queue) :
    (queue ++ [key]).Nodup :=
  (List.perm_append_singleton key queue).nodup_iff.mpr (List.nodup_cons.mpr ⟨hkey, hqueue⟩)

/-- With room for it, a certificate under a new key is the newest of the store. -/
theorem insert_with_room (hc : Consistent h) (hkey : key ∉ h.store.cert_map_)
    (hroom : h.store.cert_map_.size < max_num_certs) :
    ∃ o, h.store.insert key cert = .ok o ∧ h.Inserts key cert o := by
  have hget := @getElem_of_fresh h key cert hkey
  have hself := hget key
  rw [if_pos rfl] at hself
  have hfits : ¬ (h.store.cert_map_.insertIfNew key cert).size > max_num_certs := by
    rw [size_of_fresh hkey]
    omega
  refine ⟨⟨⟨h.store.cert_map_.insertIfNew key cert, h.store.cert_queue_ ++ [key]⟩, cert⟩, ?_, ?_⟩
  · simp only [ServerStore.insert, if_neg hfits, hself]
  · refine ⟨rfl, hself, ?_, ?_, ?_, ?_, ?_⟩
    · intro k hk
      rw [hget, if_neg hk, if_neg (fun hfull => Nat.ne_of_lt hroom hfull.1)]
    · exact Nat.le_of_not_lt hfits
    · intro k
      rw [List.mem_append, List.mem_singleton, mem_of_fresh, hc.keys, Or.comm]
    · exact nodup_snoc hc.once (fun hmem => hkey ((hc.keys key).mp hmem))
    · obtain ⟨older, holder⟩ := hc.order
      exact ⟨older, by rw [← holder, List.append_assoc]⟩

/-- Without room the oldest certificate is deleted, and that is another one. -/
theorem insert_without_room (hc : Consistent h) (hkey : key ∉ h.store.cert_map_)
    (hfull : h.store.cert_map_.size = max_num_certs) :
    ∃ o, h.store.insert key cert = .ok o ∧ h.Inserts key cert o := by
  obtain ⟨oldest, rest, hqueue⟩ : ∃ oldest rest, h.store.cert_queue_ = oldest :: rest := by
    apply List.exists_cons_of_ne_nil
    intro hnil
    have hlen := hc.length_queue
    rw [hnil, hfull] at hlen
    cases hlen
  have hkeys := hc.keys
  have honce := hc.once
  simp only [hqueue, List.mem_cons] at hkeys
  rw [hqueue, List.nodup_cons] at honce
  have holdest : oldest ∈ h.store.cert_map_ := (hkeys oldest).mp (.inl rfl)
  have hne : key ≠ oldest := by
    rintro rfl
    exact hkey holdest
  have hmany : (h.store.cert_map_.insertIfNew key cert).size > max_num_certs := by
    rw [size_of_fresh hkey]
    omega
  have herase (k : Name) : ((h.store.cert_map_.insertIfNew key cert).erase oldest)[k]? =
      if oldest = k then none else if k = key then some cert else h.store.cert_map_[k]? := by
    simp only [Std.TreeMap.getElem?_erase, getElem_of_fresh hkey, Std.LawfulEqCmp.compare_eq_iff_eq]
  have hself := herase key
  rw [if_neg hne.symm, if_pos rfl] at hself
  refine ⟨⟨⟨(h.store.cert_map_.insertIfNew key cert).erase oldest, rest ++ [key]⟩, cert⟩, ?_, ?_⟩
  · simp only [ServerStore.insert, if_pos hmany, hqueue, List.cons_append, List.headD_cons,
      List.tail_cons, hself]
  · refine ⟨rfl, hself, ?_, ?_, ?_, ?_, ?_⟩
    · intro k hk
      rw [herase, if_neg hk]
      simp only [hfull, hqueue, List.head?_cons, Option.some_inj, true_and]
    · have hmem : oldest ∈ h.store.cert_map_.insertIfNew key cert :=
        (mem_of_fresh oldest).mpr (.inr holdest)
      have hsize := @Std.TreeMap.size_erase _ _ _ (h.store.cert_map_.insertIfNew key cert) _ oldest
      rw [if_pos (Std.TreeMap.mem_iff_contains.mp hmem), size_of_fresh hkey, hfull] at hsize
      exact Nat.le_of_eq hsize
    · intro k
      simp only [List.mem_append, List.mem_singleton, Std.TreeMap.mem_erase, mem_of_fresh, ← hkeys,
        ne_eq, Std.LawfulEqCmp.compare_eq_iff_eq]
      constructor
      · rintro (hk | rfl)
        · refine ⟨?_, .inr (.inr hk)⟩
          rintro rfl
          exact honce.1 hk
        · exact ⟨hne.symm, .inl rfl⟩
      · rintro ⟨hold, rfl | rfl | hk⟩
        · exact .inr rfl
        · exact absurd rfl hold
        · exact .inl hk
    · exact nodup_snoc honce.2 (fun hmem => hkey ((hkeys key).mp (.inr hmem)))
    · obtain ⟨older, holder⟩ := hc.order
      refine ⟨older ++ [oldest], ?_⟩
      simp only [← holder, hqueue, List.append_assoc, List.cons_append, List.nil_append]

/-- A consistent store inserts under a key exactly if the map does not have it: else the queue gets
the key twice. -/
theorem inserts_iff (hc : Consistent h) :
    (∃ o, h.store.insert key cert = .ok o ∧ h.Inserts key cert o) ↔ key ∉ h.store.cert_map_ := by
  constructor
  · rintro ⟨o, ho, hright⟩ hkey
    have hfits : ¬ (h.store.cert_map_.insertIfNew key cert).size > max_num_certs := by
      rw [Std.TreeMap.size_insertIfNew, if_pos hkey]
      exact Nat.not_lt_of_le hc.bound
    have hqueue : o.store.cert_queue_ = h.store.cert_queue_ ++ [key] := by
      simp only [ServerStore.insert, if_neg hfits] at ho
      split at ho
      · obtain rfl := Except.ok.inj ho
        rfl
      · cases ho
    have honce := hright.consistent.once
    rw [hqueue, (List.perm_append_singleton key _).nodup_iff, List.nodup_cons] at honce
    exact honce.1 ((hc.keys key).mpr hkey)
  · intro hkey
    rcases Nat.lt_or_eq_of_le hc.bound with hroom | hfull
    · exact insert_with_room hc hkey hroom
    · exact insert_without_room hc hkey hfull

/-! ## Histories -/

theorem create_certificate_of {ci : CertificateInterface} {cert : Certificate}
    (hcert : ssl.generate_certificate ci = .ok cert) : h.store.create_certificate ssl ci =
      h.store.insert (key_of ci) ⟨cert, cert.all_server_names⟩ := by
  unfold ServerStore.create_certificate
  rw [hcert]
  rfl

theorem right_iff (hc : Consistent h) (call : StoreCall) : h.Right ssl call ↔ h.Fresh ssl call := by
  cases call with
  | insert key cert => exact inserts_iff hc
  | create_certificate ci =>
    unfold Right Fresh
    refine forall_congr' fun cert => forall_congr' fun hcert => ?_
    rw [create_certificate_of hcert]
    exact inserts_iff hc

theorem consistent_after (hc : Consistent h) (hfresh : key ∉ h.store.cert_map_)
    (hs : h.after key (h.store.insert key cert) = some h') : Consistent h' := by
  obtain ⟨o, ho, hright⟩ := (inserts_iff hc).mpr hfresh
  rw [ho] at hs
  obtain rfl := Option.some.inj hs
  exact hright.consistent

theorem consistent_step {call : StoreCall} (hc : Consistent h) (hfresh : h.Fresh ssl call)
    (hs : h.step ssl call = some h') : Consistent h' := by
  cases call with
  | insert key cert => exact consistent_after hc hfresh hs
  | create_certificate ci =>
    simp only [step] at hs
    cases hcert : ssl.generate_certificate ci with
    | error e =>
      rw [hcert] at hs
      obtain rfl := Option.some.inj hs
      exact hc
    | ok cert =>
      rw [hcert, create_certificate_of hcert] at hs
      exact consistent_after hc (hfresh cert hcert) hs

/-- All calls of a history insert their certificates into a store that stays consistent exactly if
none inserts under a key that the store has. -/
theorem the_queue_is_in_step_iff (ssl : OpenSsl) (calls : List StoreCall) :
    EachStep (step ssl) (Right ssl) new calls ↔ EachStep (step ssl) (Fresh ssl) new calls :=
  @eachStep_iff _ _ (step ssl) Consistent _ _ (fun _ call _ hc _ => right_iff hc call)
    (fun _ _ _ hc hfresh hs => consistent_step hc hfresh hs) _ consistent_new calls

/-- Two certificates under one key: the second call gives out the first certificate, and the key is
in the queue twice. -/
theorem a_key_is_in_the_queue_twice : ¬ EachStep (step ⟨fun _ _ => true, fun _ => false⟩)
    (Right ⟨fun _ _ => true, fun _ => false⟩) new
      [.insert [97] ⟨⟨none, none, [], false⟩, []⟩, .insert [97] ⟨⟨none, none, [], true⟩, []⟩] := by
  intro heach
  obtain ⟨-, hrest⟩ := heach _ rfl
  obtain ⟨⟨o, ho, hright⟩, -⟩ := hrest _ rfl
  have hgiven := hright.given
  obtain rfl := Except.ok.inj ho
  cases hgiven

end History

end proxy.tls.x509
