-- What the certificates of the store are good for.
--
-- A lookup compares the forms of the common name with the names of each
-- certificate, and nothing else. So a certificate that is found covers the
-- common name, at any depth of its wildcard, and may miss the other names. One
-- that has to be made has them all.
import Aether.Tls.ServerStore

namespace proxy.tls.x509

/-! ## Names and wildcards -/

/-- A name of a certificate for a name: the same, or `*.d` where one label stands before `d`. -/
def Matches (pattern name : Name) : Prop :=
  pattern = name ∨ ∃ label d, label ≠ [] ∧ '.'.toUInt8 ∉ label ∧
    name = label ++ '.'.toUInt8 :: d ∧ pattern = ascii "*." ++ d

/-- The same, where any number of labels may stand before `d`. -/
def Covers (pattern name : Name) : Prop :=
  pattern = name ∨ ∃ labels d, name = labels ++ '.'.toUInt8 :: d ∧ pattern = ascii "*." ++ d

/-- The certificate has all the names that it was asked for. -/
def ValidFor (cert : Certificate) (ci : CertificateInterface) : Prop :=
  ∀ name, (name ∈ ci.sans ∨ ci.common_name = some name) →
    ∃ pattern ∈ cert.names, Matches pattern name

theorem mem_asterisk_suffixes {pattern domain : Name} : pattern ∈ asterisk_suffixes domain ↔
    ∃ labels d, domain = labels ++ '.'.toUInt8 :: d ∧ pattern = ascii "*." ++ d := by
  induction domain with
  | nil => simp [asterisk_suffixes]
  | cons c rest ih =>
    unfold asterisk_suffixes
    constructor
    · intro h
      by_cases hc : c = '.'.toUInt8
      · rw [if_pos hc] at h
        rcases List.mem_cons.mp h with rfl | h
        · exact ⟨[], rest, by rw [hc]; rfl, rfl⟩
        · obtain ⟨labels, d, rfl, rfl⟩ := ih.mp h
          exact ⟨c :: labels, d, rfl, rfl⟩
      · rw [if_neg hc] at h
        obtain ⟨labels, d, rfl, rfl⟩ := ih.mp h
        exact ⟨c :: labels, d, rfl, rfl⟩
    · rintro ⟨labels, d, heq, rfl⟩
      rcases labels with _ | ⟨l, labels⟩
      · obtain ⟨rfl, rfl⟩ : c = '.'.toUInt8 ∧ rest = d := by simpa using heq
        rw [if_pos rfl]
        exact List.mem_cons_self
      · obtain ⟨rfl, hrest⟩ : c = l ∧ rest = labels ++ '.'.toUInt8 :: d := by simpa using heq
        have hmem := ih.mpr ⟨labels, d, hrest, rfl⟩
        split
        · exact List.mem_cons_of_mem _ hmem
        · exact hmem

theorem mem_get_asterisk_forms {pattern domain : Name} :
    pattern ∈ get_asterisk_forms domain ↔ Covers pattern domain := by
  unfold get_asterisk_forms Covers
  rw [List.mem_cons, mem_asterisk_suffixes]

/-! ## Disjoint sequences -/

section disjoint

variable {α : Type} [Ord α]

/-- The loop finds only what is in both. -/
theorem exists_of_disjoint_loop [Std.LawfulEqOrd α] {set1 set2 : List α}
    (h : disjoint_loop set1 set2 = false) : ∃ x ∈ set1, x ∈ set2 := by
  fun_induction disjoint_loop set1 set2 with
  | case1 it1 set1 it2 set2 heq =>
    obtain rfl := Std.LawfulEqCmp.eq_of_compare heq
    exact ⟨it1, List.mem_cons_self, List.mem_cons_self⟩
  | case2 it1 set1 it2 set2 hlt ih =>
    obtain ⟨x, h1, h2⟩ := ih h
    exact ⟨x, List.mem_cons_of_mem _ h1, h2⟩
  | case3 it1 set1 it2 set2 hgt ih =>
    obtain ⟨x, h1, h2⟩ := ih h
    exact ⟨x, h1, List.mem_cons_of_mem _ h2⟩
  | case4 => cases h

theorem exists_of_is_disjoint [Std.LawfulEqOrd α] {set1 set2 : List α}
    (h : is_disjoint set1 set2 = false) : ∃ x ∈ set1, x ∈ set2 := by
  unfold is_disjoint at h
  split at h
  · split at h
    · cases h
    · exact exists_of_disjoint_loop h
  · cases h

/-- What lies before an element that both have is passed over, if it is smaller. -/
theorem disjoint_loop_eq_false [Std.TransOrd α] {x : α} {set1 before after : List α}
    (h1 : set1.Pairwise (fun a b => compare a b = .lt)) (hx : x ∈ set1)
    (hbefore : ∀ y ∈ before, compare y x = .lt) :
    disjoint_loop set1 (before ++ x :: after) = false := by
  have hself : compare x x = .eq := Std.ReflCmp.compare_self
  generalize hset2 : before ++ x :: after = set2
  fun_induction disjoint_loop set1 set2 generalizing before with
  | case1 => rfl
  | case2 it1 set1 it2 set2 hlt ih =>
    apply ih h1.tail _ hbefore hset2
    rcases List.mem_cons.mp hx with rfl | hmem
    · -- `it1` cannot be smaller than all that is before it in the other.
      exfalso
      rcases before with _ | ⟨b, before⟩
      · obtain ⟨rfl, -⟩ : x = it2 ∧ after = set2 := by simpa using hset2
        exact absurd (hlt.symm.trans hself) (by decide)
      · obtain ⟨rfl, -⟩ : b = it2 ∧ before ++ x :: after = set2 := by simpa using hset2
        exact Std.OrientedCmp.not_lt_of_lt hlt (hbefore b List.mem_cons_self)
    · exact hmem
  | case3 it1 set1 it2 set2 hgt ih =>
    rcases before with _ | ⟨b, before⟩
    · exfalso
      obtain ⟨rfl, -⟩ : x = it2 ∧ after = set2 := by simpa using hset2
      rcases List.mem_cons.mp hx with rfl | hmem
      · exact absurd (hgt.symm.trans hself) (by decide)
      · rw [(List.pairwise_cons.mp h1).1 x hmem] at hgt
        cases hgt
    · obtain ⟨rfl, htail⟩ : b = it2 ∧ before ++ x :: after = set2 := by simpa using hset2
      exact ih h1 hx (fun y hy => hbefore y (List.mem_cons_of_mem _ hy)) htail
  | case4 set1 set2 hnone =>
    exfalso
    rcases set1 with _ | ⟨a, set1⟩
    · cases hx
    · rcases before with _ | ⟨b, before⟩ <;> exact hnone _ _ _ _ rfl hset2.symm

/-- An element of a sequence in order is not greater than the last one. -/
theorem isLE_getLastD [Std.TransOrd α] {x d : α} {set1 : List α}
    (h : set1.Pairwise (fun a b => compare a b = .lt)) (hx : x ∈ set1) :
    (compare x (set1.getLastD d)).isLE := by
  induction set1 generalizing x d with
  | nil => cases hx
  | cons a set1 ih =>
    obtain ⟨ha, hrest⟩ := List.pairwise_cons.mp h
    rw [List.getLastD_cons]
    rcases set1 with _ | ⟨b, set1⟩
    · obtain rfl : x = a := by simpa using hx
      rw [List.getLastD_nil, (Std.ReflCmp.compare_self : compare x x = .eq)]
      rfl
    · rcases List.mem_cons.mp hx with rfl | hmem
      · have hb : (compare x b).isLE := by rw [ha b List.mem_cons_self]; rfl
        exact Std.TransCmp.isLE_trans hb (ih hrest List.mem_cons_self)
      · exact ih hrest hmem

/-- Sequences in order are not taken for disjoint if they are not. The second one needs to be in
order only before the common element, and to end no lower than that. -/
theorem is_disjoint_eq_false [Std.TransOrd α] {x : α} {set1 before after : List α}
    (h1 : set1.Pairwise (fun a b => compare a b = .lt)) (hx : x ∈ set1)
    (hbefore : ∀ y ∈ before, compare y x = .lt)
    (hlast : (compare x (after.getLastD x)).isLE) :
    is_disjoint set1 (before ++ x :: after) = false := by
  have hself : (compare x x).isLE := by
    rw [(Std.ReflCmp.compare_self : compare x x = .eq)]
    rfl
  have hloop : disjoint_loop set1 (before ++ x :: after) = false :=
    disjoint_loop_eq_false h1 hx hbefore
  have hend : ∀ d, (before ++ x :: after).getLastD d = after.getLastD x := by
    intro d
    rw [List.getLastD_eq_getLast?, List.getLast?_append, List.getLast?_cons,
      List.getLastD_eq_getLast?]
    rfl
  obtain ⟨it2, set2, hset2, hit2⟩ : ∃ it2 set2, before ++ x :: after = it2 :: set2 ∧
      (compare it2 x).isLE := by
    rcases before with _ | ⟨b, before⟩
    · exact ⟨x, after, rfl, hself⟩
    · exact ⟨b, before ++ x :: after, rfl, by rw [hbefore b List.mem_cons_self]; rfl⟩
  rcases set1 with _ | ⟨it1, set1⟩
  · cases hx
  have hit1 : (compare it1 x).isLE := by
    rcases List.mem_cons.mp hx with rfl | hmem
    · exact hself
    · rw [(List.pairwise_cons.mp h1).1 x hmem]
      rfl
  have hfirst : (compare it1 ((it2 :: set2).getLastD it2)).isLE := by
    rw [← hset2, hend]
    exact Std.TransCmp.isLE_trans hit1 hlast
  have hsecond : (compare it2 ((it1 :: set1).getLastD it1)).isLE :=
    Std.TransCmp.isLE_trans hit2 (isLE_getLastD h1 hx)
  rw [Ordering.isLE_iff_ne_gt] at hfirst hsecond
  rw [hset2] at hloop ⊢
  simp only [is_disjoint]
  rw [if_neg (by rintro (h | h); exacts [hfirst h, hsecond h])]
  exact hloop

end disjoint

/-! ## Generated certificates -/

section generated

variable {ssl : OpenSsl} {ci : CertificateInterface} {cert : Certificate} {cn : Name}

theorem generate_certificate_eq (h : ssl.generate_certificate ci = .ok cert) :
    cert = ⟨if OpenSsl.has_valid_cn ci then ci.common_name else none, ci.organization,
      ci.sans.toList.map ssl.general_name, !ci.sans.isEmpty && !OpenSsl.has_valid_cn ci⟩ := by
  unfold OpenSsl.generate_certificate at h
  rcases hs : (OpenSsl.steps ci).forM (ssl.check ci) with e | u
  · rw [hs] at h
    cases h
  · rw [hs] at h
    cases h
    rfl

theorem text_general_name (san : Name) : (ssl.general_name san).text = san := by
  unfold OpenSsl.general_name
  split <;> rfl

/-- Each requested name is a name of the certificate. -/
theorem mem_names (h : ssl.generate_certificate ci = .ok cert) {name : Name}
    (hname : name ∈ ci.sans) : name ∈ cert.names := by
  rw [generate_certificate_eq h]
  unfold Certificate.names
  apply List.mem_append_right
  simp only [List.map_map, List.mem_map]
  exact ⟨name, Std.TreeSet.mem_toList.mpr hname, text_general_name name⟩

theorem valid_of_generated (h : ssl.generate_certificate ci = .ok cert)
    (hcn : ∀ cn, ci.common_name = some cn → cn ∈ ci.sans) : ValidFor cert ci := by
  intro name hname
  refine ⟨name, mem_names h ?_, .inl rfl⟩
  rcases hname with hsan | hsome
  · exact hsan
  · exact hcn name hsome

/-- What the store compares are names of the certificate. -/
theorem all_server_names_subset {name : Name} (h : name ∈ cert.all_server_names) :
    name ∈ cert.names := by
  have hdns : ∀ name ∈ cert.dns_names, name ∈ cert.names := by
    intro name hmem
    obtain ⟨san, hsan, htext⟩ := List.mem_filterMap.mp hmem
    apply List.mem_append_right
    refine List.mem_map.mpr ⟨san, hsan, ?_⟩
    rcases san with dns | ip
    · simp only [Certificate.dns_name] at htext
      split at htext
      · exact Option.some.inj htext
      · cases htext
    · cases htext
  unfold Certificate.all_server_names at h
  split at h
  · rename_i cn hcn
    rcases List.mem_cons.mp h with rfl | h
    · apply List.mem_append_left
      rw [Option.mem_toList]
      unfold Certificate.get_nid_from_name at hcn
      split at hcn
      · cases hcn
      · cases hcn
      · rename_i hsome
        cases hcn
        exact hsome
    · exact hdns _ h
  · exact hdns _ h

/-- The names in order, without those that are not kept. -/
theorem dns_names_eq (h : ssl.generate_certificate ci = .ok cert) : cert.dns_names =
    ci.sans.toList.filter (fun san => !ssl.is_address san && decide (san.length ≠ 0)) := by
  rw [generate_certificate_eq h]
  unfold Certificate.dns_names
  simp only [List.filterMap_map]
  rw [← List.filterMap_eq_filter]
  congr 1
  funext san
  simp only [Function.comp, OpenSsl.general_name, Option.guard]
  by_cases haddr : ssl.is_address san
  · simp [haddr, Certificate.dns_name]
  · by_cases hlen : san.length = 0 <;> simp [haddr, hlen, Certificate.dns_name]

theorem all_server_names_eq (h : ssl.generate_certificate ci = .ok cert)
    (hcn : ci.common_name = some cn) (hne : cn ≠ []) : cert.all_server_names =
      if cn.length < 64 then cn :: cert.dns_names else cert.dns_names := by
  have hname : cert.common_name = if cn.length < 64 then some cn else none := by
    rw [generate_certificate_eq h]
    simp only [OpenSsl.has_valid_cn, hcn, decide_eq_true_eq]
  unfold Certificate.all_server_names
  rw [hname]
  by_cases hshort : cn.length < 64
  · rw [if_pos hshort, if_pos hshort]
    rcases cn with _ | ⟨c, cn⟩
    · exact absurd rfl hne
    · rfl
  · rw [if_neg hshort, if_neg hshort]
    rfl

/-- A lookup does not miss a certificate that was generated for the same common name, unless it is
an address. -/
theorem not_disjoint_of_common_name {ci' : CertificateInterface}
    (h : ssl.generate_certificate ci = .ok cert) (hcn : ci.common_name = some cn)
    (hmem : cn ∈ ci.sans) (hne : cn ≠ []) (haddr : ssl.is_address cn = false)
    (hcn' : ci'.common_name = some cn) :
    is_disjoint (ServerStore.common_names ci').toList cert.all_server_names = false := by
  have hforms : cn ∈ (ServerStore.common_names ci').toList := by
    unfold ServerStore.common_names
    rw [hcn', Std.TreeSet.mem_toList, Std.TreeSet.mem_ofList]
    simp [get_asterisk_forms]
  have hordered := Std.TreeSet.ordered_toList (t := ServerStore.common_names ci')
  have hsorted : cert.dns_names.Pairwise (fun a b => compare a b = .lt) := by
    rw [dns_names_eq h]
    exact Std.TreeSet.ordered_toList.filter _
  have hdns : cn ∈ cert.dns_names := by
    rw [dns_names_eq h, List.mem_filter]
    exact ⟨Std.TreeSet.mem_toList.mpr hmem, by simp [haddr, hne]⟩
  rw [all_server_names_eq h hcn hne]
  by_cases hshort : cn.length < 64
  · rw [if_pos hshort]
    have hbegin : is_disjoint (ServerStore.common_names ci').toList ([] ++ cn :: cert.dns_names) =
        false := is_disjoint_eq_false hordered hforms (by simp) (isLE_getLastD hsorted hdns)
    exact hbegin
  · rw [if_neg hshort]
    obtain ⟨before, after, heq⟩ := List.append_of_mem hdns
    rw [heq] at hsorted ⊢
    obtain ⟨-, hafter, hbetween⟩ := List.pairwise_append.mp hsorted
    apply is_disjoint_eq_false hordered hforms
    · intro y hy
      exact hbetween y hy cn List.mem_cons_self
    · have hle := isLE_getLastD (d := cn) hafter List.mem_cons_self
      rwa [List.getLastD_cons] at hle

end generated

/-! ## The store -/

/-- The interfaces that `tls_service` builds. -/
def Built (ci : CertificateInterface) : Prop :=
  ∃ server message, client_interface server message = .ok ci

/-- The stores of all histories. A lookup leaves the store as it is, and so does a creation that
fails. -/
inductive Reachable (ssl : OpenSsl) : ServerStore → Prop
  | new : Reachable ssl .new
  | create {store : ServerStore} {ci : CertificateInterface} {o : Obtained} :
      Reachable ssl store → Built ci → store.create_certificate ssl ci = .ok o →
      Reachable ssl o.store

/-- The certificate was generated for an interface with this key. -/
def GeneratedFor (ssl : OpenSsl) (key : Name) (cert : MemoryCertificate) : Prop :=
  ∃ ci, Built ci ∧ ssl.generate_certificate ci = .ok cert.cert ∧
    key = ci.common_name.getD [] ∧ cert.names = cert.cert.all_server_names

/-- Every certificate of the store was generated for its key. -/
def Kept (ssl : OpenSsl) (store : ServerStore) : Prop :=
  ∀ key cert, store.cert_map_[key]? = some cert → GeneratedFor ssl key cert

theorem built_common_name {ci : CertificateInterface} {cn : Name} (h : Built ci)
    (hcn : ci.common_name = some cn) : cn ∈ ci.sans := by
  obtain ⟨server, message, h⟩ := h
  unfold client_interface at h
  rcases hs : server_names server with e | ci0
  · rw [hs] at h
    cases h
  rw [hs] at h
  cases h
  rw [Std.TreeSet.mem_insertMany_list]
  right
  simp only at hcn
  simp [hcn]

/-- A key that is not empty is the common name. -/
theorem common_name_of_key {ci : CertificateInterface} {key : Name}
    (h : key = ci.common_name.getD []) (hne : key ≠ []) : ci.common_name = some key := by
  rcases hci : ci.common_name with _ | cn
  · rw [hci] at h
    exact absurd h hne
  · rw [hci] at h
    rw [h]
    rfl

namespace ServerStore

variable {ssl : OpenSsl} {store : ServerStore} {ci : CertificateInterface} {key : Name}
  {cert : MemoryCertificate} {o : Obtained}

/-- An insertion never overwrites. -/
theorem insertIfNew_some {map : Std.TreeMap Name MemoryCertificate} {k : Name}
    {c : MemoryCertificate} (h : (map.insertIfNew key cert)[k]? = some c) :
    map[k]? = some c ∨ map[key]? = none ∧ k = key ∧ c = cert := by
  rw [Std.TreeMap.getElem?_insertIfNew] at h
  by_cases hnew : compare key k = .eq ∧ ¬ key ∈ map
  · rw [if_pos hnew] at h
    refine .inr ⟨Std.TreeMap.getElem?_eq_none hnew.2, ?_, (Option.some.inj h).symm⟩
    exact (Std.LawfulEqCmp.eq_of_compare hnew.1).symm
  · rw [if_neg hnew] at h
    exact .inl h

/-- What is in the store after an insertion, and what it gives out: what is under the key. -/
theorem insert_spec (h : store.insert key cert = .ok o) :
    (∀ k c, o.store.cert_map_[k]? = some c →
      store.cert_map_[k]? = some c ∨ store.cert_map_[key]? = none ∧ k = key ∧ c = cert) ∧
      o.store.cert_map_[key]? = some o.cert := by
  unfold insert at h
  simp only at h
  split at h
  · rename_i result hresult
    cases h
    refine ⟨?_, hresult⟩
    intro k c hk
    split at hk
    · simp only [Std.TreeMap.getElem?_erase] at hk
      split at hk
      · cases hk
      · exact insertIfNew_some hk
    · exact insertIfNew_some hk
  · cases h

theorem create_spec (hbuilt : Built ci) (hkept : Kept ssl store)
    (h : store.create_certificate ssl ci = .ok o) :
    Kept ssl o.store ∧ o.store.cert_map_[ci.common_name.getD []]? = some o.cert ∧
      (store.cert_map_[ci.common_name.getD []]? = none →
        ssl.generate_certificate ci = .ok o.cert.cert) := by
  unfold create_certificate at h
  rcases hg : ssl.generate_certificate ci with e | cert
  · rw [hg] at h
    cases h
  rw [hg] at h
  obtain ⟨hmap, hgiven⟩ := insert_spec h
  refine ⟨?_, hgiven, ?_⟩
  · intro k c hk
    rcases hmap k c hk with hold | ⟨-, rfl, rfl⟩
    · exact hkept k c hold
    · exact ⟨ci, hbuilt, hg, rfl, rfl⟩
  · intro hfresh
    rcases hmap _ _ hgiven with hold | ⟨-, -, heq⟩
    · rw [hfresh] at hold
      cases hold
    · rw [heq]

theorem kept_of_reachable (h : Reachable ssl store) : Kept ssl store := by
  induction h with
  | new =>
    intro key cert hkey
    simp [new] at hkey
  | create _ hbuilt ho ih => exact (create_spec hbuilt ih ho).1

/-- A certificate that is found has one of the forms of the common name. -/
theorem found_covers (hkept : Kept ssl store) {cn : Name} (hcn : ci.common_name = some cn)
    (h : store.get_certificate ci = some cert) : ∃ p ∈ cert.cert.names, Covers p cn := by
  unfold get_certificate at h
  obtain ⟨pair, hpair, rfl⟩ := Option.map_eq_some_iff.mp h
  have hoverlap := List.find?_some hpair
  have hmem := List.mem_of_find?_eq_some hpair
  simp only [Bool.not_eq_true'] at hoverlap
  obtain ⟨p, hform, hname⟩ := exists_of_is_disjoint hoverlap
  obtain ⟨ci', -, -, -, hnames⟩ :=
    hkept pair.1 pair.2 (Std.TreeMap.mem_toList_iff_getElem?_eq_some.mp hmem)
  refine ⟨p, all_server_names_subset (hnames ▸ hname), ?_⟩
  unfold common_names at hform
  rw [hcn, Std.TreeSet.mem_toList, Std.TreeSet.mem_ofList] at hform
  exact mem_get_asterisk_forms.mp (by simpa using hform)

/-- Where a lookup finds nothing, there is no certificate for this common name. -/
theorem fresh_of_not_found (hkept : Kept ssl store) {cn : Name} (hcn : ci.common_name = some cn)
    (hne : cn ≠ []) (haddr : ssl.is_address cn = false) (h : store.get_certificate ci = none) :
    store.cert_map_[cn]? = none := by
  rcases hc : store.cert_map_[cn]? with _ | cert
  · rfl
  exfalso
  obtain ⟨ci', hbuilt, hg, hkey, hnames⟩ := hkept cn cert hc
  have hcn' := common_name_of_key hkey hne
  have hoverlap := not_disjoint_of_common_name hg hcn' (built_common_name hbuilt hcn') hne haddr hcn
  unfold get_certificate at h
  rw [Option.map_eq_none_iff, List.find?_eq_none] at h
  have hmem := Std.TreeMap.mem_toList_iff_getElem?_eq_some.mpr hc
  have hnot := h _ hmem
  rw [hnames, hoverlap] at hnot
  exact hnot rfl

end ServerStore

/-- A certificate that is obtained for a common name covers it, with a wildcard for any number of
labels. One that no lookup found is valid, if the store had none for its key: so it is for every
common name that is no address. -/
theorem obtained_certificates_cover_the_common_name {ssl : OpenSsl} {store : ServerStore}
    {ci : CertificateInterface} {o : Obtained} (hreach : Reachable ssl store) (hbuilt : Built ci)
    (ho : store.obtain ssl ci = .ok o) :
    (∀ cn, ci.common_name = some cn → cn ≠ [] → ∃ p ∈ o.cert.cert.names, Covers p cn) ∧
      (store.get_certificate ci = none →
        (store.cert_map_[ci.common_name.getD []]? = none ∨
          ∃ cn, ci.common_name = some cn ∧ cn ≠ [] ∧ ssl.is_address cn = false) →
        ValidFor o.cert.cert ci) := by
  have hkept := ServerStore.kept_of_reachable hreach
  unfold ServerStore.obtain at ho
  split at ho
  · rename_i cert hfound
    cases ho
    constructor
    · intro cn hcn _
      exact ServerStore.found_covers hkept hcn hfound
    · intro hnone
      rw [hfound] at hnone
      cases hnone
  · rename_i hnone
    obtain ⟨hkept', hgiven, hfresh⟩ := ServerStore.create_spec hbuilt hkept ho
    constructor
    · intro cn hcn hne
      rw [hcn, Option.getD_some] at hgiven
      obtain ⟨ci', hbuilt', hg, hkey, -⟩ := hkept' cn o.cert hgiven
      have hcn' := common_name_of_key hkey hne
      exact ⟨cn, mem_names hg (built_common_name hbuilt' hcn'), .inl rfl⟩
    · intro _ hcase
      apply valid_of_generated (hfresh ?_) (fun cn' hcn' => built_common_name hbuilt hcn')
      rcases hcase with hnew | ⟨cn, hcn, hne, haddr⟩
      · exact hnew
      · rw [hcn]
        exact ServerStore.fresh_of_not_found hkept hcn hne haddr hnone

/-! ## Certificates that are made, and certificates that miss names -/

def plainSsl : OpenSsl := ⟨fun _ _ => true, fun _ => false⟩

/-- A host that is connected without TLS, if there is one. -/
def serverOf (host : Option String) : ServerEnd :=
  ⟨host.isSome, ascii (host.getD ""), false, ⟨none, none, [], false⟩⟩

def helloOf (sni : List String) : handshake.ClientHello :=
  ⟨[], [], [], [], [], [], [], [], sni.map (fun name => ⟨0, ascii name⟩), []⟩

def requested (host : Option String) (sni : List String) : CertificateInterface :=
  match client_interface (serverOf host) (helloOf sni) with
  | .ok ci => ci
  | .error _ => ⟨none, ∅, none⟩

theorem built_requested (host : Option String) (sni : List String) :
    Built (requested host sni) := by
  refine ⟨serverOf host, helloOf sni, ?_⟩
  rcases host with _ | host <;> rfl

theorem a_made_certificate_is_valid : ∃ o,
    ServerStore.new.obtain plainSsl (requested (some "a.io") ["b.io"]) = .ok o ∧
      ValidFor o.cert.cert (requested (some "a.io") ["b.io"]) := by
  rcases ho : ServerStore.new.obtain plainSsl (requested (some "a.io") ["b.io"]) with e | o
  · have hok : (ServerStore.new.obtain plainSsl (requested (some "a.io") ["b.io"])).toBool =
        true := by decide +kernel
    rw [ho] at hok
    cases hok
  · exact ⟨o, rfl, (obtained_certificates_cover_the_common_name .new
      (built_requested (some "a.io") ["b.io"]) ho).2 rfl
        (.inr ⟨ascii "a.io", rfl, by decide, rfl⟩)⟩

/-- The names of the certificate that `later` obtains after `first`, from a new store. -/
def namesAfter (first later : CertificateInterface) : Except Error (List Name) :=
  (ServerStore.new.obtain plainSsl first).bind (fun o =>
    (o.store.obtain plainSsl later).map (fun o => o.cert.cert.names))

theorem reachable_of_namesAfter {first later : CertificateInterface} {names : List Name}
    (hbuilt : Built first) (h : namesAfter first later = .ok names) :
    ∃ store o, Reachable plainSsl store ∧ store.obtain plainSsl later = .ok o ∧
      o.cert.cert.names = names := by
  unfold namesAfter at h
  rcases hfirst : ServerStore.new.obtain plainSsl first with e | o
  · rw [hfirst] at h
    cases h
  rw [hfirst, Except.bind] at h
  rcases hlater : o.store.obtain plainSsl later with e | o'
  · rw [hlater] at h
    cases h
  rw [hlater] at h
  cases h
  have hcreate : ServerStore.new.create_certificate plainSsl first = .ok o := by
    unfold ServerStore.obtain at hfirst
    have hempty : ServerStore.new.get_certificate first = none := rfl
    rw [hempty] at hfirst
    exact hfirst
  exact ⟨o.store, o', .create .new hbuilt hcreate, hlater, rfl⟩

/-- The certificate of a host is given to a client that asks for another name of it, and one for
`*.io` that was made with no common name is given out for a name with two labels before `io`. -/
theorem found_certificates_may_miss_names :
    (∃ store o, Reachable plainSsl store ∧
      store.obtain plainSsl (requested (some "a.io") ["b.io"]) = .ok o ∧
      ¬ ValidFor o.cert.cert (requested (some "a.io") ["b.io"])) ∧
    ∃ store o, Reachable plainSsl store ∧
      store.obtain plainSsl (requested (some "a.b.io") []) = .ok o ∧
      ¬ ValidFor o.cert.cert (requested (some "a.b.io") []) := by
  constructor
  · have hnames : namesAfter (requested (some "a.io") []) (requested (some "a.io") ["b.io"]) =
        .ok [ascii "a.io", ascii "a.io"] := by decide +kernel
    obtain ⟨store, o, hreach, ho, hcert⟩ :=
      reachable_of_namesAfter (built_requested (some "a.io") []) hnames
    refine ⟨store, o, hreach, ho, ?_⟩
    intro hvalid
    have hsan : ascii "b.io" ∈ (requested (some "a.io") ["b.io"]).sans := by decide +kernel
    obtain ⟨p, hp, hmatch⟩ := hvalid _ (.inl hsan)
    obtain rfl : p = ascii "a.io" := by
      rw [hcert] at hp
      simpa using hp
    rcases hmatch with heq | ⟨label, d, -, -, -, heq⟩
    · exact absurd heq (by decide)
    · simp [ascii] at heq
  · have hnames : namesAfter (requested none ["*.io"]) (requested (some "a.b.io") []) =
        .ok [ascii "*.io"] := by decide +kernel
    obtain ⟨store, o, hreach, ho, hcert⟩ :=
      reachable_of_namesAfter (built_requested none ["*.io"]) hnames
    refine ⟨store, o, hreach, ho, ?_⟩
    intro hvalid
    obtain ⟨p, hp, hmatch⟩ := hvalid (ascii "a.b.io") (.inr rfl)
    obtain rfl : p = ascii "*.io" := by
      rw [hcert] at hp
      simpa using hp
    rcases hmatch with heq | ⟨label, d, -, hlabel, heq, hd⟩
    · exact absurd heq (by decide)
    · have hio : ascii "io" = d :=
        List.append_cancel_left (show ascii "*." ++ ascii "io" = _ from hd)
      have hname : ascii "a.b" ++ '.'.toUInt8 :: d = label ++ '.'.toUInt8 :: d := by
        rw [← heq, ← hio]
        decide
      have hlabels := List.append_cancel_right hname
      rw [← hlabels] at hlabel
      exact hlabel (by decide)

end proxy.tls.x509
