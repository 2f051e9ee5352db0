-- What a lookup in the store finds.
--
-- The forms of the common name are in order, but the names of a certificate are not. The
-- walk over both leaves a form behind as soon as it meets a greater name.
import Aether.Tls.Certificates

namespace proxy.tls.x509

/-! ## The walk -/

section walk

variable {α : Type} [Ord α]

/-- The walk reaches an element that both have if and only if there are only smaller ones before. -/
theorem disjoint_loop_eq_false_iff [Std.TransOrd α] [Std.LawfulEqOrd α] {set1 set2 : List α}
    (h1 : set1.Pairwise (fun a b => compare a b = .lt)) : disjoint_loop set1 set2 = false ↔
      ∃ before x after, set2 = before ++ x :: after ∧ x ∈ set1 ∧
        ∀ y ∈ before, compare y x = .lt := by
  constructor
  · intro h
    fun_induction disjoint_loop set1 set2 with
    | case1 it1 set1 it2 set2 heq =>
      obtain rfl := Std.LawfulEqCmp.eq_of_compare heq
      exact ⟨[], it1, set2, rfl, List.mem_cons_self, by simp⟩
    | case2 it1 set1 it2 set2 hlt ih =>
      obtain ⟨before, x, after, hset2, hx, hbefore⟩ := ih h1.tail h
      exact ⟨before, x, after, hset2, List.mem_cons_of_mem _ hx, hbefore⟩
    | case3 it1 set1 it2 set2 hgt ih =>
      obtain ⟨before, x, after, rfl, hx, hbefore⟩ := ih h1 h
      have hit2 : compare it2 it1 = .lt := Std.OrientedCmp.lt_of_gt hgt
      refine ⟨it2 :: before, x, after, rfl, hx, ?_⟩
      intro y hy
      rcases List.mem_cons.mp hy with rfl | hy
      · rcases List.mem_cons.mp hx with rfl | hx
        · exact hit2
        · exact Std.TransCmp.lt_trans hit2 ((List.pairwise_cons.mp h1).1 x hx)
      · exact hbefore y hy
    | case4 => cases h
  · rintro ⟨before, x, after, rfl, hx, hbefore⟩
    exact disjoint_loop_eq_false h1 hx hbefore

/-- The first element of a sequence in order is not greater than any of it. -/
theorem isLE_of_mem_cons [Std.TransOrd α] {a x : α} {set1 : List α}
    (h : (a :: set1).Pairwise (fun a b => compare a b = .lt)) (hx : x ∈ a :: set1) :
    (compare a x).isLE := by
  rcases List.mem_cons.mp hx with rfl | hx
  · rw [(Std.ReflCmp.compare_self : compare x x = .eq)]
    rfl
  · rw [(List.pairwise_cons.mp h).1 x hx]
    rfl

theorem is_disjoint_eq_false_iff [Std.TransOrd α] [Std.LawfulEqOrd α] {set1 set2 : List α}
    (h1 : set1.Pairwise (fun a b => compare a b = .lt)) : is_disjoint set1 set2 = false ↔
      (∃ before x after, set2 = before ++ x :: after ∧ x ∈ set1 ∧
        ∀ y ∈ before, compare y x = .lt) ∧
      ∃ a ∈ set1, ∃ last, set2.getLast? = some last ∧ (compare a last).isLE := by
  rw [← disjoint_loop_eq_false_iff h1]
  rcases set1 with _ | ⟨it1, set1⟩
  · simp [is_disjoint]
  rcases set2 with _ | ⟨it2, set2⟩
  · simp [is_disjoint]
  have hlast : (it2 :: set2).getLast? = some ((it2 :: set2).getLastD it2) := by
    rw [List.getLastD_cons, List.getLast?_cons, List.getLastD_eq_getLast?]
  have hends : (∃ a ∈ it1 :: set1, ∃ last, (it2 :: set2).getLast? = some last ∧
      (compare a last).isLE) ↔ (compare it1 ((it2 :: set2).getLastD it2)).isLE := by
    rw [hlast]
    constructor
    · rintro ⟨a, ha, last, hlast, hle⟩
      cases hlast
      exact Std.TransCmp.isLE_trans (isLE_of_mem_cons h1 ha) hle
    · intro hle
      exact ⟨it1, List.mem_cons_self, _, rfl, hle⟩
  rw [hends]
  simp only [is_disjoint]
  constructor
  · intro h
    split at h
    · cases h
    · rename_i hin
      exact ⟨h, Ordering.isLE_iff_ne_gt.mpr (fun hgt => hin (.inl hgt))⟩
  · rintro ⟨hloop, hle⟩
    obtain ⟨before, x, after, hset2, hx, hbefore⟩ := (disjoint_loop_eq_false_iff h1).mp hloop
    have hfirst : (compare it2 x).isLE := by
      rcases before with _ | ⟨b, before⟩
      · obtain ⟨rfl, -⟩ := List.cons.inj hset2
        rw [(Std.ReflCmp.compare_self : compare it2 it2 = .eq)]
        rfl
      · obtain ⟨rfl, -⟩ := List.cons.inj hset2
        rw [hbefore it2 List.mem_cons_self]
        rfl
    have hsecond : (compare it2 ((it1 :: set1).getLastD it1)).isLE :=
      Std.TransCmp.isLE_trans hfirst (isLE_getLastD h1 hx)
    rw [Ordering.isLE_iff_ne_gt] at hle hsecond
    rw [if_neg (by rintro (h | h); exacts [hle h, hsecond h])]
    exact hloop

end walk

/-! ## Lookups -/

/-- The certificate has a name for the common name, with a wildcard for any number of labels. -/
def Serves (cert : MemoryCertificate) (h : Name) : Prop := ∃ name ∈ cert.names, Covers name h

/-- A name for the common name is met in the order of the names: only smaller ones come before it,
and the last one is not smaller than all that are looked for. -/
structure InOrder (cert : MemoryCertificate) (h : Name) : Prop where
  met : ∃ before name after, cert.names = before ++ name :: after ∧ Covers name h ∧
    ∀ other ∈ before, compare other name = .lt
  last : ∃ form, Covers form h ∧ ∃ last, cert.names.getLast? = some last ∧
    (compare form last).isLE

theorem InOrder.serves {cert : MemoryCertificate} {h : Name} (hin : InOrder cert h) :
    Serves cert h := by
  obtain ⟨before, name, after, hnames, hcovers, -⟩ := hin.met
  exact ⟨name, by simp [hnames], hcovers⟩

namespace ServerStore

variable {store : ServerStore} {h : Name} {sans : Std.TreeSet Name} {organization : Option Name}

def Cached (store : ServerStore) (cert : MemoryCertificate) : Prop :=
  ∃ key : Name, store.cert_map_[key]? = some cert

theorem mem_common_names {form : Name} :
    form ∈ (common_names ⟨some h, sans, organization⟩).toList ↔ Covers form h := by
  rw [← mem_get_asterisk_forms]
  simp [common_names]

theorem not_disjoint_iff {cert : MemoryCertificate} :
    is_disjoint (common_names ⟨some h, sans, organization⟩).toList cert.names = false ↔
      InOrder cert h := by
  rw [is_disjoint_eq_false_iff Std.TreeSet.ordered_toList]
  simp only [mem_common_names]
  exact ⟨fun ⟨hmet, hlast⟩ => ⟨hmet, hlast⟩, fun ⟨hmet, hlast⟩ => ⟨hmet, hlast⟩⟩

/-- A lookup finds a certificate if one has a name that is met. -/
theorem found_iff : (∃ cert, store.get_certificate ⟨some h, sans, organization⟩ = some cert) ↔
    ∃ cert, store.Cached cert ∧ InOrder cert h := by
  have hsome : (∃ cert, store.get_certificate ⟨some h, sans, organization⟩ = some cert) ↔
      ∃ pair ∈ store.cert_map_.toList, InOrder pair.2 h := by
    unfold get_certificate
    rw [← Option.isSome_iff_exists, Option.isSome_map, List.find?_isSome]
    simp only [Bool.not_eq_true', not_disjoint_iff]
  rw [hsome]
  constructor
  · rintro ⟨pair, hmem, hin⟩
    exact ⟨pair.2, ⟨pair.1, Std.TreeMap.mem_toList_iff_getElem?_eq_some.mp hmem⟩, hin⟩
  · rintro ⟨cert, ⟨key, hkey⟩, hin⟩
    exact ⟨(key, cert), Std.TreeMap.mem_toList_iff_getElem?_eq_some.mpr hkey, hin⟩

end ServerStore

/-- A lookup finds a certificate exactly when one has a name for the common name, if and only if,
where there is one, some such name is met in the order of the names of its certificate. -/
theorem a_certificate_is_found_iff (store : ServerStore) (h : Name) (sans : Std.TreeSet Name)
    (organization : Option Name) :
    ((∃ cert, store.get_certificate ⟨some h, sans, organization⟩ = some cert) ↔
      ∃ cert, store.Cached cert ∧ Serves cert h) ↔
    ((∃ cert, store.Cached cert ∧ Serves cert h) →
      ∃ cert, store.Cached cert ∧ InOrder cert h) := by
  rw [ServerStore.found_iff]
  constructor
  · intro hiff
    exact hiff.mpr
  · intro himp
    constructor
    · rintro ⟨cert, hcached, hin⟩
      exact ⟨cert, hcached, hin.serves⟩
    · exact himp

/-- A certificate of `b.c`, which is also good for `a.c`. -/
def outOfOrder : MemoryCertificate :=
  ⟨⟨some (ascii "b.c"), none, [.dns (ascii "a.c")], false⟩, [ascii "b.c", ascii "a.c"]⟩

def storeOutOfOrder : ServerStore :=
  ⟨(∅ : Std.TreeMap Name MemoryCertificate).insert (ascii "b.c") outOfOrder, [ascii "b.c"]⟩

theorem not_inOrder : ¬ InOrder outOfOrder (ascii "a.c") := by
  rintro ⟨⟨before, name, after, hnames, hcovers, hbefore⟩, -⟩
  rw [← mem_get_asterisk_forms] at hcovers
  rcases before with _ | ⟨first, before⟩
  · obtain ⟨rfl, -⟩ := List.cons.inj hnames
    revert hcovers
    decide
  · obtain ⟨rfl, hrest⟩ := List.cons.inj hnames
    rcases before with _ | ⟨second, before⟩
    · obtain ⟨rfl, -⟩ := List.cons.inj hrest
      have hsmaller := hbefore (ascii "b.c") List.mem_cons_self
      revert hsmaller
      decide
    · obtain ⟨-, hrest⟩ := List.cons.inj hrest
      cases before <;> cases hrest

theorem a_name_out_of_order_is_not_found : ¬ ∀ (store : ServerStore) (h : Name)
    (sans : Std.TreeSet Name) (organization : Option Name),
    (∃ cert, store.get_certificate ⟨some h, sans, organization⟩ = some cert) ↔
      ∃ cert, store.Cached cert ∧ Serves cert h := by
  intro hall
  have hserves : Serves outOfOrder (ascii "a.c") :=
    ⟨ascii "a.c", List.mem_cons_of_mem _ List.mem_cons_self, .inl rfl⟩
  have hcached : storeOutOfOrder.Cached outOfOrder := ⟨ascii "b.c", by simp [storeOutOfOrder]⟩
  have hfound := (hall storeOutOfOrder (ascii "a.c") ∅ none).mpr ⟨_, hcached, hserves⟩
  obtain ⟨cert, ⟨key, hkey⟩, hin⟩ := ServerStore.found_iff.mp hfound
  have hcert : cert = outOfOrder := by
    simp only [storeOutOfOrder, Std.TreeMap.getElem?_insert] at hkey
    split at hkey
    · exact (Option.some.inj hkey).symm
    · simp at hkey
  rw [hcert] at hin
  exact not_inOrder hin

end proxy.tls.x509
