-- The value of the extension that has the names of a certificate, as
-- `generate_certificate` of `tls/x509/server_store.cpp` puts it together and as
-- OpenSSL reads it.
--
-- Nothing is escaped. What OpenSSL reads of the value are items between commas, each
-- with a type, and it reads up to a NUL.
import Aether.Lib.Positions
import Aether.Tls.Certificates
import Aether.Util.Text

open util.string lib.positions

namespace proxy.tls.x509

/-! ## The value -/

namespace OpenSsl

variable (ssl : OpenSsl)

/-- An entry of the value. -/
def entry (san : Name) : Name := ascii (if ssl.is_address san then "IP:" else "DNS:") ++ san

/-- The loop over the names. -/
def entries : Bool → Name → List Name → Name
  | _, subject_alt_name, [] => subject_alt_name
  | first, subject_alt_name, san :: sans =>
    -- Add comma between entries.
    let subject_alt_name :=
      if first then subject_alt_name else subject_alt_name ++ [','.toUInt8]
    entries false (subject_alt_name ++ ssl.entry san) sans

/-- What `generate_certificate` gives to `add_cert_extension`, if there are names. -/
def subject_alt_name (ci : CertificateInterface) : Option Name :=
  if ci.sans.isEmpty then none
  else
    let subject_alt_name := ssl.entries true [] ci.sans.toList
    -- No CN, so SANs are critical.
    some (if !has_valid_cn ci then ascii "critical," ++ subject_alt_name else subject_alt_name)

end OpenSsl

/-! ## Reading it -/

structure AltName where
  type : Name
  value : Name
  deriving DecidableEq, Repr

structure AltNames where
  critical : Bool
  names : List AltName
  deriving DecidableEq, Repr

/-- An item `TYPE:value`. -/
def read_item (item : Name) : Option AltName :=
  if ':'.toUInt8 ∈ item then
    some ⟨item.takeWhile (· ≠ ':'.toUInt8), (item.dropWhile (· ≠ ':'.toUInt8)).tail⟩
  else none

/-- `X509V3_EXT_conf_nid`: the items of a list, the first of which may say that it is critical. -/
def read_items (items : List Name) : Option AltNames :=
  if items.head? = some (ascii "critical") then
    (items.tail.mapM read_item).map (fun names => ⟨true, names⟩)
  else (items.mapM read_item).map (fun names => ⟨false, names⟩)

/-- What is read at the pointer that `add_cert_extension` passes on. -/
def read_alt_names (value : Name) : Option AltNames :=
  read_items ((c_string value).splitOn ','.toUInt8)

/-- The names of a certificate with their types. -/
def GeneralName.alt_name : GeneralName → AltName
  | dns name => ⟨ascii "DNS", name⟩
  | ip name => ⟨ascii "IP", name⟩

/-- The value is read as the names of the interface, each once, and as critical if there is no
valid common name. -/
def ReadBack (ci : CertificateInterface) (value : Name) : Prop :=
  ∃ read, read_alt_names value = some read ∧ (read.names.map AltName.value).Nodup ∧
    (∀ name, name ∈ read.names.map AltName.value ↔ name ∈ ci.sans) ∧
    (read.critical = true ↔ OpenSsl.has_valid_cn ci = false)

/-- The name ends no item, and not the value. -/
def Plain (san : Name) : Prop := ','.toUInt8 ∉ san ∧ 0 ∉ san

/-! ## Names that are not plain are not read -/

theorem read_item_subset {item : Name} {name : AltName} (h : read_item item = some name) :
    name.value ⊆ item := by
  unfold read_item at h
  split at h
  · cases h
    exact fun c hc => List.dropWhile_subset _ (List.mem_of_mem_tail hc)
  · cases h

theorem mem_mapM_read_item {items : List Name} {names : List AltName} {name : AltName}
    (h : items.mapM read_item = some names) (hname : name ∈ names) :
    ∃ item ∈ items, read_item item = some name := by
  induction items generalizing names with
  | nil =>
    cases h
    cases hname
  | cons item items ih =>
    rw [List.mapM_cons] at h
    obtain ⟨first, hfirst, hrest⟩ := Option.bind_eq_some_iff.mp h
    obtain ⟨rest, hitems, heq⟩ := Option.bind_eq_some_iff.mp hrest
    cases heq
    rcases List.mem_cons.mp hname with rfl | hname
    · exact ⟨item, List.mem_cons_self, hfirst⟩
    · obtain ⟨other, hother, hread⟩ := ih hitems hname
      exact ⟨other, List.mem_cons_of_mem _ hother, hread⟩

/-- Each name that is read is in one of the items. -/
theorem mem_read_items {items : List Name} {read : AltNames} {name : AltName}
    (h : read_items items = some read) (hname : name ∈ read.names) :
    ∃ item ∈ items, read_item item = some name := by
  unfold read_items at h
  split at h
  · obtain ⟨names, hnames, rfl⟩ := Option.map_eq_some_iff.mp h
    obtain ⟨item, hitem, hread⟩ := mem_mapM_read_item hnames hname
    exact ⟨item, List.mem_of_mem_tail hitem, hread⟩
  · obtain ⟨names, hnames, rfl⟩ := Option.map_eq_some_iff.mp h
    exact mem_mapM_read_item hnames hname

/-- All names that are read are plain. -/
theorem plain_of_read {value : Name} {read : AltNames} {name : AltName}
    (h : read_alt_names value = some read) (hname : name ∈ read.names) : Plain name.value := by
  obtain ⟨item, hitem, hread⟩ := mem_read_items h hname
  obtain ⟨hcomma, hsub⟩ := mem_splitOn hitem
  have hvalue := read_item_subset hread
  exact ⟨fun hmem => hcomma (hvalue hmem), fun hmem => (mem_c_string (hsub (hvalue hmem))).1 rfl⟩

/-! ## Names that are plain are read -/

variable {ssl : OpenSsl} {ci : CertificateInterface}

theorem read_item_entry (san : Name) :
    read_item (ssl.entry san) = some (ssl.general_name san).alt_name := by
  have hcolon : ':'.toUInt8 = 58 := rfl
  unfold OpenSsl.entry OpenSsl.general_name
  split
  · simp [read_item, ascii, GeneralName.alt_name, hcolon]
  · simp [read_item, ascii, GeneralName.alt_name, hcolon]

theorem value_alt_name (san : Name) : (ssl.general_name san).alt_name.value = san := by
  unfold OpenSsl.general_name
  split <;> rfl

theorem intercalate_cons (a : UInt8) (item : Name) (items : List Name) :
    [a].intercalate (item :: items) = item ++ items.flatMap (fun other => a :: other) := by
  induction items generalizing item with
  | nil => simp
  | cons next items ih =>
    rw [List.intercalate_cons_cons, ih]
    simp

theorem entries_false (value : Name) (sans : List Name) : ssl.entries false value sans =
    value ++ sans.flatMap (fun san => ','.toUInt8 :: ssl.entry san) := by
  induction sans generalizing value with
  | nil => simp [OpenSsl.entries]
  | cons san sans ih => simp [OpenSsl.entries, ih]

/-- The value is the entries with commas between them. -/
theorem entries_true (sans : List Name) : ssl.entries true [] sans =
    [','.toUInt8].intercalate (sans.map ssl.entry) := by
  cases sans with
  | nil => rfl
  | cons san sans =>
    rw [List.map_cons, intercalate_cons, List.flatMap_map]
    exact entries_false (ssl.entry san) sans

/-- The items of the value. -/
def items (ssl : OpenSsl) (ci : CertificateInterface) : List Name :=
  (if OpenSsl.has_valid_cn ci then [] else [ascii "critical"]) ++ ci.sans.toList.map ssl.entry

theorem toList_ne_nil (h : ci.sans.isEmpty = false) : ci.sans.toList ≠ [] := by
  intro hnil
  have hempty := Std.TreeSet.isEmpty_toList (t := ci.sans)
  rw [hnil, h] at hempty
  cases hempty

theorem subject_alt_name_eq {value : Name} (h : ssl.subject_alt_name ci = some value) :
    ci.sans.toList ≠ [] ∧ value = [','.toUInt8].intercalate (items ssl ci) := by
  unfold OpenSsl.subject_alt_name at h
  split at h
  · cases h
  · rename_i hsome
    have hne : ci.sans.toList ≠ [] := toList_ne_nil (Bool.eq_false_iff.mpr hsome)
    refine ⟨hne, ?_⟩
    rw [← Option.some.inj h, entries_true, items]
    cases OpenSsl.has_valid_cn ci with
    | true => rfl
    | false =>
      obtain ⟨san, sans, heq⟩ := List.exists_cons_of_ne_nil hne
      simp only [heq, List.map_cons, Bool.false_eq_true, if_false, Bool.not_false, if_true]
      rw [List.cons_append, List.nil_append, List.intercalate_cons_cons]
      rfl

/-- An item is plain if its name is. -/
theorem plain_entry {san : Name} (h : Plain san) : Plain (ssl.entry san) := by
  obtain ⟨hcomma, hnul⟩ := h
  have htype : ∀ type ∈ ["IP:", "DNS:"], Plain (ascii type ++ san) := by
    intro type htype
    have hplain : ∀ type ∈ ["IP:", "DNS:"], ','.toUInt8 ∉ ascii type ∧ 0 ∉ ascii type := by decide
    rw [Plain, List.mem_append, List.mem_append, not_or, not_or]
    exact ⟨⟨(hplain type htype).1, hcomma⟩, (hplain type htype).2, hnul⟩
  unfold OpenSsl.entry
  split
  · exact htype "IP:" (by decide)
  · exact htype "DNS:" (by decide)

theorem plain_items (h : ∀ san ∈ ci.sans, Plain san) : ∀ item ∈ items ssl ci, Plain item := by
  intro item hitem
  rcases List.mem_append.mp hitem with hcritical | hentry
  · have hplain : Plain (ascii "critical") := by
      unfold Plain
      decide
    split at hcritical
    · cases hcritical
    · rw [List.mem_singleton.mp hcritical]
      exact hplain
  · obtain ⟨san, hsan, rfl⟩ := List.mem_map.mp hentry
    exact plain_entry (h san (Std.TreeSet.mem_toList.mp hsan))

/-- Plain items are found again in what is between the commas. -/
theorem read_intercalate {items : List Name} (hne : items ≠ [])
    (h : ∀ item ∈ items, Plain item) :
    read_alt_names ([','.toUInt8].intercalate items) = read_items items := by
  have hnul : 0 ∉ [','.toUInt8].intercalate items := by
    obtain ⟨item, rest, rfl⟩ := List.exists_cons_of_ne_nil hne
    rw [intercalate_cons, List.mem_append, List.mem_flatMap]
    rintro (hmem | ⟨other, hother, hmem⟩)
    · exact (h item List.mem_cons_self).2 hmem
    · rcases List.mem_cons.mp hmem with hcomma | hmem
      · exact absurd hcomma (by decide)
      · exact (h other (List.mem_cons_of_mem _ hother)).2 hmem
  rw [read_alt_names, c_string_of_notMem hnul,
    List.splitOn_intercalate _ (fun item hitem => (h item hitem).1) hne]

theorem mapM_read_item (sans : List Name) : (sans.map ssl.entry).mapM read_item =
    some (sans.map (fun san => (ssl.general_name san).alt_name)) := by
  induction sans with
  | nil => rfl
  | cons san sans ih =>
    rw [List.map_cons, List.mapM_cons, read_item_entry, ih]
    rfl

theorem entry_ne_critical (san : Name) : ssl.entry san ≠ ascii "critical" := by
  intro heq
  have hnone : read_item (ascii "critical") = none := by decide
  have hread := @read_item_entry ssl san
  rw [heq, hnone] at hread
  cases hread

theorem read_items_eq (hne : ci.sans.toList ≠ []) : read_items (items ssl ci) =
    some ⟨!OpenSsl.has_valid_cn ci,
      ci.sans.toList.map (fun san => (ssl.general_name san).alt_name)⟩ := by
  unfold read_items items
  cases OpenSsl.has_valid_cn ci with
  | false =>
    rw [if_neg Bool.false_ne_true, List.cons_append, List.head?_cons, if_pos rfl, List.tail_cons,
      List.nil_append, mapM_read_item]
    rfl
  | true =>
    have hfirst : (ci.sans.toList.map ssl.entry).head? ≠ some (ascii "critical") := by
      obtain ⟨san, sans, heq⟩ := List.exists_cons_of_ne_nil hne
      rw [heq]
      exact fun hsome => entry_ne_critical san (Option.some.inj hsome)
    rw [if_pos rfl, List.nil_append, if_neg hfirst, mapM_read_item]
    rfl

theorem items_ne_nil (hne : ci.sans.toList ≠ []) : items ssl ci ≠ [] := by
  intro hnil
  exact hne (List.map_eq_nil_iff.mp (List.append_eq_nil_iff.mp hnil).2)

theorem read_of_plain {value : Name} (hplain : ∀ san ∈ ci.sans, Plain san)
    (hvalue : ssl.subject_alt_name ci = some value) : read_alt_names value =
      some ⟨!OpenSsl.has_valid_cn ci,
        ci.sans.toList.map (fun san => (ssl.general_name san).alt_name)⟩ := by
  obtain ⟨hne, rfl⟩ := subject_alt_name_eq hvalue
  rw [read_intercalate (items_ne_nil hne) (plain_items hplain), read_items_eq hne]

/-- There is a value where there are names. -/
theorem exists_subject_alt_name {san : Name} (h : san ∈ ci.sans) :
    ∃ value, ssl.subject_alt_name ci = some value := by
  have hsome : ¬ ci.sans.isEmpty := by
    rw [Std.TreeSet.isEmpty_iff_forall_not_mem]
    exact fun hnone => hnone san h
  exact ⟨_, if_neg hsome⟩

theorem isEmpty_of_subject_alt_name {value : Name} (h : ssl.subject_alt_name ci = some value) :
    ci.sans.isEmpty = false := by
  cases hempty : ci.sans.isEmpty with
  | false => rfl
  | true =>
    rw [OpenSsl.subject_alt_name, if_pos hempty] at h
    cases h

/-! ## The names of a certificate -/

/-- From plain names OpenSSL makes the names and the criticality of the generated certificate. -/
theorem read_as_generated {cert : Certificate} {value : Name}
    (hplain : ∀ san ∈ ci.sans, Plain san) (hvalue : ssl.subject_alt_name ci = some value)
    (hcert : ssl.generate_certificate ci = .ok cert) :
    read_alt_names value = some ⟨cert.critical, cert.sans.map GeneralName.alt_name⟩ := by
  rw [read_of_plain hplain hvalue, generate_certificate_eq hcert]
  simp [isEmpty_of_subject_alt_name hvalue]

theorem readBack_of_plain {value : Name} (hplain : ∀ san ∈ ci.sans, Plain san)
    (hvalue : ssl.subject_alt_name ci = some value) : ReadBack ci value := by
  have hvalues : (ci.sans.toList.map (fun san => (ssl.general_name san).alt_name)).map
      AltName.value = ci.sans.toList := by
    simp [Function.comp_def, value_alt_name]
  refine ⟨_, read_of_plain hplain hvalue, ?_, ?_, ?_⟩
  · rw [hvalues]
    apply Std.TreeSet.ordered_toList.imp
    rintro a b hlt rfl
    rw [(Std.ReflCmp.compare_self : compare a a = .eq)] at hlt
    cases hlt
  · intro name
    rw [hvalues, Std.TreeSet.mem_toList]
  · simp

theorem plain_of_readBack {value san : Name} (h : ReadBack ci value) (hsan : san ∈ ci.sans) :
    Plain san := by
  obtain ⟨read, hread, -, hmem, -⟩ := h
  obtain ⟨name, hname, rfl⟩ := List.mem_map.mp ((hmem san).mpr hsan)
  exact plain_of_read hread hname

/-- The names are read back if and only if none of them has a comma or a NUL. -/
theorem the_names_are_read_back_iff (ssl : OpenSsl) (ci : CertificateInterface) :
    (∀ value, ssl.subject_alt_name ci = some value → ReadBack ci value) ↔
      ∀ san ∈ ci.sans, ','.toUInt8 ∉ san ∧ 0 ∉ san := by
  constructor
  · intro h san hsan
    obtain ⟨value, hvalue⟩ := @exists_subject_alt_name ssl ci san hsan
    exact plain_of_readBack (h value hvalue) hsan
  · intro hplain value hvalue
    exact readBack_of_plain hplain hvalue

/-- One host name of a client that is read as two names. -/
def twoInOne : CertificateInterface := ⟨none, Std.TreeSet.ofList [ascii "a,DNS:b"], none⟩

theorem a_name_with_a_comma_is_not_read_back : ¬ ∀ (ssl : OpenSsl) (ci : CertificateInterface)
    (value : Name), ssl.subject_alt_name ci = some value → ReadBack ci value := by
  intro h
  have hsan : ascii "a,DNS:b" ∈ twoInOne.sans := by simp [twoInOne]
  obtain ⟨value, hvalue⟩ := @exists_subject_alt_name plainSsl twoInOne _ hsan
  obtain ⟨hcomma, -⟩ := plain_of_readBack (h plainSsl twoInOne value hvalue) hsan
  exact hcomma (by decide)

end proxy.tls.x509
