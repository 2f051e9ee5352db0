-- When the Client Hello parser takes exactly the well-formed messages, with
-- the fields that they have: what it does not check must hold, and what it does
-- not understand must not come.
import Aether.Tls.ClientHelloLayout
import Mathlib.Data.List.Forall2

open lib.cursor
open lib.big_endian
open lib.tls (vector HelloExtension)

namespace proxy.tls.handshake

/-! ## The fields of a message -/

/-- What an extension adds to the server names, to the protocols, and to the other extensions. -/
def added_names : HelloExtension → List ServerName
  | .server_name names => names.map fun n => ⟨n.name_type, n.name⟩
  | _ => []

def added_protocols : HelloExtension → List (List UInt8)
  | .alpn protocols => protocols
  | _ => []

def added_others : HelloExtension → List (Nat × List UInt8)
  | .other type data => [(type, data)]
  | _ => []

/-- A message in the fields of the parser. -/
def fields (record_header : List UInt8) (m : lib.tls.ClientHello) : ClientHello where
  record_header := record_header
  handshake_header := 1 :: bigEndian 3 m.body.length
  version := m.version
  random := m.random
  session_id := m.session_id
  cipher_suites := m.cipher_suites
  compression_methods := m.compression_methods
  extensions := (m.extensions.getD []).flatMap added_others
  server_names := (m.extensions.getD []).flatMap added_names
  alpn := (m.extensions.getD []).flatMap added_protocols

/-- The parser returns exactly for a record header and a well-formed message, with the fields of
the message. -/
structure ReadsWellFormed (raw : List UInt8) : Prop where
  defined : (from_raw_data raw).value ≠ .error .fault
  exact : ∀ message, (from_raw_data raw).value = .ok message ↔
    ∃ record_header m, record_header.length = 5 ∧ lib.tls.ClientHello.WellFormed m ∧
      raw = record_header ++ m.encode ∧ fields record_header m = message

/-! ## What is not checked -/

namespace ParsedExtension

/-- There is one server name, and the length of its list is right. The list of the protocols fills
its extension, and it has protocols of which none is empty. -/
def Checked : ParsedExtension → Prop
  | server_name entries => ∃ e, entries = [e] ∧
      e.list_length = 3 + e.entry.host_name.length ∧ e.entry.host_name ≠ []
  | alpn length names =>
    length = 2 + (names.flatMap (vector 1)).length ∧ names ≠ [] ∧ ∀ p ∈ names, p ≠ []
  | other _ _ => True

/-- The extension that it is meant to be. -/
def extension : ParsedExtension → HelloExtension
  | server_name entries => .server_name (entries.map fun e => ⟨e.entry.type, e.entry.host_name⟩)
  | alpn _ names => .alpn names
  | other type data => .other type data

end ParsedExtension

/-- The lengths that the parser takes as they are, and the length of the extensions, are legal, and
no type of an extension comes twice. -/
structure ParsedHello.Checked (h : ParsedHello) : Prop where
  session_id : h.session_id.length ≤ 32
  cipher_suites : h.cipher_suites ≠ []
  compression_methods : h.compression_methods ≠ []
  extensions_length : h.extensions_length = (h.extensions.flatMap ParsedExtension.bytes).length
  extensions : ∀ e ∈ h.extensions, e.Checked
  types : (h.extensions.map ParsedExtension.type).Nodup

/-- The message that it is meant to be. -/
def ParsedHello.hello (h : ParsedHello) : lib.tls.ClientHello where
  version := h.version
  random := h.random
  session_id := h.session_id
  cipher_suites := h.cipher_suites
  compression_methods := h.compression_methods
  extensions := some (h.extensions.map ParsedExtension.extension)

/-! ## What is not understood -/

/-- The parser understands one server name in a list, and no negative `char` for a length. -/
def Understood : HelloExtension → Prop
  | .server_name names => names.length = 1
  | .alpn protocols => ∀ p ∈ protocols, p.length < 128
  | .other _ _ => True

/-- Of the messages it understands those with a block of extensions. -/
structure UnderstoodHello (m : lib.tls.ClientHello) : Prop where
  compression_methods : m.compression_methods.length < 128
  extensions : ∃ es, m.extensions = some es ∧ ∀ e ∈ es, Understood e

/-- The extension as the parser reads it. -/
def of_extension : HelloExtension → ParsedExtension
  | .server_name names =>
    .server_name (names.map fun n => ⟨3 + n.name.length, ⟨n.name_type, n.name⟩⟩)
  | .alpn protocols => .alpn (2 + (protocols.flatMap (vector 1)).length) protocols
  | .other type data => .other type data

/-- The message as the parser reads it. -/
def of_hello (record_header : List UInt8) (m : lib.tls.ClientHello) (es : List HelloExtension) :
    ParsedHello where
  record_header := record_header
  version := m.version
  random := m.random
  session_id := m.session_id
  cipher_suites := m.cipher_suites
  compression_methods := m.compression_methods
  extensions_length := (es.flatMap HelloExtension.encode).length
  extensions := es.map of_extension

/-! ## One extension -/

/-- The bytes of both are the same. -/
structure Same (pe : ParsedExtension) (e : HelloExtension) : Prop where
  type : pe.type = e.type
  length : pe.length = e.data.length
  data : pe.data = e.data

theorem Same.bytes {pe : ParsedExtension} {e : HelloExtension} (h : Same pe e) :
    pe.bytes = e.encode := by
  rw [ParsedExtension.bytes, h.type, h.length, h.data]
  rfl

/-- A list of one server name. -/
theorem one_name (name_type : UInt8) (name : List UInt8) :
    HelloExtension.data (.server_name [⟨name_type, name⟩]) =
      bigEndian 2 (3 + name.length) ++ (name_type :: vector 2 name) := by
  have hlength : 2 + name.length + 1 = 3 + name.length := by omega
  rw [HelloExtension.data, vector, List.flatMap_singleton, lib.tls.ServerName.encode,
    List.length_cons, lib.tls.length_vector, hlength]

theorem ParsedExtension.Checked.same {pe : ParsedExtension} (h : pe.Checked) :
    Same pe pe.extension := by
  cases pe with
  | server_name entries =>
    obtain ⟨e, rfl, hlength, -⟩ := h
    have hdata : ParsedExtension.data (.server_name [e]) =
        (ParsedExtension.extension (.server_name [e])).data := by
      apply Eq.trans _ (one_name e.entry.type e.entry.host_name).symm
      simp [ParsedExtension.data, NameEntry.bytes, hlength]
    exact ⟨rfl, congrArg List.length hdata, hdata⟩
  | alpn length names => exact ⟨rfl, h.1.trans (lib.tls.length_vector _ _).symm, rfl⟩
  | other type data => exact ⟨rfl, rfl, rfl⟩

theorem ParsedExtension.Checked.well_formed {pe : ParsedExtension} (h : pe.Checked)
    (hv : pe.Valid) : pe.extension.WellFormed := by
  have hsame := h.same
  have hlength : pe.extension.data.length < 65536 := hsame.length ▸ hv.length_lt
  cases pe with
  | server_name entries =>
    obtain ⟨e, rfl, -, hne⟩ := h
    exact ⟨hlength, by simpa [ParsedExtension.extension] using hne⟩
  | alpn length names =>
    refine ⟨hlength, h.2.1, fun p hp => ⟨h.2.2 p hp, ?_⟩⟩
    have hlt := hv.2.2 p hp
    omega
  | other type data => exact ⟨hlength, hv.1, hv.2.2.1, hv.2.2.2⟩

theorem extension_of_extension (e : HelloExtension) : (of_extension e).extension = e := by
  cases e with
  | server_name names =>
    simp only [of_extension, ParsedExtension.extension, List.map_map]
    congr 1
    exact List.map_id names
  | alpn protocols => rfl
  | other type data => rfl

theorem checked_of_extension {e : HelloExtension} (hu : Understood e) (hw : e.WellFormed) :
    (of_extension e).Checked := by
  cases e with
  | server_name names =>
    obtain ⟨n, rfl⟩ := List.length_eq_one_iff.mp hu
    exact ⟨_, rfl, rfl, hw.2 n (List.mem_singleton.mpr rfl)⟩
  | alpn protocols => exact ⟨rfl, hw.2.1, fun p hp => (hw.2.2 p hp).1⟩
  | other type data => trivial

theorem valid_of_extension {e : HelloExtension} (hu : Understood e) (hw : e.WellFormed) :
    (of_extension e).Valid := by
  have hsame := (checked_of_extension hu hw).same
  rw [extension_of_extension] at hsame
  have hlength : (of_extension e).length < 65536 := hsame.length ▸ hw.length
  cases e with
  | server_name names =>
    obtain ⟨n, rfl⟩ := List.length_eq_one_iff.mp hu
    have hdata := hw.length
    rw [one_name, List.length_append, length_bigEndian, List.length_cons,
      lib.tls.length_vector] at hdata
    refine ⟨hlength, ?_⟩
    intro e he
    obtain rfl := List.mem_singleton.mp he
    exact ⟨show 3 + n.name.length < 65536 by omega, show n.name.length < 65536 by omega⟩
  | alpn protocols =>
    have h2 : 2 + (protocols.flatMap (vector 1)).length < 65536 := hlength
    exact ⟨hlength, by omega, hu⟩
  | other type data => exact ⟨hw.2.1, hw.1, hw.2.2.1, hw.2.2.2⟩

/-! ## The whole message -/

theorem foldl_apply (es : List ParsedExtension) (message : ClientHello) :
    es.foldl (fun message e => e.apply message) message =
      { message with
        extensions := message.extensions ++ es.flatMap fun e => added_others e.extension
        server_names := message.server_names ++ es.flatMap fun e => added_names e.extension
        alpn := message.alpn ++ es.flatMap fun e => added_protocols e.extension } := by
  induction es generalizing message with
  | nil => simp
  | cons e es ih =>
    rw [List.foldl_cons, ih]
    cases e <;> simp [ParsedExtension.apply, ParsedExtension.extension, added_others, added_names,
      added_protocols]

theorem ParsedHello.message_eq (h : ParsedHello) (hbody : h.hello.body.length = h.body.length) :
    fields h.record_header h.hello = h.message := by
  have hheader : (1 :: bigEndian 3 h.body.length : List UInt8) =
      1 :: bigEndian 3 h.hello.body.length := by rw [hbody]
  rw [ParsedHello.message, foldl_apply, ParsedHello.front, hheader]
  simp [fields, ParsedHello.hello, List.flatMap_map]

theorem flatMap_extension {es : List ParsedExtension} (h : ∀ e ∈ es, e.Checked) :
    (es.map ParsedExtension.extension).flatMap HelloExtension.encode =
      es.flatMap ParsedExtension.bytes := by
  rw [List.flatMap_map]
  apply List.flatMap_congr
  intro e he
  exact (h e he).same.bytes.symm

theorem ParsedHello.Checked.body {h : ParsedHello} (hc : h.Checked) : h.hello.body = h.body := by
  have hblock : h.hello.block = h.block := by
    rw [lib.tls.ClientHello.block, ParsedHello.hello, ParsedHello.block, hc.extensions_length]
    simp only [flatMap_extension hc.extensions, vector]
  rw [lib.tls.ClientHello.body, hblock]
  rfl

/-- A message that is checked is the well-formed one that it is meant to be. -/
theorem ParsedHello.Checked.well_formed {h : ParsedHello} (hc : h.Checked) (hv : h.Valid) :
    lib.tls.ClientHello.WellFormed h.hello ∧ h.bytes = h.record_header ++ h.hello.encode ∧
      fields h.record_header h.hello = h.message := by
  refine ⟨⟨hv.version, hv.random, hc.session_id, ⟨hc.cipher_suites, hv.cipher_suites⟩, hv.suites,
    ⟨hc.compression_methods, ?_⟩, ?_⟩, ?_, ?_⟩
  · exact Nat.lt_trans hv.compression_methods (by decide)
  · rintro _ ⟨⟩
    refine ⟨?_, ?_, ?_⟩
    · intro e he
      obtain ⟨pe, hpe, rfl⟩ := List.mem_map.mp he
      exact (hc.extensions pe hpe).well_formed (hv.extensions pe hpe)
    · have htypes : h.extensions.map (fun e => e.extension.type) =
          h.extensions.map ParsedExtension.type :=
        List.map_congr_left fun e he => (hc.extensions e he).same.type.symm
      rw [List.map_map]
      exact htypes ▸ hc.types
    · rw [flatMap_extension hc.extensions, ← hc.extensions_length]
      exact hv.extensions_length
  · rw [lib.tls.ClientHello.encode, hc.body]
    rfl
  · exact h.message_eq (congrArg List.length hc.body)

theorem nil_of_bytes {es : List ParsedExtension} (h : es.flatMap ParsedExtension.bytes = []) :
    es = [] := by
  cases es with
  | nil => rfl
  | cons e es => exact absurd (List.append_eq_nil_iff.mp h).1 e.bytes_ne_nil

/-- The keys of the map are types of extensions. -/
theorem keys_sublist (es : List ParsedExtension) :
    (es.flatMap ParsedExtension.key).Sublist (es.map ParsedExtension.type) := by
  induction es with
  | nil => exact .slnil
  | cons e es ih =>
    cases e with
    | server_name entries => exact ih.cons _
    | alpn length names => exact ih.cons _
    | other type data => exact ih.cons_cons _

/-- A well-formed message that the parser understands is read as it is. -/
theorem UnderstoodHello.read {record_header : List UInt8} {m : lib.tls.ClientHello}
    (hu : UnderstoodHello m) (hr : record_header.length = 5)
    (hw : lib.tls.ClientHello.WellFormed m) :
    ∃ h : ParsedHello, h.Valid ∧ h.bytes = record_header ++ m.encode ∧
      h.message = fields record_header m := by
  obtain ⟨es, hes, hunderstood⟩ := hu.extensions
  obtain ⟨hwell, htypes, hlength⟩ := hw.extensions es hes
  let h := of_hello record_header m es
  have hback : (es.map of_extension).map ParsedExtension.extension = es := by
    rw [List.map_map]
    exact (List.map_congr_left fun e _ => extension_of_extension e).trans (List.map_id es)
  have hhello : h.hello = m := by
    have heq : h.hello = { m with extensions := some es } := by
      simp only [h, ParsedHello.hello, of_hello, hback]
    rw [heq, ← hes]
  have hchecks : ∀ pe ∈ h.extensions, pe.Checked := by
    intro pe hpe
    obtain ⟨e, he, rfl⟩ := List.mem_map.mp hpe
    exact checked_of_extension (hunderstood e he) (hwell e he)
  have hvalids : ∀ pe ∈ h.extensions, pe.Valid := by
    intro pe hpe
    obtain ⟨e, he, rfl⟩ := List.mem_map.mp hpe
    exact valid_of_extension (hunderstood e he) (hwell e he)
  have hbytes : es.flatMap HelloExtension.encode = h.extensions.flatMap ParsedExtension.bytes := by
    rw [← flatMap_extension hchecks]
    exact congrArg _ hback.symm
  have hnodup : (h.extensions.map ParsedExtension.type).Nodup := by
    have heq : h.extensions.map ParsedExtension.type = es.map HelloExtension.type := by
      rw [← hback, List.map_map]
      exact List.map_congr_left fun pe hpe => (hchecks pe hpe).same.type
    exact heq ▸ htypes
  have hchecked : h.Checked := ⟨hw.session_id, hw.cipher_suites.1, hw.compression_methods.1,
    congrArg List.length hbytes, hchecks, hnodup⟩
  have hbody : h.body.length < 256 ^ 3 := by
    rw [← hchecked.body, hhello]
    exact hw.body_lt
  have hnone : h.extensions_length = 0 → h.extensions = [] := by
    intro hzero
    rw [hchecked.extensions_length] at hzero
    exact nil_of_bytes (List.length_eq_zero_iff.mp hzero)
  have hvalid : h.Valid := ⟨hr, hw.version, hw.random, Nat.lt_of_le_of_lt hw.session_id (by decide),
    hw.suites, hw.cipher_suites.2, hu.compression_methods, hlength, hnone, hvalids,
    (keys_sublist h.extensions).nodup hnodup, hbody⟩
  obtain ⟨-, hencoded, hfields⟩ := hchecked.well_formed hvalid
  rw [hhello] at hencoded hfields
  exact ⟨h, hvalid, hencoded, hfields.symm⟩

/-! ## Two readings of the same bytes -/

/-- Extensions that start with the same bytes are the same bytes to both. -/
theorem same_of_bytes {pe : ParsedExtension} {e : HelloExtension} {rest rest' : List UInt8}
    (hv : pe.Valid) (hw : e.WellFormed) (h : pe.bytes ++ rest = e.encode ++ rest') :
    Same pe e ∧ rest = rest' := by
  have hsplit : bigEndian 2 pe.type ++ (bigEndian 2 pe.length ++ (pe.data ++ rest)) =
      bigEndian 2 e.type ++ (bigEndian 2 e.data.length ++ (e.data ++ rest')) := by
    simpa only [ParsedExtension.bytes, HelloExtension.encode, vector, List.append_assoc] using h
  obtain ⟨htype, hsplit⟩ := lib.tls.bigEndian_append_inj hv.type_lt hw.type_lt hsplit
  obtain ⟨hlength, hsplit⟩ := lib.tls.bigEndian_append_inj hv.length_lt hw.length hsplit
  have hdata : pe.data = e.data ∧ rest = rest' := by
    cases pe with
    | server_name entries => exact List.append_inj hsplit hlength
    | other type data => exact List.append_inj hsplit hlength
    | alpn length names =>
      -- The protocols tell their own length.
      cases e with
      | server_name names' => exact absurd htype (by decide : alpn_type ≠ 0)
      | other type' data' => exact absurd htype.symm hw.2.2.2
      | alpn protocols =>
        have hlt := hw.length
        rw [HelloExtension.data, lib.tls.length_vector] at hlt
        obtain ⟨hlist, hrest⟩ := lib.tls.vector_append_inj hv.2.1 (by omega) hsplit
        exact ⟨congrArg (vector 2) hlist, hrest⟩
  exact ⟨⟨htype, hlength, hdata.1⟩, hdata.2⟩

theorem forall_same {pes : List ParsedExtension} {es : List HelloExtension}
    (hv : ∀ pe ∈ pes, pe.Valid) (hw : ∀ e ∈ es, e.WellFormed)
    (h : pes.flatMap ParsedExtension.bytes = es.flatMap HelloExtension.encode) :
    List.Forall₂ Same pes es := by
  induction pes generalizing es with
  | nil =>
    cases es with
    | nil => exact .nil
    | cons e es => cases (List.append_eq_nil_iff.mp h.symm).1
  | cons pe pes ih =>
    cases es with
    | nil => exact absurd (List.append_eq_nil_iff.mp h).1 pe.bytes_ne_nil
    | cons e es =>
      obtain ⟨hpe, hpes⟩ := List.forall_mem_cons.mp hv
      obtain ⟨he, hes⟩ := List.forall_mem_cons.mp hw
      obtain ⟨hsame, hrest⟩ := same_of_bytes hpe he h
      exact .cons hsame (ih hpes hes hrest)

theorem same_types {pes : List ParsedExtension} {es : List HelloExtension}
    (h : List.Forall₂ Same pes es) :
    pes.map ParsedExtension.type = es.map HelloExtension.type := by
  induction h with
  | nil => rfl
  | cons hsame _ ih => rw [List.map_cons, List.map_cons, hsame.type, ih]

theorem partners {pes : List ParsedExtension} {es : List HelloExtension}
    (h : List.Forall₂ Same pes es) :
    (∀ pe ∈ pes, ∃ e ∈ es, Same pe e) ∧ ∀ e ∈ es, ∃ pe ∈ pes, Same pe e := by
  induction h with
  | nil => exact ⟨by simp, by simp⟩
  | cons hsame _ ih =>
    constructor
    · intro pe hpe
      rcases List.mem_cons.mp hpe with rfl | hpe
      · exact ⟨_, List.mem_cons_self, hsame⟩
      · obtain ⟨e, he, hs⟩ := ih.1 pe hpe
        exact ⟨e, List.mem_cons_of_mem _ he, hs⟩
    · intro e he
      rcases List.mem_cons.mp he with rfl | he
      · exact ⟨_, List.mem_cons_self, hsame⟩
      · obtain ⟨pe, hpe, hs⟩ := ih.2 e he
        exact ⟨pe, List.mem_cons_of_mem _ hpe, hs⟩

/-- Of items with distinct types only one adds what only its type adds. -/
theorem flatMap_of_nodup {α β : Type} {type : α → Nat} {added : α → List β} {xs : List α} {x : α}
    (hnodup : (xs.map type).Nodup) (hx : x ∈ xs)
    (hadded : ∀ y ∈ xs, type y ≠ type x → added y = []) : xs.flatMap added = added x := by
  induction xs with
  | nil => cases hx
  | cons y ys ih =>
    obtain ⟨hhead, htail⟩ := List.forall_mem_cons.mp hadded
    obtain ⟨hfresh, hnodup⟩ := List.nodup_cons.mp hnodup
    have hother : ∀ z ∈ ys, type z ≠ type y := by
      intro z hz heq
      exact hfresh (heq ▸ List.mem_map_of_mem hz)
    rw [List.flatMap_cons]
    rcases List.mem_cons.mp hx with rfl | hx
    · have hnil : ys.flatMap added = [] :=
        List.flatMap_eq_nil_iff.mpr fun z hz => htail z hz (hother z hz)
      rw [hnil, List.append_nil]
    · rw [hhead (hother x hx).symm, ih hnodup hx htail, List.nil_append]

/-- The bytes of the names of some server names. -/
def name_bytes (names : List ServerName) : Nat := (names.map fun n => n.host_name.length).sum

theorem length_entries (entries : List NameEntry) :
    (entries.flatMap NameEntry.bytes).length =
      5 * entries.length + name_bytes (entries.map NameEntry.entry) := by
  induction entries with
  | nil => rfl
  | cons e entries ih =>
    simp only [List.flatMap_cons, List.length_append, ih, NameEntry.bytes, length_bigEndian,
      List.length_cons, lib.tls.length_vector, name_bytes, List.map_cons, List.sum_cons]
    omega

theorem length_names (names : List lib.tls.ServerName) :
    (names.flatMap lib.tls.ServerName.encode).length =
      3 * names.length + name_bytes (added_names (.server_name names)) := by
  induction names with
  | nil => rfl
  | cons n names ih =>
    simp only [added_names] at ih
    simp only [List.flatMap_cons, List.length_append, ih, lib.tls.ServerName.encode,
      List.length_cons, lib.tls.length_vector, name_bytes, added_names, List.map_cons,
      List.sum_cons]
    omega

/-- Server names that are read as they are come alone. -/
theorem Same.alone {entries : List NameEntry} {names : List lib.tls.ServerName}
    (hs : Same (.server_name entries) (.server_name names))
    (hnames : entries.map NameEntry.entry = added_names (.server_name names)) :
    entries.length = 1 ∧ names.length = 1 := by
  have hcount : entries.length = names.length := by
    have hlength := congrArg List.length hnames
    simpa only [List.length_map, added_names] using hlength
  have hlength : (entries.flatMap NameEntry.bytes).length =
      2 + (names.flatMap lib.tls.ServerName.encode).length :=
    hs.length.trans (lib.tls.length_vector _ _)
  rw [length_entries, length_names, hnames] at hlength
  omega

/-- What both readings agree on is checked, and understood. -/
theorem Same.checked {pe : ParsedExtension} {e : HelloExtension} (hs : Same pe e) (hv : pe.Valid)
    (hw : e.WellFormed)
    (hnames : ∀ entries names, pe = .server_name entries → e = .server_name names →
      entries.map NameEntry.entry = added_names e) : pe.Checked ∧ Understood e := by
  have htype := hs.type
  cases pe with
  | server_name entries =>
    cases e with
    | server_name names =>
      have hnames := hnames entries names rfl rfl
      obtain ⟨h1, h1'⟩ := hs.alone hnames
      obtain ⟨entry, rfl⟩ := List.length_eq_one_iff.mp h1
      obtain ⟨n, rfl⟩ := List.length_eq_one_iff.mp h1'
      have hentry : entry.entry = ⟨n.name_type, n.name⟩ := (List.cons.inj hnames).1
      have hlt := hw.length
      have hdata := hs.data.trans (one_name n.name_type n.name)
      rw [one_name n.name_type n.name, List.length_append, length_bigEndian, List.length_cons,
        lib.tls.length_vector] at hlt
      simp only [ParsedExtension.data, List.flatMap_singleton, NameEntry.bytes] at hdata
      obtain ⟨hlist, -⟩ := lib.tls.bigEndian_append_inj (hv.2 entry List.mem_cons_self).1
        (by omega) hdata
      refine ⟨⟨entry, rfl, ?_, ?_⟩, rfl⟩
      · rw [hlist, hentry]
      · rw [hentry]
        exact hw.2 n List.mem_cons_self
    | alpn protocols => exact absurd htype (by decide : server_name_type ≠ 16)
    | other type data => exact absurd htype.symm hw.2.2.1
  | alpn length names =>
    cases e with
    | server_name names => exact absurd htype (by decide : alpn_type ≠ 0)
    | alpn protocols =>
      have hlists := (List.append_inj hs.data (by simp)).2
      obtain rfl : names = protocols :=
        lib.tls.flatMap_inj lib.tls.vector_one_ne_nil
          (fun _ _ _ _ h h' heq => lib.tls.vector_append_inj h h' heq)
          (fun p hp => Nat.lt_trans (hv.2.2 p hp) (by decide)) (fun p hp => (hw.2.2 p hp).2) hlists
      exact ⟨⟨hs.length.trans (lib.tls.length_vector _ _), hw.2.1, fun p hp => (hw.2.2 p hp).1⟩,
        hv.2.2⟩
    | other type data => exact absurd htype.symm hw.2.2.2
  | other type data =>
    cases e with
    | server_name names => exact absurd htype hv.2.2.1
    | alpn protocols => exact absurd htype hv.2.2.2
    | other type data => exact ⟨trivial, trivial⟩

/-- Server names that the whole messages agree on are those of their only extensions with names. -/
theorem names_agree {pes : List ParsedExtension} {es : List HelloExtension}
    (hsame : List.Forall₂ Same pes es) (htypes : (es.map HelloExtension.type).Nodup)
    (hnames : es.flatMap added_names = pes.flatMap fun pe => added_names pe.extension)
    {entries : List NameEntry} {names : List lib.tls.ServerName}
    (hpe : .server_name entries ∈ pes) (he : .server_name names ∈ es) :
    entries.map NameEntry.entry = added_names (.server_name names) := by
  have hleft : (pes.flatMap fun pe => added_names pe.extension) = entries.map NameEntry.entry := by
    rw [flatMap_of_nodup (same_types hsame ▸ htypes) hpe]
    · simp [ParsedExtension.extension, added_names]
    · intro pe _ hne
      cases pe with
      | server_name entries => exact absurd rfl hne
      | alpn length names => rfl
      | other type data => rfl
  have hright : es.flatMap added_names = added_names (.server_name names) := by
    apply flatMap_of_nodup htypes he
    intro e _ hne
    cases e with
    | server_name names => exact absurd rfl hne
    | alpn protocols => rfl
    | other type data => rfl
  rw [← hleft, ← hnames, hright]

/-- A well-formed message that is read with its own fields passes the checks that are left out, and
is understood. -/
theorem read_as_it_is {h : ParsedHello} {record_header : List UInt8} {m : lib.tls.ClientHello}
    (hv : h.Valid) (hw : lib.tls.ClientHello.WellFormed m)
    (hbytes : h.bytes = record_header ++ m.encode) (hfields : fields record_header m = h.message) :
    h.Checked ∧ UnderstoodHello m := by
  rw [ParsedHello.message, foldl_apply] at hfields
  simp only [fields, ParsedHello.front, ClientHello.mk.injEq, List.nil_append] at hfields
  obtain ⟨hrecord, hheader, hversion, hrandom, hsession, hsuites, hmethods, -, hnames, -⟩ := hfields
  have hbody : h.body = m.body := by
    rw [ParsedHello.bytes, hrecord, lib.tls.ClientHello.encode] at hbytes
    have hvector := (List.cons.inj (List.append_cancel_left hbytes)).2
    exact (List.append_inj hvector (by simp)).2
  have hblock : h.block = m.block := by
    rw [ParsedHello.body, lib.tls.ClientHello.body, hversion, hrandom, hsession, hsuites,
      hmethods] at hbody
    exact List.append_cancel_left (List.append_cancel_left (List.append_cancel_left
      (List.append_cancel_left (List.append_cancel_left hbody))))
  cases hes : m.extensions with
  | none =>
    rw [lib.tls.ClientHello.block, hes] at hblock
    cases hblock
  | some es =>
    obtain ⟨hwell, htypes, hlength⟩ := hw.extensions es hes
    rw [lib.tls.ClientHello.block, hes] at hblock
    obtain ⟨hstated, hextensions⟩ :=
      lib.tls.bigEndian_append_inj hv.extensions_length hlength hblock
    have hsame := forall_same hv.extensions hwell hextensions
    rw [hes, Option.getD_some] at hnames
    have hboth : ∀ pe ∈ h.extensions, ∀ e ∈ es, Same pe e → pe.Checked ∧ Understood e := by
      intro pe hpe e he hs
      apply hs.checked (hv.extensions pe hpe) (hwell e he)
      rintro entries names rfl rfl
      exact names_agree hsame htypes hnames hpe he
    have hchecks : ∀ pe ∈ h.extensions, pe.Checked := by
      intro pe hpe
      obtain ⟨e, he, hs⟩ := (partners hsame).1 pe hpe
      exact (hboth pe hpe e he hs).1
    have hunderstood : ∀ e ∈ es, Understood e := by
      intro e he
      obtain ⟨pe, hpe, hs⟩ := (partners hsame).2 e he
      exact (hboth pe hpe e he hs).2
    constructor
    · refine ⟨hsession ▸ hw.session_id, hsuites ▸ hw.cipher_suites.1,
        hmethods ▸ hw.compression_methods.1, ?_, hchecks, same_types hsame ▸ htypes⟩
      rw [hstated, hextensions]
    · exact ⟨hmethods ▸ hv.compression_methods, es, hes, hunderstood⟩

/-! ## All buffers -/

theorem defined_iff (raw : List UInt8) : (from_raw_data raw).value ≠ .error .fault ↔
    ∀ kind p, Unchecked raw kind p → kind.Fits raw p := by
  have hfault : (from_raw_data raw).value = .error .fault ↔ Misfit raw := by
    rw [← faults_from_raw_data_impl]
    unfold from_raw_data lib.cursor.Reader.Faults
    simp only
    split
    · rename_i h
      rw [h]
      simp
    · rfl
  rw [ne_eq, hfault]
  constructor
  · intro h kind p hu
    by_contra hbad
    exact h ⟨kind, p, hu, hbad⟩
  · rintro h ⟨kind, p, hu, hbad⟩
    exact hbad (h kind p hu)

/-- The parser takes exactly the well-formed messages when each byte that it reads without a check
fits, the message that it makes of the buffer passes the checks that it leaves out, and the
well-formed message that the buffer is has a block of extensions, one server name in its list, and
no length of one byte from 128 on. -/
theorem well_formed_messages_are_read_iff (raw : List UInt8) :
    ReadsWellFormed raw ↔
      (∀ kind p, Unchecked raw kind p → kind.Fits raw p) ∧
      (∀ h : ParsedHello, h.Valid → h.bytes = raw → h.Checked) ∧
      ∀ record_header m, record_header.length = 5 → lib.tls.ClientHello.WellFormed m →
        raw = record_header ++ m.encode → UnderstoodHello m := by
  constructor
  · rintro ⟨hdefined, hexact⟩
    refine ⟨(defined_iff raw).mp hdefined, ?_, ?_⟩
    · intro h hv hraw
      obtain ⟨record_header, m, -, hw, hraw', hfields⟩ :=
        (hexact h.message).mp ((from_raw_data_ok_iff raw _).mpr ⟨h, hv, hraw, rfl⟩)
      exact (read_as_it_is hv hw (hraw.trans hraw') hfields).1
    · intro record_header m hr hw hraw
      obtain ⟨h, hv, hraw', hmessage⟩ := (from_raw_data_ok_iff raw _).mp
        ((hexact (fields record_header m)).mpr ⟨record_header, m, hr, hw, hraw, rfl⟩)
      exact (read_as_it_is hv hw (hraw'.trans hraw) hmessage.symm).2
  · rintro ⟨hfits, hchecked, hunderstood⟩
    refine ⟨(defined_iff raw).mpr hfits, fun message => ?_⟩
    rw [from_raw_data_ok_iff]
    constructor
    · rintro ⟨h, hv, hraw, rfl⟩
      obtain ⟨hw, hbytes, hfields⟩ := (hchecked h hv hraw).well_formed hv
      exact ⟨h.record_header, h.hello, hv.record_header, hw, hraw ▸ hbytes, hfields⟩
    · rintro ⟨record_header, m, hr, hw, hraw, rfl⟩
      obtain ⟨h, hv, hbytes, hmessage⟩ := (hunderstood record_header m hr hw hraw).read hr hw
      exact ⟨h, hv, hbytes.trans hraw.symm, hmessage⟩

/-- A Client Hello with one cipher suite, and no block of extensions. -/
def plainHello : lib.tls.ClientHello where
  version := [3, 3]
  random := List.replicate 32 0
  session_id := []
  cipher_suites := [47]
  compression_methods := [0]
  extensions := none

/-- It is refused. -/
theorem a_message_without_extensions_is_not_read :
    ¬ ReadsWellFormed ([22, 3, 1, 0, 45] ++ plainHello.encode) := by
  intro h
  have hw : lib.tls.ClientHello.WellFormed plainHello :=
    ⟨rfl, rfl, by decide, by decide, by decide, by decide, by rintro es ⟨⟩⟩
  have hok := (h.exact (fields [22, 3, 1, 0, 45] plainHello)).mpr
    ⟨[22, 3, 1, 0, 45], plainHello, rfl, hw, rfl, rfl⟩
  have hrefused : (from_raw_data ([22, 3, 1, 0, 45] ++ plainHello.encode)).value.isOk = false := by
    decide
  rw [hok] at hrefused
  cases hrefused

end proxy.tls.handshake
