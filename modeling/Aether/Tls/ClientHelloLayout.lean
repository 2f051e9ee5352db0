-- What the Client Hello parser takes: the messages of the layout that it
-- follows, and what it makes of each of them. The layout is not that of TLS in
-- all its parts.
import Aether.Tls.ClientHelloBounds
import Aether.Lib.CursorSpans
import Aether.Lib.Tls

open lib.cursor
open lib.cursor.Reader (fail loop Parses ReadsItem Chain)
open lib.big_endian
open lib.tls (vector)

namespace proxy.tls.handshake

variable {raw : List UInt8}

/-! ## Single reads -/

theorem take_two {i : Nat} (h : i + 2 ≤ raw.length) :
    (raw.drop i).take 2 = bigEndian 2 (wordAt raw i) := by
  have h0 : i < raw.length := by omega
  have h1 : i + 1 < raw.length := by omega
  have htwo : (raw.drop i).take 2 = [raw[i], raw[i + 1]] := by
    rw [List.drop_eq_getElem_cons h0, List.drop_eq_getElem_cons h1]
    rfl
  have hword : wordAt raw i = ofBigEndian [raw[i], raw[i + 1]] := by
    simp only [wordAt, List.getD_eq_getElem?_getD, List.getElem?_eq_getElem h0,
      List.getElem?_eq_getElem h1, Option.getD_some, ofBigEndian, List.foldl_cons, List.foldl_nil]
    omega
  rw [htwo, hword]
  exact (bigEndian_ofBigEndian [raw[i], raw[i + 1]]).symm

theorem parses_word (hn : raw.length < 2 ^ 32) :
    Parses raw (read_byte_string raw 2) (fun v bs => v < 65536 ∧ bs = bigEndian 2 v) := by
  intro i hi v j
  rw [(read_word hn hi).2 v j]
  constructor
  · rintro ⟨hle, rfl, rfl⟩
    refine ⟨_, ⟨wordAt_lt raw i, rfl⟩, ?_⟩
    rw [← take_two hle]
    exact spans_take hle
  · rintro ⟨bs, ⟨hv, rfl⟩, hs⟩
    obtain ⟨htake, hj, hle⟩ := spans_iff.mp hs
    rw [length_bigEndian] at htake hj
    have hi2 : i + 2 ≤ raw.length := hj ▸ hle
    refine ⟨hi2, ?_, hj⟩
    rw [take_two hi2] at htake
    rw [← ofBigEndian_bigEndian (show v < 256 ^ 2 from hv), ← htake,
      ofBigEndian_bigEndian (show wordAt raw i < 256 ^ 2 from wordAt_lt raw i)]

theorem spans_one {i j : Nat} {c : UInt8} :
    Spans raw i [c] j ↔ raw[i]? = some c ∧ j = i + 1 := by
  rw [spans_iff, List.length_singleton]
  by_cases h : i < raw.length
  · rw [List.getElem?_eq_getElem h, List.drop_eq_getElem_cons h, Option.some.injEq]
    constructor
    · rintro ⟨htake, rfl, -⟩
      exact ⟨(List.cons.inj htake).1, rfl⟩
    · rintro ⟨rfl, rfl⟩
      exact ⟨rfl, rfl, h⟩
  · rw [List.getElem?_eq_none (Nat.le_of_not_lt h)]
    constructor
    · rintro ⟨-, rfl, hle⟩
      exact absurd hle h
    · rintro ⟨hno, -⟩
      cases hno

theorem parses_next (hn : raw.length < 2 ^ 32) :
    Parses raw (read_next raw) (fun c bs => bs = [c]) := by
  intro i _ c j
  rw [gives_read_next hn, ← spans_one]
  constructor
  · intro h
    exact ⟨[c], rfl, h⟩
  · rintro ⟨bs, rfl, h⟩
    exact h

theorem parses_copy {num_bytes : Nat} (h : raw.length + num_bytes < 2 ^ 64) :
    Parses raw (copy_bytes raw num_bytes) (fun a bs => a.length = num_bytes ∧ bs = a) := by
  intro i hi a j
  rw [(copy_bytes_small (by omega)).2 a j]
  constructor
  · rintro ⟨hle, rfl, rfl⟩
    have hlength : ((raw.drop i).take num_bytes).length = num_bytes := by
      rw [List.length_take, List.length_drop]
      omega
    exact ⟨_, ⟨hlength, rfl⟩, spans_take hle⟩
  · rintro ⟨bs, ⟨rfl, rfl⟩, hs⟩
    obtain ⟨htake, rfl, hle⟩ := spans_iff.mp hs
    exact ⟨hle, htake.symm, rfl⟩

theorem bigEndian_one {n : Nat} {c : UInt8} (h : n = c.toNat) : bigEndian 1 n = [c] := by
  subst h
  simp [bigEndian]

/-- A length of one byte counts as long as it is no negative `char`. -/
theorem parses_short (hn : raw.length < 2 ^ 32) :
    Parses raw (read_short raw) (fun a bs => a.length < 128 ∧ bs = vector 1 a) := by
  have hcopy : ∀ c : UInt8, Parses raw (copy_bytes raw (char_to_size c))
      (fun a bs => c.toNat < 128 ∧ a.length = c.toNat ∧ bs = a) := by
    intro c
    by_cases hc : c.toNat < 128
    · have hsize : char_to_size c = c.toNat := if_pos hc
      rw [hsize]
      apply (parses_copy (by omega)).congr
      intro a bs
      simp only [hc, true_and]
    · intro i hi a j
      constructor
      · intro hg
        exact absurd hg ((copy_bytes_negative hn hi (by omega)).2 a j)
      · rintro ⟨bs, ⟨hlt, -⟩, -⟩
        exact absurd hlt hc
  apply ((parses_next hn).bind fun c _ _ => hcopy c).congr
  intro a bs
  constructor
  · rintro ⟨c, _, _, rfl, ⟨hc, hlength, rfl⟩, rfl⟩
    exact ⟨by omega, by rw [vector, bigEndian_one hlength]⟩
  · rintro ⟨hlt, rfl⟩
    have hbyte : a.length = (UInt8.ofNat a.length).toNat := by
      rw [UInt8.toNat_ofNat']
      omega
    exact ⟨UInt8.ofNat a.length, _, _, rfl, ⟨by omega, hbyte, rfl⟩,
      by rw [vector, bigEndian_one hbyte]⟩

/-! ## Lists -/

/-- A loop up to a length reads items that fill it. -/
theorem parses_within {σ ι : Type} {V : σ → ι → Prop} {next : σ → ι → σ}
    {bytes : ι → List UInt8} {body : σ → Reader Error σ} (message : String)
    (hn : raw.length < 2 ^ 32) (hs : ∀ s, Reader.Sound raw.length (body s))
    (ha : Reader.Advances raw.length body) (h : ReadsItem raw V next bytes body)
    (hne : ∀ x, bytes x ≠ []) {length : Nat} (hlength : length < 65536) (s : σ) :
    Parses raw (read_within raw length message body s) (fun s' bs => ∃ xs, Chain V next s xs ∧
      s' = xs.foldl next s ∧ bs = xs.flatMap bytes ∧ bs.length = length) := by
  intro i hi s' j
  rw [gives_read_within message hn hs ha hlength s hi,
    Reader.rounds_items h hne s s' hi]
  constructor
  · rintro ⟨xs, hc, rfl, hspans, hj⟩
    have hstop := hspans.stop
    exact ⟨_, ⟨xs, hc, rfl, rfl, by omega⟩, hspans⟩
  · rintro ⟨_, ⟨xs, hc, rfl, rfl, hlen⟩, hspans⟩
    exact ⟨xs, hc, rfl, hspans, by rw [hspans.stop, hlen]⟩

theorem foldl_snoc {σ ι : Type} (f : ι → σ) (s : List σ) (xs : List ι) :
    xs.foldl (fun s x => s ++ [f x]) s = s ++ xs.map f := by
  induction xs generalizing s with
  | nil => simp
  | cons x xs ih => simp [ih]

theorem reads_cipher_suite (hn : raw.length < 2 ^ 32) :
    ReadsItem raw (fun (_ : List Nat) s => s < 65536) (fun suites s => suites ++ [id s])
      (bigEndian 2) (read_cipher_suite raw) := by
  intro suites
  apply ((parses_word hn).bind fun s _ _ => Reader.parses_pure (suites ++ [s])).congr
  intro suites' bs
  constructor
  · rintro ⟨s, _, _, ⟨hs, rfl⟩, ⟨rfl, rfl⟩, rfl⟩
    exact ⟨s, hs, rfl, by simp⟩
  · rintro ⟨s, hs, rfl, rfl⟩
    exact ⟨s, _, _, ⟨hs, rfl⟩, ⟨rfl, rfl⟩, by simp⟩

theorem parses_cipher_suites (hn : raw.length < 2 ^ 32) :
    Parses raw (read_cipher_suites raw) (fun suites bs => (∀ s ∈ suites, s < 65536) ∧
      2 * suites.length < 65536 ∧ bs = vector 2 (suites.flatMap (bigEndian 2))) := by
  have hne : ∀ s : Nat, bigEndian 2 s ≠ [] := by
    intro s h
    cases h
  apply ((parses_word hn).bind fun length _ hlength =>
    parses_within "Invalid cipher suites length" hn (sound_read_cipher_suite hn)
      (advances_read_cipher_suite hn) (reads_cipher_suite hn) hne hlength.1 []).congr
  intro suites bs
  constructor
  · rintro ⟨length, _, _, ⟨hlt, rfl⟩, ⟨xs, hc, rfl, rfl, hlen⟩, rfl⟩
    rw [Reader.chain_const] at hc
    rw [foldl_snoc, List.nil_append, List.map_id]
    refine ⟨hc, ?_, ?_⟩
    · rw [← lib.tls.ClientHello.length_suites, hlen]
      exact hlt
    · rw [vector, hlen]
  · rintro ⟨hs, hlt, rfl⟩
    have hlen := lib.tls.ClientHello.length_suites suites
    refine ⟨2 * suites.length, _, _, ⟨hlt, rfl⟩,
      ⟨suites, (Reader.chain_const _ _ _ _).mpr hs, ?_, rfl, hlen⟩, ?_⟩
    · rw [foldl_snoc, List.nil_append, List.map_id]
    · rw [vector, hlen]

/-- An entry of the server names as the parser reads it, with a length of the list that it does not
look at. -/
structure NameEntry where
  list_length : Nat
  entry : ServerName
  deriving DecidableEq, Repr

def NameEntry.bytes (e : NameEntry) : List UInt8 :=
  bigEndian 2 e.list_length ++ (e.entry.type :: vector 2 e.entry.host_name)

def NameEntry.Valid (e : NameEntry) : Prop :=
  e.list_length < 65536 ∧ e.entry.host_name.length < 65536

theorem reads_server_name (hn : raw.length < 2 ^ 32) :
    ReadsItem raw (fun (_ : List ServerName) e => e.Valid)
      (fun names e => names ++ [NameEntry.entry e]) NameEntry.bytes (read_server_name raw) := by
  intro names
  apply ((parses_word hn).bind fun _ _ _ => (parses_next hn).bind fun type _ _ =>
    (parses_word hn).bind fun name_length _ hlength => (parses_copy
      (by have := hlength.1; omega)).bind fun host_name _ _ =>
        Reader.parses_pure (names ++ [⟨type, host_name⟩])).congr
  intro names' bs
  constructor
  · rintro ⟨list_length, _, _, ⟨hlist, rfl⟩, ⟨type, _, _, rfl, ⟨name_length, _, _, ⟨hname, rfl⟩,
      ⟨host_name, _, _, ⟨rfl, rfl⟩, ⟨rfl, rfl⟩, rfl⟩, rfl⟩, rfl⟩, rfl⟩
    refine ⟨⟨list_length, ⟨type, _⟩⟩, ⟨hlist, hname⟩, rfl, ?_⟩
    simp [NameEntry.bytes, vector]
  · rintro ⟨⟨list_length, ⟨type, host_name⟩⟩, ⟨hlist, hname⟩, rfl, rfl⟩
    refine ⟨list_length, _, _, ⟨hlist, rfl⟩, ⟨type, _, _, rfl, ⟨host_name.length, _, _,
      ⟨hname, rfl⟩, ⟨host_name, _, _, ⟨rfl, rfl⟩, ⟨rfl, rfl⟩, rfl⟩, rfl⟩, rfl⟩, ?_⟩
    simp [NameEntry.bytes, vector]

theorem reads_alpn (hn : raw.length < 2 ^ 32) :
    ReadsItem raw (fun (_ : List (List UInt8)) p => p.length < 128) (fun alpn p => alpn ++ [id p])
      (vector 1) (read_alpn raw) := by
  intro alpn
  apply ((parses_short hn).bind fun p _ _ => Reader.parses_pure (alpn ++ [p])).congr
  intro alpn' bs
  constructor
  · rintro ⟨p, _, _, ⟨hp, rfl⟩, ⟨rfl, rfl⟩, rfl⟩
    exact ⟨p, hp, rfl, by simp⟩
  · rintro ⟨p, hp, rfl, rfl⟩
    exact ⟨p, _, _, ⟨hp, rfl⟩, ⟨rfl, rfl⟩, by simp⟩

/-! ## Extensions -/

/-- An extension as the parser reads it. It does not compare the length of the one for protocols
with that of the list in it. -/
inductive ParsedExtension where
  | server_name (entries : List NameEntry)
  | alpn (length : Nat) (names : List (List UInt8))
  | other (type : Nat) (data : List UInt8)
  deriving DecidableEq, Repr

namespace ParsedExtension

def type : ParsedExtension → Nat
  | server_name _ => server_name_type
  | alpn _ _ => alpn_type
  | other type _ => type

def length : ParsedExtension → Nat
  | server_name entries => (entries.flatMap NameEntry.bytes).length
  | alpn length _ => length
  | other _ data => data.length

def data : ParsedExtension → List UInt8
  | server_name entries => entries.flatMap NameEntry.bytes
  | alpn _ names => vector 2 (names.flatMap (vector 1))
  | other _ data => data

def bytes (e : ParsedExtension) : List UInt8 :=
  bigEndian 2 e.type ++ (bigEndian 2 e.length ++ e.data)

def Valid : ParsedExtension → Prop
  | server_name entries =>
    (entries.flatMap NameEntry.bytes).length < 65536 ∧ ∀ e ∈ entries, e.Valid
  | alpn length names => length < 65536 ∧ (names.flatMap (vector 1)).length < 65536 ∧
      ∀ p ∈ names, p.length < 128
  | other type data =>
    type < 65536 ∧ data.length < 65536 ∧ type ≠ server_name_type ∧ type ≠ alpn_type

/-- The key that it takes in the map of the extensions. -/
def key : ParsedExtension → List Nat
  | other type _ => [type]
  | _ => []

/-- The message with the extension. -/
def apply (message : ClientHello) : ParsedExtension → ClientHello
  | server_name entries =>
    { message with server_names := message.server_names ++ entries.map (·.entry) }
  | alpn _ names => { message with alpn := message.alpn ++ names }
  | other type data => { message with extensions := message.extensions ++ [(type, data)] }

theorem bytes_ne_nil (e : ParsedExtension) : e.bytes ≠ [] := by
  intro h
  cases h

theorem Valid.type_lt {e : ParsedExtension} (h : e.Valid) : e.type < 65536 := by
  cases e with
  | server_name entries => exact (by decide : server_name_type < 65536)
  | alpn length names => exact (by decide : alpn_type < 65536)
  | other type data => exact h.1

theorem Valid.length_lt {e : ParsedExtension} (h : e.Valid) : e.length < 65536 := by
  cases e with
  | server_name entries => exact h.1
  | alpn length names => exact h.1
  | other type data => exact h.2.1

theorem types_apply (message : ClientHello) (e : ParsedExtension) :
    types (e.apply message) = types message ++ e.key := by
  cases e <;> simp [apply, types, key]

end ParsedExtension

theorem parses_server_name (hn : raw.length < 2 ^ 32) (message : ClientHello) {length : Nat}
    (hlength : length < 65536) :
    Parses raw (do
        let names ← read_within raw length "Error in parsing server name extension"
          (read_server_name raw) message.server_names
        pure { message with server_names := names })
      (fun message' bs => ∃ entries, (∀ e ∈ entries, e.Valid) ∧
        message' = (ParsedExtension.server_name entries).apply message ∧
        bs = entries.flatMap NameEntry.bytes ∧ bs.length = length) := by
  have hne : ∀ e : NameEntry, e.bytes ≠ [] := by
    intro e h
    cases h
  apply ((parses_within "Error in parsing server name extension" hn (sound_read_server_name hn)
    (advances_read_server_name hn) (reads_server_name hn) hne hlength message.server_names).bind
      fun names _ _ => Reader.parses_pure { message with server_names := names }).congr
  intro message' bs
  simp only [Reader.chain_const, foldl_snoc]
  constructor
  · rintro ⟨names, _, _, ⟨entries, hv, rfl, rfl, hlen⟩, ⟨rfl, rfl⟩, rfl⟩
    rw [List.append_nil]
    exact ⟨entries, hv, rfl, rfl, hlen⟩
  · rintro ⟨entries, hv, rfl, rfl, hlen⟩
    exact ⟨_, _, _, ⟨entries, hv, rfl, rfl, hlen⟩, ⟨rfl, rfl⟩, (List.append_nil _).symm⟩

theorem parses_alpn (hn : raw.length < 2 ^ 32) (message : ClientHello) (length : Nat) :
    Parses raw (do
        let alpn_length ← read_byte_string raw 2
        let alpn ← read_within raw alpn_length "Error in parsing ALPN extension"
          (read_alpn raw) message.alpn
        pure { message with alpn := alpn })
      (fun message' bs => ∃ names, (∀ p ∈ names, p.length < 128) ∧
        (names.flatMap (vector 1)).length < 65536 ∧
        message' = (ParsedExtension.alpn length names).apply message ∧
        bs = vector 2 (names.flatMap (vector 1))) := by
  apply ((parses_word hn).bind fun alpn_length _ hlength =>
    (parses_within "Error in parsing ALPN extension" hn (sound_read_alpn hn)
      (advances_read_alpn hn) (reads_alpn hn) lib.tls.vector_one_ne_nil hlength.1
        message.alpn).bind
          fun alpn _ _ => Reader.parses_pure { message with alpn := alpn }).congr
  intro message' bs
  simp only [Reader.chain_const, foldl_snoc, List.map_id]
  constructor
  · rintro ⟨_, _, _, ⟨hlt, rfl⟩, ⟨alpn, _, _, ⟨names, hv, rfl, rfl, rfl⟩, ⟨rfl, rfl⟩, rfl⟩, rfl⟩
    rw [List.append_nil]
    exact ⟨names, hv, hlt, rfl, rfl⟩
  · rintro ⟨names, hv, hlt, rfl, rfl⟩
    exact ⟨_, _, _, ⟨hlt, rfl⟩, ⟨_, _, _, ⟨names, hv, rfl, rfl, rfl⟩, ⟨rfl, rfl⟩, rfl⟩,
      by rw [List.append_nil, vector]⟩

/-- An extension that the parser takes after those of a message. -/
def FitsAfter (message : ClientHello) (e : ParsedExtension) : Prop :=
  e.Valid ∧ ∀ type ∈ e.key, type ∉ types message

/-- What follows the type and the length of an extension. -/
theorem parses_extension_data (hn : raw.length < 2 ^ 32) (message : ClientHello) {type length : Nat}
    (htype : type < 65536) (hlength : length < 65536) :
    Parses raw (if type = server_name_type then do
          let names ← read_within raw length "Error in parsing server name extension"
            (read_server_name raw) message.server_names
          pure { message with server_names := names }
        else if type = alpn_type then do
          let alpn_length ← read_byte_string raw 2
          let alpn ← read_within raw alpn_length "Error in parsing ALPN extension"
            (read_alpn raw) message.alpn
          pure { message with alpn := alpn }
        else if type ∈ message.extensions.map (·.1) then
          fail (invalid_client_hello "Duplicate extension found")
        else do
          let data ← copy_bytes raw length
          pure { message with extensions := message.extensions ++ [(type, data)] })
      (fun message' bs => ∃ e, FitsAfter message e ∧ message' = e.apply message ∧
        e.type = type ∧ e.length = length ∧ bs = e.data) := by
  have hne : alpn_type ≠ server_name_type := by decide
  by_cases hs : type = server_name_type
  · subst hs
    rw [if_pos rfl]
    apply (parses_server_name hn message hlength).congr
    intro message' bs
    constructor
    · rintro ⟨entries, hv, rfl, rfl, rfl⟩
      exact ⟨.server_name entries, ⟨⟨hlength, hv⟩, by simp [ParsedExtension.key]⟩, rfl, rfl, rfl,
        rfl⟩
    · rintro ⟨e, ⟨hv, -⟩, rfl, htype, rfl, rfl⟩
      cases e with
      | server_name entries => exact ⟨entries, hv.2, rfl, rfl, rfl⟩
      | alpn length names => exact absurd htype hne
      | other type data => exact absurd htype hv.2.2.1
  rw [if_neg hs]
  by_cases ha : type = alpn_type
  · subst ha
    rw [if_pos rfl]
    apply (parses_alpn hn message length).congr
    intro message' bs
    constructor
    · rintro ⟨names, hv, hlt, rfl, rfl⟩
      exact ⟨.alpn length names, ⟨⟨hlength, hlt, hv⟩, by simp [ParsedExtension.key]⟩, rfl, rfl, rfl,
        rfl⟩
    · rintro ⟨e, ⟨hv, -⟩, rfl, htype, rfl, rfl⟩
      cases e with
      | server_name entries => exact absurd htype.symm hne
      | alpn length names => exact ⟨names, hv.2.2, hv.2.1, rfl, rfl⟩
      | other type data => exact absurd htype hv.2.2.2
  rw [if_neg ha]
  -- Another extension has the bytes that it says, and a key that is new.
  have hother : ∀ {e : ParsedExtension}, e.type = type → ∃ data, e = .other type data := by
    intro e he
    cases e with
    | server_name entries => exact absurd he.symm hs
    | alpn length names => exact absurd he.symm ha
    | other type' data => exact ⟨data, by rw [← show type' = type from he]⟩
  split
  · rename_i hseen
    intro i _ message' j
    constructor
    · intro hg
      exact absurd hg (Reader.gives_fail _ _ _ _)
    · rintro ⟨_, ⟨e, ⟨-, hnew⟩, -, htype, -⟩, -⟩
      obtain ⟨data, rfl⟩ := hother htype
      exact absurd hseen (hnew type (List.mem_singleton.mpr rfl))
  · rename_i hseen
    apply ((parses_copy (by omega)).bind fun data _ _ => Reader.parses_pure
      { message with extensions := message.extensions ++ [(type, data)] }).congr
    intro message' bs
    constructor
    · rintro ⟨data, _, _, ⟨rfl, rfl⟩, ⟨rfl, rfl⟩, rfl⟩
      refine ⟨.other type _, ⟨⟨htype, hlength, hs, ha⟩, ?_⟩, rfl, rfl, rfl, List.append_nil _⟩
      intro key hkey
      obtain rfl := List.mem_singleton.mp hkey
      exact hseen
    · rintro ⟨e, ⟨hv, -⟩, rfl, htype, rfl, rfl⟩
      obtain ⟨data, rfl⟩ := hother htype
      exact ⟨data, _, _, ⟨rfl, rfl⟩, ⟨rfl, rfl⟩, (List.append_nil _).symm⟩

theorem reads_extension (hn : raw.length < 2 ^ 32) :
    ReadsItem raw FitsAfter (fun message e => e.apply message) ParsedExtension.bytes
      (read_extension raw) := by
  intro message
  apply ((parses_word hn).bind fun type _ htype => (parses_word hn).bind fun length _ hlength =>
    parses_extension_data hn message htype.1 hlength.1).congr
  intro message' bs
  constructor
  · rintro ⟨_, _, _, ⟨-, rfl⟩, ⟨_, _, _, ⟨-, rfl⟩, ⟨e, hfits, rfl, rfl, rfl, rfl⟩, rfl⟩, rfl⟩
    exact ⟨e, hfits, rfl, rfl⟩
  · rintro ⟨e, hfits, rfl, rfl⟩
    exact ⟨e.type, _, _, ⟨hfits.1.type_lt, rfl⟩, ⟨e.length, _, _, ⟨hfits.1.length_lt, rfl⟩,
      ⟨e, hfits, rfl, rfl, rfl, rfl⟩, rfl⟩, rfl⟩

/-- The extensions that may come one after another: they are valid, and no key comes twice. -/
theorem chain_extensions {message : ClientHello} (hm : (types message).Nodup)
    (es : List ParsedExtension) :
    Chain FitsAfter (fun message e => e.apply message) message es ↔
      (∀ e ∈ es, e.Valid) ∧ (types message ++ es.flatMap ParsedExtension.key).Nodup := by
  induction es generalizing message with
  | nil => simp [Chain, hm]
  | cons e es ih =>
    have hsplit : (types message ++ (e :: es).flatMap ParsedExtension.key).Nodup ↔
        (types (e.apply message) ++ es.flatMap ParsedExtension.key).Nodup := by
      rw [e.types_apply, List.flatMap_cons, List.append_assoc]
    have hnext : (types (e.apply message)).Nodup ↔ ∀ key ∈ e.key, key ∉ types message := by
      rw [e.types_apply]
      cases e with
      | server_name entries => simp [hm, ParsedExtension.key]
      | alpn length names => simp [hm, ParsedExtension.key]
      | other type data =>
        rw [ParsedExtension.key, List.nodup_append]
        simp only [List.mem_singleton, forall_eq]
        constructor
        · rintro ⟨-, -, hne⟩ hmem
          exact hne type hmem rfl
        · intro hnew
          refine ⟨hm, by simp, fun a ha heq => hnew ?_⟩
          rwa [← heq]
    rw [hsplit, List.forall_mem_cons]
    constructor
    · rintro ⟨⟨hv, hkey⟩, hc⟩
      obtain ⟨hvs, hnodup⟩ := (ih (hnext.mpr hkey)).mp hc
      exact ⟨⟨hv, hvs⟩, hnodup⟩
    · rintro ⟨⟨hv, hvs⟩, hnodup⟩
      have hfirst := (List.nodup_append.mp hnodup).1
      exact ⟨⟨hv, hnext.mp hfirst⟩, (ih hfirst).mpr ⟨hvs, hnodup⟩⟩

/-! ## The message -/

/-- A Client Hello as the parser reads it. The block of the extensions is never missing, and its
length need not be right. -/
structure ParsedHello where
  record_header : List UInt8
  version : List UInt8
  random : List UInt8
  session_id : List UInt8
  cipher_suites : List Nat
  compression_methods : List UInt8
  extensions_length : Nat
  extensions : List ParsedExtension
  deriving DecidableEq, Repr

namespace ParsedHello

/-- The block of the extensions, from its length on. -/
def block (h : ParsedHello) : List UInt8 :=
  bigEndian 2 h.extensions_length ++ h.extensions.flatMap ParsedExtension.bytes

def body (h : ParsedHello) : List UInt8 :=
  h.version ++ (h.random ++ (vector 1 h.session_id ++
    (vector 2 (h.cipher_suites.flatMap (bigEndian 2)) ++
      (vector 1 h.compression_methods ++ h.block))))

def bytes (h : ParsedHello) : List UInt8 := h.record_header ++ 1 :: vector 3 h.body

/-- What the parser checks. -/
structure Valid (h : ParsedHello) : Prop where
  record_header : h.record_header.length = 5
  version : h.version.length = 2
  random : h.random.length = 32
  session_id : h.session_id.length < 128
  suites : ∀ s ∈ h.cipher_suites, s < 65536
  cipher_suites : 2 * h.cipher_suites.length < 65536
  compression_methods : h.compression_methods.length < 128
  extensions_length : h.extensions_length < 65536
  none : h.extensions_length = 0 → h.extensions = []
  extensions : ∀ e ∈ h.extensions, e.Valid
  keys : (h.extensions.flatMap ParsedExtension.key).Nodup
  body : h.body.length < 256 ^ 3

/-- The message before its extensions. -/
def front (h : ParsedHello) : ClientHello where
  record_header := h.record_header
  handshake_header := 1 :: bigEndian 3 h.body.length
  version := h.version
  random := h.random
  session_id := h.session_id
  cipher_suites := h.cipher_suites
  compression_methods := h.compression_methods
  extensions := []
  server_names := []
  alpn := []

/-- What the parser makes of it. -/
def message (h : ParsedHello) : ClientHello :=
  h.extensions.foldl (fun message e => e.apply message) h.front

end ParsedHello

theorem gives_extensions (hn : raw.length < 2 ^ 32) {message : ClientHello}
    (hm : types message = []) {i : Nat} (hi : i ≤ raw.length) (extensions_length : Nat)
    (message' : ClientHello) :
    (if extensions_length ≠ 0 then
        loop raw.length (read_extension raw) (raw.length + 1) message
      else pure message).Gives i message' raw.length ↔
      ∃ es, (extensions_length = 0 → es = []) ∧ (∀ e ∈ es, e.Valid) ∧
        (es.flatMap ParsedExtension.key).Nodup ∧
        message' = es.foldl (fun message e => e.apply message) message ∧
        Spans raw i (es.flatMap ParsedExtension.bytes) raw.length := by
  split
  · rename_i hlength
    have hrounds : Reader.Rounds raw.length (read_extension raw) message i message' raw.length ∧
        raw.length = raw.length ↔ _ :=
      Reader.rounds_items (reads_extension hn) ParsedExtension.bytes_ne_nil message message' hi
    have hchain := fun es => chain_extensions (show (types message).Nodup by rw [hm]; simp) es
    rw [hm] at hchain
    rw [Reader.gives_loop (sound_read_extension hn) (advances_read_extension hn) _ _ hi (by omega)]
    constructor
    · rintro ⟨hr, -⟩
      obtain ⟨es, hc, rfl, hs, -⟩ := hrounds.mp ⟨hr, rfl⟩
      obtain ⟨hv, hkeys⟩ := (hchain es).mp hc
      exact ⟨es, fun h => absurd h hlength, hv, hkeys, rfl, hs⟩
    · rintro ⟨es, -, hv, hkeys, rfl, hs⟩
      exact ⟨(hrounds.mpr ⟨es, (hchain es).mpr ⟨hv, hkeys⟩, rfl, hs, rfl⟩).1, Nat.lt_irrefl _⟩
  · rename_i hlength
    rw [Reader.pure_eq, Reader.gives_pure]
    constructor
    · rintro ⟨rfl, rfl⟩
      exact ⟨[], fun _ => rfl, by simp, by simp, rfl, spans_nil.mpr ⟨rfl, hi⟩⟩
    · rintro ⟨es, hnone, -, -, rfl, hs⟩
      obtain rfl := hnone (not_not.mp hlength)
      exact ⟨rfl, (spans_nil.mp hs).1⟩

/-- The check that a read ends with the message. -/
theorem gives_to_end (m : Reader Error ClientHello) (i : Nat) (message : ClientHello) (j : Nat) :
    (do
      let message ← m
      let index ← current_index
      if index ≠ raw.length then fail (invalid_client_hello "Invalid Client Hello length")
      else pure message).Gives i message j ↔ m.Gives i message raw.length ∧ j = raw.length := by
  rw [Reader.bind_eq, Reader.gives_bind]
  constructor
  · rintro ⟨message', k, hg, hend⟩
    rw [gives_index] at hend
    split at hend
    · exact absurd hend (Reader.gives_fail _ _ _ _)
    · rename_i hk
      obtain ⟨rfl, rfl⟩ := (Reader.gives_pure _ _ _ _).mp hend
      rw [← not_not.mp hk]
      exact ⟨hg, rfl⟩
  · rintro ⟨hg, rfl⟩
    refine ⟨message, raw.length, hg, ?_⟩
    rw [gives_index, if_neg (by simp)]
    exact (Reader.gives_pure _ _ _ _).mpr ⟨rfl, rfl⟩

/-- What comes from the session id on, when it reads to the end. -/
theorem gives_read_body (hn : raw.length < 2 ^ 32) {message : ClientHello}
    (hm : message.extensions = []) {i : Nat} (hi : i ≤ raw.length) (message' : ClientHello)
    (j : Nat) :
    (read_body raw message).Gives i message' j ↔
      j = raw.length ∧ ∃ session_id suites methods extensions_length es,
        session_id.length < 128 ∧ (∀ s ∈ suites, s < 65536) ∧ 2 * suites.length < 65536 ∧
        methods.length < 128 ∧ extensions_length < 65536 ∧ (extensions_length = 0 → es = []) ∧
        (∀ e ∈ es, e.Valid) ∧ (es.flatMap ParsedExtension.key).Nodup ∧
        message' = es.foldl (fun message e => e.apply message)
          { message with
            session_id := session_id, cipher_suites := suites, compression_methods := methods } ∧
        Spans raw i (vector 1 session_id ++ (vector 2 (suites.flatMap (bigEndian 2)) ++
          (vector 1 methods ++ (bigEndian 2 extensions_length ++
            es.flatMap ParsedExtension.bytes)))) raw.length := by
  unfold read_body
  constructor
  · intro hg
    obtain ⟨session_id, k, hs, hg⟩ := (Reader.gives_bind _ _ _ _ _).mp hg
    obtain ⟨_, ⟨hsession, rfl⟩, hspan1⟩ := (parses_short hn i hi _ _).mp hs
    obtain ⟨suites, k, hc, hg⟩ := (Reader.gives_bind _ _ _ _ _).mp hg
    obtain ⟨_, ⟨hsuites, hlt, rfl⟩, hspan2⟩ := (parses_cipher_suites hn _ hspan1.le _ _).mp hc
    obtain ⟨methods, k, hmethods, hg⟩ := (Reader.gives_bind _ _ _ _ _).mp hg
    obtain ⟨_, ⟨hmethod, rfl⟩, hspan3⟩ := (parses_short hn _ hspan2.le _ _).mp hmethods
    obtain ⟨hread, hj⟩ := (gives_to_end _ _ _ _).mp hg
    obtain ⟨extensions_length, k, hl, hg⟩ := (Reader.gives_bind _ _ _ _ _).mp hread
    obtain ⟨_, ⟨hlength, rfl⟩, hspan4⟩ := (parses_word hn _ hspan3.le _ _).mp hl
    obtain ⟨es, hnone, hv, hkeys, rfl, hspan5⟩ :=
      (gives_extensions hn (by simp [types, hm]) hspan4.le _ _).mp hg
    exact ⟨hj, session_id, suites, methods, extensions_length, es, hsession, hsuites, hlt, hmethod,
      hlength, hnone, hv, hkeys, rfl,
      hspan1.append (hspan2.append (hspan3.append (hspan4.append hspan5)))⟩
  · rintro ⟨rfl, session_id, suites, methods, extensions_length, es, hsession, hsuites, hlt,
      hmethod, hlength, hnone, hv, hkeys, rfl, hspan⟩
    obtain ⟨k1, hspan1, hspan⟩ := spans_append.mp hspan
    obtain ⟨k2, hspan2, hspan⟩ := spans_append.mp hspan
    obtain ⟨k3, hspan3, hspan⟩ := spans_append.mp hspan
    obtain ⟨k4, hspan4, hspan5⟩ := spans_append.mp hspan
    refine (Reader.gives_bind _ _ _ _ _).mpr
      ⟨session_id, k1, (parses_short hn i hi _ _).mpr ⟨_, ⟨hsession, rfl⟩, hspan1⟩, ?_⟩
    refine (Reader.gives_bind _ _ _ _ _).mpr ⟨suites, k2,
      (parses_cipher_suites hn _ hspan1.le _ _).mpr ⟨_, ⟨hsuites, hlt, rfl⟩, hspan2⟩, ?_⟩
    refine (Reader.gives_bind _ _ _ _ _).mpr
      ⟨methods, k3, (parses_short hn _ hspan2.le _ _).mpr ⟨_, ⟨hmethod, rfl⟩, hspan3⟩, ?_⟩
    refine (gives_to_end _ _ _ _).mpr ⟨(Reader.gives_bind _ _ _ _ _).mpr ⟨extensions_length, k4,
      (parses_word hn _ hspan3.le _ _).mpr ⟨_, ⟨hlength, rfl⟩, hspan4⟩, ?_⟩, rfl⟩
    exact (gives_extensions hn (by simp [types, hm]) hspan4.le _ _).mpr
      ⟨es, hnone, hv, hkeys, rfl, hspan5⟩

/-- The 43 bytes before the session id. -/
theorem gives_from_raw_data_impl (message : ClientHello) (j : Nat) :
    (from_raw_data_impl raw).Gives 0 message j ↔ Hello raw ∧
      (read_body raw ⟨(raw.drop 0).take 5, (raw.drop 5).take 4, (raw.drop 9).take 2,
        (raw.drop 11).take 32, [], [], [], [], [], []⟩).Gives 43 message j := by
  unfold from_raw_data_impl
  constructor
  · intro h
    split at h
    · exact absurd h (Reader.gives_fail _ _ _ _)
    · rw [gives_copy (by decide), gives_copy (by decide)] at h
      obtain ⟨-, -, h⟩ := h
      split at h
      · exact absurd h (Reader.gives_fail _ _ _ _)
      · rename_i htype
        split at h
        · exact absurd h (Reader.gives_fail _ _ _ _)
        · rename_i hstated
          rw [gives_copy (by decide), gives_copy (by decide)] at h
          obtain ⟨-, h43, h⟩ := h
          refine ⟨⟨h43, ?_, not_not.mp hstated⟩, h⟩
          rw [← getD_handshake_header]
          exact not_not.mp htype
  · rintro ⟨hello, h⟩
    have h43 := hello.length
    have htype : ((raw.drop 5).take 4).getD 0 0 = 0x01 := by
      rw [getD_handshake_header]
      exact hello.type
    rw [if_neg (by omega), gives_copy (by decide), gives_copy (by decide),
      if_neg (not_not.mpr htype), if_neg (not_not.mpr hello.stated), gives_copy (by decide),
      gives_copy (by decide)]
    exact ⟨by omega, by omega, by omega, h43, h⟩

theorem handshake_length_eq (a b c d : UInt8) :
    handshake_length [a, b, c, d] = ofBigEndian [b, c, d] := by
  have hb := b.toNat_lt
  have hc := c.toNat_lt
  have hd := d.toNat_lt
  have hfirst : b.toNat <<< 8 ||| c.toNat = b.toNat * 256 + c.toNat := by
    rw [Nat.shiftLeft_eq, Nat.mul_comm, ← Nat.two_pow_add_eq_or_of_lt hc, Nat.mul_comm]
  have hsecond : (b.toNat * 256 + c.toNat) <<< 8 ||| d.toNat =
      (b.toNat * 256 + c.toNat) * 256 + d.toNat := by
    rw [Nat.shiftLeft_eq, Nat.mul_comm, ← Nat.two_pow_add_eq_or_of_lt hd, Nat.mul_comm]
  have hlength : handshake_length [a, b, c, d] =
      (b.toNat <<< 8 ||| c.toNat) <<< 8 ||| d.toNat := rfl
  rw [hlength, hfirst, hsecond]
  simp [ofBigEndian]

/-- The handshake header states its type, and a length. -/
theorem header_iff {header : List UInt8} {n : Nat} (hn : n < 256 ^ 3) (h4 : header.length = 4) :
    header.getD 0 0 = 0x01 ∧ handshake_length header = n ↔ header = 1 :: bigEndian 3 n := by
  obtain ⟨a, b, c, d, rfl⟩ : ∃ a b c d, header = [a, b, c, d] :=
    ⟨_, _, _, _, List.eq_getElem_of_length_eq_four header h4⟩
  rw [handshake_length_eq, List.cons.injEq]
  refine and_congr_right fun _ => ?_
  constructor
  · intro h
    rw [← h]
    exact (bigEndian_ofBigEndian [b, c, d]).symm
  · intro h
    rw [h, ofBigEndian_bigEndian hn]

/-- A message of the layout lies in the buffer part by part. -/
structure ParsedHello.LaidOut (h : ParsedHello) (raw : List UInt8) : Prop where
  hello : Hello raw
  record_header : Spans raw 0 h.record_header 5
  handshake_header : Spans raw 5 (1 :: bigEndian 3 h.body.length) 9
  version : Spans raw 9 h.version 11
  random : Spans raw 11 h.random 43
  rest : Spans raw 43 (vector 1 h.session_id ++ (vector 2 (h.cipher_suites.flatMap (bigEndian 2)) ++
    (vector 1 h.compression_methods ++ h.block))) raw.length

theorem ParsedHello.bytes_eq (h : ParsedHello) :
    h.bytes = h.record_header ++ ((1 :: bigEndian 3 h.body.length) ++ h.body) := rfl

theorem ParsedHello.LaidOut.bytes {h : ParsedHello} (hl : h.LaidOut raw) : h.bytes = raw :=
  spans_whole.mp (hl.record_header.append
    (hl.handshake_header.append (hl.version.append (hl.random.append hl.rest))))

theorem ParsedHello.Valid.laid_out {h : ParsedHello} (hv : h.Valid) (hraw : h.bytes = raw) :
    h.LaidOut raw := by
  have hwhole := spans_whole.mpr hraw
  rw [h.bytes_eq] at hwhole
  obtain ⟨k1, hrecord, hwhole⟩ := spans_append.mp hwhole
  obtain ⟨k2, hheader, hbody⟩ := spans_append.mp hwhole
  obtain ⟨k3, hversion, hwhole⟩ := spans_append.mp hbody
  obtain ⟨k4, hrandom, hrest⟩ := spans_append.mp hwhole
  obtain rfl : k1 = 5 := by rw [hrecord.stop, hv.record_header]
  obtain rfl : k2 = 9 := by rw [hheader.stop, List.length_cons, length_bigEndian]
  obtain rfl : k3 = 11 := by rw [hversion.stop, hv.version]
  obtain rfl : k4 = 43 := by rw [hrandom.stop, hv.random]
  have htake := (spans_iff.mp hheader).1
  rw [List.length_cons, length_bigEndian] at htake
  obtain ⟨htype, hstated⟩ := (header_iff hv.body rfl).mpr rfl
  have hstop := hbody.stop
  refine ⟨⟨hrandom.le, ?_, ?_⟩, hrecord, hheader, hversion, hrandom, hrest⟩
  · rw [← getD_handshake_header, htake]
    exact htype
  · rw [htake, hstated]
    omega

theorem value_ok_iff (raw : List UInt8) (message : ClientHello) :
    (from_raw_data raw).value = .ok message ↔
      ∃ j, (from_raw_data_impl raw).Gives 0 message j := by
  unfold from_raw_data Reader.Gives
  simp only
  constructor
  · intro h
    split at h
    · cases h
    · exact ⟨_, h, rfl⟩
  · rintro ⟨_, h, -⟩
    rw [h]

/-- The parser returns exactly what it makes of a message of its layout. -/
theorem from_raw_data_ok_iff (raw : List UInt8) (message : ClientHello) :
    (from_raw_data raw).value = .ok message ↔
      ∃ h : ParsedHello, h.Valid ∧ h.bytes = raw ∧ h.message = message := by
  simp only [value_ok_iff, gives_from_raw_data_impl]
  constructor
  · rintro ⟨j, hello, hg⟩
    have h43 := hello.length
    obtain ⟨rfl, session_id, suites, methods, extensions_length, es, hsession, hsuites, hlt,
      hmethod, hlength, hnone, hv, hkeys, rfl, hspan⟩ :=
        (gives_read_body hello.short rfl h43 message j).mp hg
    have hrecord : Spans raw 0 ((raw.drop 0).take 5) 5 := spans_take (by omega)
    have hheader : Spans raw 5 ((raw.drop 5).take 4) 9 := spans_take (by omega)
    have hversion : Spans raw 9 ((raw.drop 9).take 2) 11 := spans_take (by omega)
    have hrandom : Spans raw 11 ((raw.drop 11).take 32) 43 := spans_take (by omega)
    have hstop := (hversion.append (hrandom.append hspan)).stop
    generalize (raw.drop 0).take 5 = record_header at *
    generalize (raw.drop 9).take 2 = version at *
    generalize (raw.drop 11).take 32 = random at *
    let h : ParsedHello :=
      ⟨record_header, version, random, session_id, suites, methods, extensions_length, es⟩
    have hbody : raw.length = 9 + h.body.length := hstop
    have hstated := hello.stated
    have hbound := handshake_length_lt ((raw.drop 5).take 4)
    have h4 := hheader.stop
    have htype := hello.type
    rw [← getD_handshake_header] at htype
    have hshape : (raw.drop 5).take 4 = 1 :: bigEndian 3 h.body.length :=
      (header_iff (by omega) (by omega)).mp ⟨htype, by omega⟩
    rw [hshape] at hheader ⊢
    have hlaid : h.LaidOut raw := ⟨hello, hrecord, hheader, hversion, hrandom, hspan⟩
    have h5 : 5 = 0 + h.record_header.length := hrecord.stop
    have h11 : 11 = 9 + h.version.length := hversion.stop
    have h43' : 43 = 11 + h.random.length := hrandom.stop
    exact ⟨h, ⟨by omega, by omega, by omega, hsession, hsuites, hlt, hmethod, hlength, hnone, hv,
      hkeys, by omega⟩, hlaid.bytes, rfl⟩
  · rintro ⟨h, hv, hraw, rfl⟩
    obtain ⟨hello, hrecord, hheader, hversion, hrandom, hrest⟩ := hv.laid_out hraw
    have hr := (spans_iff.mp hrecord).1
    have hh := (spans_iff.mp hheader).1
    have hver := (spans_iff.mp hversion).1
    have hran := (spans_iff.mp hrandom).1
    rw [hv.record_header] at hr
    rw [List.length_cons, length_bigEndian] at hh
    rw [hv.version] at hver
    rw [hv.random] at hran
    refine ⟨raw.length, hello, (gives_read_body hello.short rfl hello.length _ _).mpr ⟨rfl,
      h.session_id, h.cipher_suites, h.compression_methods, h.extensions_length, h.extensions,
      hv.session_id, hv.suites, hv.cipher_suites, hv.compression_methods, hv.extensions_length,
      hv.none, hv.extensions, hv.keys, ?_, hrest⟩⟩
    rw [hr, hh, hver, hran]
    rfl

end proxy.tls.handshake
