-- The accesses of the Client Hello parser: they all keep to the buffer exactly
-- when the bytes that it reads without a check do.
import Aether.Tls.ClientHelloReads

open lib.cursor
open lib.cursor.Reader (fail loop)

namespace proxy.tls.handshake

variable {raw : List UInt8} {α : Type}

/-! ## Cipher suites -/

/-- The cipher suites with their length, from `i` to `j`. -/
def Ciphers (raw : List UInt8) (i j : Nat) : Prop :=
  i + 2 ≤ raw.length ∧ wordAt raw i % 2 = 0 ∧ j = i + 2 + wordAt raw i ∧ j ≤ raw.length

theorem sound_read_cipher_suite (hn : raw.length < 2 ^ 32) (suites : List Nat) :
    Reader.Sound raw.length (read_cipher_suite raw suites) :=
  (sound_read_byte_string hn 2).bind fun _ => Reader.sound_pure _

theorem gives_read_cipher_suite (hn : raw.length < 2 ^ 32) (suites : List Nat) (i j : Nat)
    (hi : i ≤ raw.length) :
    (∃ s, (read_cipher_suite raw suites).Gives i s j) ↔ i + 2 ≤ raw.length ∧ j = i + 2 := by
  simp only [read_cipher_suite, gives_word hn hi, Reader.pure_eq, Reader.gives_pure]
  constructor
  · rintro ⟨s, hle, -, rfl⟩
    exact ⟨hle, rfl⟩
  · rintro ⟨hle, rfl⟩
    exact ⟨_, hle, rfl, rfl⟩

theorem faults_read_cipher_suite (hn : raw.length < 2 ^ 32) (suites : List Nat) (i : Nat)
    (hi : i ≤ raw.length) : (read_cipher_suite raw suites).Faults i ↔ False := by
  rw [read_cipher_suite, faults_word hn hi]
  simp

theorem advances_read_cipher_suite (hn : raw.length < 2 ^ 32) :
    Reader.Advances raw.length (read_cipher_suite raw) := by
  intro s i a j hi hg
  obtain ⟨-, rfl⟩ := (gives_read_cipher_suite hn s i j hi).mp ⟨a, hg⟩
  omega

/-- Steps of two bytes reach a bound exactly when it is an even number of bytes away. -/
theorem path_two {bound n i j : Nat} :
    Reader.Path bound (fun i j => i + 2 ≤ n ∧ j = i + 2) i j ∧ j = bound ↔
      ∃ k, bound = i + 2 * k ∧ j = bound ∧ (0 < k → bound ≤ n) := by
  constructor
  · rintro ⟨hp, hj⟩
    induction hp with
    | here i => exact ⟨0, hj.symm, hj, fun h => absurd h (Nat.lt_irrefl 0)⟩
    | step hb hr _ ih =>
      obtain ⟨hle, rfl⟩ := hr
      obtain ⟨k, hk, -, hn⟩ := ih hj
      refine ⟨k + 1, by omega, hj, fun _ => ?_⟩
      rcases Nat.eq_zero_or_pos k with rfl | hpos
      · omega
      · exact hn hpos
  · rintro ⟨k, hk, hj, hn⟩
    refine ⟨?_, hj⟩
    induction k generalizing i with
    | zero =>
      obtain rfl : j = i := by omega
      exact .here j
    | succ k ih =>
      have hle := hn (Nat.succ_pos k)
      exact .step (by omega) ⟨by omega, rfl⟩ (ih (by omega) fun _ => hle)

theorem sound_read_cipher_suites (hn : raw.length < 2 ^ 32) :
    Reader.Sound raw.length (read_cipher_suites raw) :=
  (sound_read_byte_string hn 2).bind fun length =>
    sound_read_within (sound_read_cipher_suite hn) (advances_read_cipher_suite hn) length _ _

theorem ciphers_iff (hn : raw.length < 2 ^ 32) {i : Nat} (hi : i ≤ raw.length) :
    ¬ (read_cipher_suites raw).Faults i ∧
      ∀ j, ((∃ s, (read_cipher_suites raw).Gives i s j) ↔ Ciphers raw i j) := by
  have hwithin := fun h : i + 2 ≤ raw.length =>
    within_iff "Invalid cipher suites length" hn (sound_read_cipher_suite hn)
      (advances_read_cipher_suite hn) (gives_read_cipher_suite hn) (faults_read_cipher_suite hn)
      (wordAt_lt raw i) [] h
  refine ⟨fun hf => ?_, fun j => ?_⟩
  · rw [read_cipher_suites, faults_word hn hi] at hf
    obtain ⟨hle, hf⟩ := hf
    obtain ⟨-, -, -, hfalse⟩ := (hwithin hle).1.mp hf
    exact hfalse
  · simp only [read_cipher_suites, gives_word hn hi, exists_and_left]
    unfold Ciphers
    refine and_congr_right fun hle => ?_
    rw [(hwithin hle).2 j, path_two]
    constructor
    · rintro ⟨k, hk, rfl, hb⟩
      refine ⟨by omega, rfl, ?_⟩
      rcases Nat.eq_zero_or_pos k with rfl | hpos
      · omega
      · exact hb hpos
    · rintro ⟨heven, rfl, hb⟩
      exact ⟨wordAt raw i / 2, by omega, rfl, fun _ => hb⟩

/-! ## Server names and protocols -/

/-- An entry of the server names, from `i` to `j`: two bytes, a type, and a name with its length. -/
def Name (raw : List UInt8) (i j : Nat) : Prop :=
  i + 5 ≤ raw.length ∧ j = i + 5 + wordAt raw (i + 3) ∧ j ≤ raw.length

theorem sound_read_server_name (hn : raw.length < 2 ^ 32) (names : List ServerName) :
    Reader.Sound raw.length (read_server_name raw names) := by
  apply (sound_read_byte_string hn 2).bind
  intro _
  apply (sound_read_next hn).bind
  intro type
  apply (sound_read_byte_string hn 2).bind
  intro name_length
  apply (sound_copy_bytes name_length).bind
  intro host_name
  exact Reader.sound_pure _

theorem name_copied (hn : raw.length < 2 ^ 32) {i : Nat} (hi : i < raw.length) :
    i + 1 + 2 + wordAt raw (i + 1) < 2 ^ 64 := by
  have := wordAt_lt raw (i + 1)
  omega

theorem faults_read_server_name (hn : raw.length < 2 ^ 32) (names : List ServerName) (i : Nat)
    (hi : i ≤ raw.length) :
    (read_server_name raw names).Faults i ↔ i + 2 ≤ raw.length ∧ ¬ i + 2 < raw.length := by
  rw [read_server_name, faults_word hn hi]
  refine and_congr_right fun hle => ?_
  rw [Reader.bind_eq, Reader.faults_bind, faults_read_next]
  constructor
  · rintro (h | ⟨type, j, hg, hf⟩)
    · exact h
    · obtain ⟨-, rfl⟩ := (gives_read_next hn _ _ _).mp hg
      by_contra hlt
      rw [faults_word hn (by omega), faults_copy (name_copied hn hlt)] at hf
      exact absurd hf.2.2 (Reader.faults_pure _ _)
  · intro h
    exact .inl h

theorem gives_read_server_name (hn : raw.length < 2 ^ 32) (names : List ServerName) (i j : Nat)
    (hi : i ≤ raw.length) :
    (∃ s, (read_server_name raw names).Gives i s j) ↔ Name raw i j := by
  unfold Name
  constructor
  · rintro ⟨s, h⟩
    rw [read_server_name, gives_word hn hi] at h
    obtain ⟨hle, h⟩ := h
    obtain ⟨type, k, hg, h⟩ := (Reader.gives_bind _ _ _ _ _).mp h
    have hlt : i + 2 < raw.length := by
      by_contra hno
      have hno' : raw[i + 2]? = none := List.getElem?_eq_none (by omega)
      rw [gives_read_next hn, hno'] at hg
      cases hg.1
    obtain ⟨-, rfl⟩ := (gives_read_next hn _ _ _).mp hg
    rw [gives_word hn (by omega), gives_copy (name_copied hn hlt)] at h
    obtain ⟨h5, hend, h⟩ := h
    obtain ⟨-, rfl⟩ := (Reader.gives_pure _ _ _ _).mp h
    exact ⟨h5, rfl, hend⟩
  · rintro ⟨h5, rfl, hend⟩
    have hlt : i + 2 < raw.length := by omega
    have hget : (read_next raw).Gives (i + 2) raw[i + 2] (i + 3) :=
      (gives_read_next hn _ _ _).mpr ⟨List.getElem?_eq_getElem hlt, rfl⟩
    refine ⟨names ++ [⟨raw[i + 2], (raw.drop (i + 5)).take (wordAt raw (i + 3))⟩], ?_⟩
    rw [read_server_name, gives_word hn hi]
    refine ⟨by omega, (Reader.gives_bind _ _ _ _ _).mpr ⟨raw[i + 2], i + 3, hget, ?_⟩⟩
    rw [gives_word hn (by omega), gives_copy (name_copied hn hlt)]
    exact ⟨h5, hend, (Reader.gives_pure _ _ _ _).mpr ⟨rfl, rfl⟩⟩

theorem advances_read_server_name (hn : raw.length < 2 ^ 32) :
    Reader.Advances raw.length (read_server_name raw) := by
  intro s i a j hi hg
  obtain ⟨-, rfl, -⟩ := (gives_read_server_name hn s i j hi).mp ⟨a, hg⟩
  omega

theorem sound_read_alpn (hn : raw.length < 2 ^ 32) (alpn : List (List UInt8)) :
    Reader.Sound raw.length (read_alpn raw alpn) :=
  (sound_read_short hn).bind fun _ => Reader.sound_pure _

theorem faults_read_alpn (hn : raw.length < 2 ^ 32) (alpn : List (List UInt8)) (i : Nat)
    (_ : i ≤ raw.length) : (read_alpn raw alpn).Faults i ↔ ¬ SafeLength raw i := by
  rw [read_alpn, Reader.bind_eq, Reader.faults_bind, faults_read_short hn]
  constructor
  · rintro (h | ⟨a, j, -, hf⟩)
    · exact h
    · exact absurd hf (Reader.faults_pure _ j)
  · intro h
    exact .inl h

theorem gives_read_alpn (hn : raw.length < 2 ^ 32) (alpn : List (List UInt8)) (i j : Nat)
    (_ : i ≤ raw.length) : (∃ s, (read_alpn raw alpn).Gives i s j) ↔ Short raw i j := by
  rw [← gives_read_short hn]
  constructor
  · rintro ⟨s, h⟩
    obtain ⟨a, k, hg, h⟩ := (Reader.gives_bind _ _ _ _ _).mp h
    obtain ⟨-, rfl⟩ := (Reader.gives_pure _ _ _ _).mp h
    exact ⟨a, hg⟩
  · rintro ⟨a, hg⟩
    exact ⟨alpn ++ [a], (Reader.gives_bind _ _ _ _ _).mpr
      ⟨a, j, hg, (Reader.gives_pure _ _ _ _).mpr ⟨rfl, rfl⟩⟩⟩

theorem advances_read_alpn (hn : raw.length < 2 ^ 32) :
    Reader.Advances raw.length (read_alpn raw) := by
  intro s i a j hi hg
  obtain ⟨c, -, -, rfl, -⟩ := (gives_read_alpn hn s i j hi).mp ⟨a, hg⟩
  omega

/-! ## Extensions -/

/-- An extension from `i` to `j`, when those of the types `seen` came before it: a list of server
names, a list of protocols, or data of another type that has not come yet. -/
inductive Extension (raw : List UInt8) : List Nat → Nat → List Nat → Nat → Prop where
  | server_name {seen : List Nat} {i j : Nat} : i + 4 ≤ raw.length →
      wordAt raw i = server_name_type → j = i + 4 + wordAt raw (i + 2) →
      Reader.Path j (Name raw) (i + 4) j → Extension raw seen i seen j
  | alpn {seen : List Nat} {i j : Nat} : i + 6 ≤ raw.length → wordAt raw i = alpn_type →
      j = i + 6 + wordAt raw (i + 4) → Reader.Path j (Short raw) (i + 6) j →
      Extension raw seen i seen j
  | other {seen : List Nat} {i j : Nat} : i + 4 ≤ raw.length → wordAt raw i ≠ server_name_type →
      wordAt raw i ≠ alpn_type → wordAt raw i ∉ seen → j = i + 4 + wordAt raw (i + 2) →
      j ≤ raw.length → Extension raw seen i (seen ++ [wordAt raw i]) j

theorem Extension.lt {seen seen' : List Nat} {i j : Nat} (h : Extension raw seen i seen' j) :
    i < j := by
  cases h with
  | server_name => omega
  | alpn => omega
  | other => omega

/-- The types of the extensions so far. -/
def types (message : ClientHello) : List Nat := message.extensions.map (·.1)

/-- An extension from `i` on has a byte of its own that is out of place. -/
def BadExtension (raw : List UInt8) (i : Nat) : Prop :=
  (i + 4 ≤ raw.length ∧ wordAt raw i = server_name_type ∧
    ∃ p, Reader.Path (i + 4 + wordAt raw (i + 2)) (Name raw) (i + 4) p ∧
      p < i + 4 + wordAt raw (i + 2) ∧ p + 2 ≤ raw.length ∧ ¬ p + 2 < raw.length) ∨
  (i + 6 ≤ raw.length ∧ wordAt raw i = alpn_type ∧
    ∃ p, Reader.Path (i + 6 + wordAt raw (i + 4)) (Short raw) (i + 6) p ∧
      p < i + 6 + wordAt raw (i + 4) ∧ ¬ SafeLength raw p)

theorem sound_read_extension (hn : raw.length < 2 ^ 32) (message : ClientHello) :
    Reader.Sound raw.length (read_extension raw message) := by
  apply (sound_read_byte_string hn 2).bind
  intro type
  apply (sound_read_byte_string hn 2).bind
  intro length
  split
  · apply (sound_read_within (sound_read_server_name hn) (advances_read_server_name hn) _ _ _).bind
    intro names
    exact Reader.sound_pure _
  · split
    · apply (sound_read_byte_string hn 2).bind
      intro alpn_length
      apply (sound_read_within (sound_read_alpn hn) (advances_read_alpn hn) _ _ _).bind
      intro alpn
      exact Reader.sound_pure _
    · split
      · exact Reader.sound_fail _
      · apply (sound_copy_bytes length).bind
        intro data
        exact Reader.sound_pure _

theorem names_within (hn : raw.length < 2 ^ 32) (i : Nat) (names : List ServerName) {k : Nat}
    (hk : k ≤ raw.length) :
    let run := read_within raw (wordAt raw i) "Error in parsing server name extension"
      (read_server_name raw) names
    (run.Faults k ↔ ∃ p, Reader.Path (k + wordAt raw i) (Name raw) k p ∧ p < k + wordAt raw i ∧
        p + 2 ≤ raw.length ∧ ¬ p + 2 < raw.length) ∧
      ∀ j, ((∃ s, run.Gives k s j) ↔
        Reader.Path (k + wordAt raw i) (Name raw) k j ∧ j = k + wordAt raw i) :=
  within_iff _ hn (sound_read_server_name hn) (advances_read_server_name hn)
    (gives_read_server_name hn) (faults_read_server_name hn) (wordAt_lt raw i) names hk

theorem alpn_within (hn : raw.length < 2 ^ 32) (i : Nat) (alpn : List (List UInt8)) {k : Nat}
    (hk : k ≤ raw.length) :
    let run := read_within raw (wordAt raw i) "Error in parsing ALPN extension"
      (read_alpn raw) alpn
    (run.Faults k ↔ ∃ p, Reader.Path (k + wordAt raw i) (Short raw) k p ∧ p < k + wordAt raw i ∧
        ¬ SafeLength raw p) ∧
      ∀ j, ((∃ s, run.Gives k s j) ↔
        Reader.Path (k + wordAt raw i) (Short raw) k j ∧ j = k + wordAt raw i) :=
  within_iff _ hn (sound_read_alpn hn) (advances_read_alpn hn) (gives_read_alpn hn)
    (faults_read_alpn hn) (wordAt_lt raw i) alpn hk

theorem faults_map {β : Type} (m : Reader Error α) (f : α → β) (i : Nat) :
    (m >>= fun a => pure (f a)).Faults i ↔ m.Faults i := by
  rw [Reader.bind_eq, Reader.faults_bind]
  simp

theorem gives_map {β : Type} (m : Reader Error α) (f : α → β) (i : Nat) (b : β) (j : Nat) :
    (m >>= fun a => pure (f a)).Gives i b j ↔ ∃ a, m.Gives i a j ∧ b = f a := by
  rw [Reader.bind_eq, Reader.gives_bind]
  constructor
  · rintro ⟨a, k, hg, h⟩
    obtain ⟨rfl, rfl⟩ := (Reader.gives_pure _ _ _ _).mp h
    exact ⟨a, hg, rfl⟩
  · rintro ⟨a, hg, rfl⟩
    exact ⟨a, j, hg, (Reader.gives_pure _ _ _ _).mpr ⟨rfl, rfl⟩⟩

theorem faults_read_extension (hn : raw.length < 2 ^ 32) (message : ClientHello) {i : Nat}
    (hi : i ≤ raw.length) : (read_extension raw message).Faults i ↔ BadExtension raw i := by
  have hne : server_name_type ≠ alpn_type := by decide
  rw [read_extension, faults_word hn hi]
  unfold BadExtension
  by_cases h2 : i + 2 ≤ raw.length
  · rw [faults_word hn h2]
    by_cases hs : wordAt raw i = server_name_type
    · simp only [hs, if_true, hne, false_and, and_false, or_false, true_and, h2]
      refine and_congr_right fun h4 => ?_
      rw [faults_map, (names_within hn (i + 2) message.server_names h4).1]
    by_cases ha : wordAt raw i = alpn_type
    · simp only [ha, if_true, hne.symm, if_false, false_and, and_false, false_or, true_and, h2]
      constructor
      · rintro ⟨h4, hf⟩
        rw [faults_word hn h4] at hf
        obtain ⟨h6, hf⟩ := hf
        rw [faults_map] at hf
        exact ⟨h6, (alpn_within hn (i + 4) message.alpn h6).1.mp hf⟩
      · rintro ⟨h6, hbad⟩
        refine ⟨by omega, ?_⟩
        rw [faults_word hn (by omega)]
        refine ⟨h6, ?_⟩
        rw [faults_map]
        exact (alpn_within hn (i + 4) message.alpn h6).1.mpr hbad
    · simp only [hs, ha, if_false, false_and, and_false, or_false, iff_false]
      rintro ⟨-, h4, hf⟩
      split at hf
      · exact absurd hf (Reader.faults_fail _ _)
      · have hlength := wordAt_lt raw (i + 2)
        rw [faults_map] at hf
        exact (copy_bytes_small (by omega)).1 hf
  · constructor
    · rintro ⟨h, -⟩
      exact absurd h h2
    · rintro (⟨h, -⟩ | ⟨h, -⟩) <;> omega

theorem gives_read_extension (hn : raw.length < 2 ^ 32) (message : ClientHello) {i : Nat}
    (hi : i ≤ raw.length) (seen : List Nat) (j : Nat) :
    (∃ message', (read_extension raw message).Gives i message' j ∧ types message' = seen) ↔
      Extension raw (types message) i seen j := by
  have hne : server_name_type ≠ alpn_type := by decide
  have hlength := wordAt_lt raw (i + 2)
  constructor
  · rintro ⟨message', hg, rfl⟩
    rw [read_extension, gives_word hn hi] at hg
    obtain ⟨h2, hg⟩ := hg
    rw [gives_word hn h2] at hg
    obtain ⟨h4, hg⟩ := hg
    split at hg
    · rename_i hs
      obtain ⟨names, hnames, rfl⟩ := (gives_map _ _ _ _ _).mp hg
      obtain ⟨hp, rfl⟩ :=
        ((names_within hn (i + 2) message.server_names h4).2 j).mp ⟨names, hnames⟩
      exact .server_name h4 hs rfl hp
    · rename_i hs
      split at hg
      · rename_i ha
        rw [gives_word hn h4] at hg
        obtain ⟨h6, hg⟩ := hg
        obtain ⟨alpn, halpn, rfl⟩ := (gives_map _ _ _ _ _).mp hg
        obtain ⟨hp, rfl⟩ := ((alpn_within hn (i + 4) message.alpn h6).2 j).mp ⟨alpn, halpn⟩
        exact .alpn h6 ha rfl hp
      · rename_i ha
        split at hg
        · exact absurd hg (Reader.gives_fail _ _ _ _)
        · rename_i hseen
          obtain ⟨data, hdata, rfl⟩ := (gives_map _ _ _ _ _).mp hg
          obtain ⟨hle, -, rfl⟩ := ((copy_bytes_small (by omega)).2 data j).mp hdata
          have htypes : types { message with
              extensions := message.extensions ++ [(wordAt raw i, data)] } =
                types message ++ [wordAt raw i] := by simp [types]
          rw [htypes]
          exact .other h4 hs ha hseen rfl hle
  · intro h
    cases h with
    | server_name h4 hs hj hp =>
      subst hj
      obtain ⟨names, hg⟩ := ((names_within hn (i + 2) message.server_names h4).2 _).mpr ⟨hp, rfl⟩
      refine ⟨{ message with server_names := names }, ?_, rfl⟩
      rw [read_extension, gives_word hn hi, gives_word hn (by omega), if_pos hs]
      exact ⟨by omega, h4, (gives_map _ _ _ _ _).mpr ⟨names, hg, rfl⟩⟩
    | alpn h6 ha hj hp =>
      subst hj
      obtain ⟨alpn, hg⟩ := ((alpn_within hn (i + 4) message.alpn h6).2 _).mpr ⟨hp, rfl⟩
      refine ⟨{ message with alpn := alpn }, ?_, rfl⟩
      rw [read_extension, gives_word hn hi, gives_word hn (by omega),
        if_neg (by rw [ha]; exact hne.symm),
        if_pos ha, gives_word hn (by omega)]
      exact ⟨by omega, by omega, h6, (gives_map _ _ _ _ _).mpr ⟨alpn, hg, rfl⟩⟩
    | other h4 hs ha hseen hj hle =>
      subst hj
      refine ⟨{ message with extensions := message.extensions ++
        [(wordAt raw i, (raw.drop (i + 4)).take (wordAt raw (i + 2)))] }, ?_, by simp [types]⟩
      rw [read_extension, gives_word hn hi, gives_word hn (by omega), if_neg hs, if_neg ha,
        if_neg (show ¬ wordAt raw i ∈ message.extensions.map (·.1) from hseen)]
      refine ⟨by omega, h4, (gives_map _ _ _ _ _).mpr
        ⟨_, ((copy_bytes_small (by omega)).2 _ _).mpr ⟨hle, rfl, rfl⟩, rfl⟩⟩

theorem advances_read_extension (hn : raw.length < 2 ^ 32) :
    Reader.Advances raw.length (read_extension raw) := by
  intro message i a j hi hg
  exact ((gives_read_extension hn message hi (types a) j).mp ⟨a, hg, rfl⟩).lt

/-! ## The layout of a Client Hello -/

/-- The headers of a Client Hello, with the version and the random bytes: 43 bytes. -/
structure Hello (raw : List UInt8) : Prop where
  length : 43 ≤ raw.length
  type : raw.getD 5 0 = 0x01
  stated : handshake_length ((raw.drop 5).take 4) = raw.length - 9

/-- The extensions start at an index: after a session id, cipher suites and compression methods, and
their own length, which is not zero. -/
def ExtensionsAt (raw : List UInt8) (i : Nat) : Prop :=
  Hello raw ∧ ∃ s c m, Short raw 43 s ∧ Ciphers raw s c ∧ Short raw c m ∧
    m + 2 ≤ raw.length ∧ wordAt raw m ≠ 0 ∧ i = m + 2

/-- An extension may start at an index, after those of the types `seen`. -/
inductive Extensions (raw : List UInt8) : List Nat → Nat → Prop where
  | first {i : Nat} : ExtensionsAt raw i → Extensions raw [] i
  | next {seen seen' : List Nat} {i j : Nat} : Extensions raw seen i → i < raw.length →
      Extension raw seen i seen' j → Extensions raw seen' j

/-- What a byte is that is read with no check: a length, or the type of a server name. -/
inductive OneByte where
  | length
  | type
  deriving DecidableEq, Repr

/-- The bytes that the layout has by themselves. -/
inductive Unchecked (raw : List UInt8) : OneByte → Nat → Prop where
  | session_id : Hello raw → Unchecked raw .length 43
  | compression {s p : Nat} : Hello raw → Short raw 43 s → Ciphers raw s p →
      Unchecked raw .length p
  | server_name {seen : List Nat} {i p : Nat} : Extensions raw seen i → i + 4 ≤ raw.length →
      wordAt raw i = server_name_type →
      Reader.Path (i + 4 + wordAt raw (i + 2)) (Name raw) (i + 4) p →
      p < i + 4 + wordAt raw (i + 2) → p + 2 ≤ raw.length → Unchecked raw .type (p + 2)
  | alpn {seen : List Nat} {i p : Nat} : Extensions raw seen i → i + 6 ≤ raw.length →
      wordAt raw i = alpn_type →
      Reader.Path (i + 6 + wordAt raw (i + 4)) (Short raw) (i + 6) p →
      p < i + 6 + wordAt raw (i + 4) → Unchecked raw .length p

/-- The byte at `p` is in the buffer, and as a length it is no negative `char` that the copy takes.
-/
def OneByte.Fits (raw : List UInt8) : OneByte → Nat → Prop
  | length, p => SafeLength raw p
  | type, p => p < raw.length

theorem sound_read_extensions (hn : raw.length < 2 ^ 32) (message : ClientHello) :
    Reader.Sound raw.length (read_extensions raw message) := by
  apply (sound_read_byte_string hn 2).bind
  intro extensions_length
  split
  · exact Reader.sound_loop (sound_read_extension hn) (advances_read_extension hn) message
  · exact Reader.sound_pure _

/-- The rounds over the extensions reach those that the layout has. -/
theorem rounds_extensions (hn : raw.length < 2 ^ 32) {message : ClientHello}
    (hm : types message = []) {k : Nat} (hk : k ≤ raw.length) (hat : ExtensionsAt raw k)
    (honly : ∀ i, ExtensionsAt raw i → i = k) (seen : List Nat) (i : Nat) :
    (∃ message', Reader.Rounds raw.length (read_extension raw) message k message' i ∧
      types message' = seen) ↔ Extensions raw seen i := by
  constructor
  · rintro ⟨message', hr, rfl⟩
    -- From any extension on, the rounds go through extensions.
    have hall : ∀ message k, k ≤ raw.length → Extensions raw (types message) k →
        ∀ message' i, Reader.Rounds raw.length (read_extension raw) message k message' i →
          Extensions raw (types message') i := by
      intro message k hk he message' i hr
      induction hr with
      | here => exact he
      | @round s s' s'' i j k hb hg _ ih =>
        have hle := ((sound_read_extension hn s) i hk).forwards s' j hg
        have hext := (gives_read_extension hn s hk (types s') j).mp ⟨s', hg, rfl⟩
        exact ih hle.2 (.next he hb hext)
    refine hall message k hk ?_ message' i hr
    rw [hm]
    exact .first hat
  · intro h
    induction h with
    | first hat' =>
      obtain rfl := honly _ hat'
      exact ⟨message, .here message _, hm⟩
    | next _ hb hext ih =>
      obtain ⟨message', hr, rfl⟩ := ih
      have hle := hr.le (sound_read_extension hn) hk
      obtain ⟨message'', hg, hseen⟩ := (gives_read_extension hn message' hle _ _).mpr hext
      exact ⟨message'', hr.snoc hb hg, hseen⟩

theorem Short.unique {i j k : Nat} (h : Short raw i j) (h' : Short raw i k) : j = k := by
  obtain ⟨c, hc, -, rfl, -⟩ := h
  obtain ⟨c', hc', -, rfl, -⟩ := h'
  rw [hc] at hc'
  cases hc'
  rfl

theorem Ciphers.unique {i j k : Nat} (h : Ciphers raw i j) (h' : Ciphers raw i k) : j = k := by
  obtain ⟨-, -, rfl, -⟩ := h
  obtain ⟨-, -, rfl, -⟩ := h'
  rfl

theorem ExtensionsAt.unique {i j : Nat} (h : ExtensionsAt raw i) (h' : ExtensionsAt raw j) :
    i = j := by
  obtain ⟨-, s, c, m, hs, hc, hm, -, -, rfl⟩ := h
  obtain ⟨-, s', c', m', hs', hc', hm', -, -, rfl⟩ := h'
  obtain rfl := hs.unique hs'
  obtain rfl := hc.unique hc'
  obtain rfl := hm.unique hm'
  rfl

/-- The extensions fault where the layout has an unchecked byte that does not fit. -/
theorem faults_read_extensions (hn : raw.length < 2 ^ 32) {message : ClientHello}
    (hm : types message = []) (hello : Hello raw) {s c m : Nat} (hs : Short raw 43 s)
    (hc : Ciphers raw s c) (hshort : Short raw c m) :
    (read_extensions raw message).Faults m ↔
      ∃ seen i, Extensions raw seen i ∧ BadExtension raw i := by
  have hle : m ≤ raw.length := by obtain ⟨-, -, -, -, h⟩ := hshort; exact h
  rw [read_extensions, faults_word hn hle]
  have hat : m + 2 ≤ raw.length → wordAt raw m ≠ 0 → ExtensionsAt raw (m + 2) := by
    intro h2 hne
    exact ⟨hello, s, c, m, hs, hc, hshort, h2, hne, rfl⟩
  -- With no extensions there is nothing that could fault.
  have hnone : ∀ {seen i}, Extensions raw seen i → m + 2 ≤ raw.length ∧ wordAt raw m ≠ 0 := by
    intro seen i h
    induction h with
    | first h =>
      obtain ⟨-, s', c', m', hs', hc', hm', h2, hne, -⟩ := h
      obtain rfl := hs.unique hs'
      obtain rfl := hc.unique hc'
      obtain rfl := hshort.unique hm'
      exact ⟨h2, hne⟩
    | next _ _ _ ih => exact ih
  constructor
  · rintro ⟨h2, hf⟩
    split at hf
    · rename_i hne
      rw [Reader.faults_loop (sound_read_extension hn) (advances_read_extension hn) _ _ h2
        (by omega)] at hf
      obtain ⟨message', i, hr, hb, hf⟩ := hf
      have hext := (rounds_extensions hn hm h2 (hat h2 hne)
        (fun i hi => hi.unique (hat h2 hne)) (types message') i).mp ⟨message', hr, rfl⟩
      have hi := hr.le (sound_read_extension hn) h2
      exact ⟨_, i, hext, (faults_read_extension hn message' hi).mp hf⟩
    · exact absurd hf (Reader.faults_pure _ _)
  · rintro ⟨seen, i, hext, hbad⟩
    obtain ⟨h2, hne⟩ := hnone hext
    refine ⟨h2, ?_⟩
    rw [if_pos hne, Reader.faults_loop (sound_read_extension hn) (advances_read_extension hn) _ _ h2
      (by omega)]
    obtain ⟨message', hr, -⟩ := (rounds_extensions hn hm h2 (hat h2 hne)
      (fun i hi => hi.unique (hat h2 hne)) seen i).mpr hext
    have hi := hr.le (sound_read_extension hn) h2
    refine ⟨message', i, hr, ?_, (faults_read_extension hn message' hi).mpr hbad⟩
    rcases hbad with ⟨h, -⟩ | ⟨h, -⟩ <;> omega

/-! ## All accesses -/

theorem handshake_length_lt (header : List UInt8) : handshake_length header < 2 ^ 24 := by
  have h1 := (header.getD 1 0).toNat_lt
  have h2 := (header.getD 2 0).toNat_lt
  have h3 := (header.getD 3 0).toNat_lt
  unfold handshake_length
  have hhigh : (header.getD 1 0).toNat <<< 8 ||| (header.getD 2 0).toNat < 2 ^ 16 :=
    Nat.or_lt_two_pow (by rw [Nat.shiftLeft_eq]; omega) (by omega)
  exact Nat.or_lt_two_pow (by rw [Nat.shiftLeft_eq]; omega) (by omega)

theorem sound_read_body (hn : raw.length < 2 ^ 32) (message : ClientHello) :
    Reader.Sound raw.length (read_body raw message) := by
  apply (sound_read_short hn).bind
  intro session_id
  apply (sound_read_cipher_suites hn).bind
  intro cipher_suites
  apply (sound_read_short hn).bind
  intro compression_methods
  apply (sound_read_extensions hn _).bind
  intro message
  apply (sound_current_index _).bind
  intro index
  split
  · exact Reader.sound_fail _
  · exact Reader.sound_pure _

/-- Only a message shorter than 2^24 + 9 bytes gets past its headers. -/
theorem sound_from_raw_data_impl (raw : List UInt8) :
    Reader.Sound raw.length (from_raw_data_impl raw) := by
  unfold from_raw_data_impl
  split
  · exact Reader.sound_fail _
  · apply (sound_copy_bytes 5).bind
    intro record_header
    apply (sound_copy_bytes 4).bind
    intro handshake_header
    split
    · exact Reader.sound_fail _
    · split
      · exact Reader.sound_fail _
      · rename_i hstated
        have hlt := handshake_length_lt handshake_header
        have hn : raw.length < 2 ^ 32 := by
          have heq : handshake_length handshake_header = raw.length - 9 := not_not.mp hstated
          omega
        apply (sound_copy_bytes 2).bind
        intro version
        apply (sound_copy_bytes 32).bind
        intro random
        exact sound_read_body hn _

/-- An unchecked byte of the layout does not fit. -/
def Misfit (raw : List UInt8) : Prop := ∃ kind p, Unchecked raw kind p ∧ ¬ kind.Fits raw p

theorem faults_read_body (hn : raw.length < 2 ^ 32) (hello : Hello raw) {message : ClientHello}
    (hm : message.extensions = []) : (read_body raw message).Faults 43 ↔ Misfit raw := by
  have hciphers := fun {s} (hs : Short raw 43 s) =>
    ciphers_iff hn (show s ≤ raw.length by obtain ⟨-, -, -, -, h⟩ := hs; exact h)
  constructor
  · intro h
    rcases (Reader.faults_bind _ _ _).mp h with h | ⟨session_id, s, hs, h⟩
    · exact ⟨_, _, .session_id hello, (faults_read_short hn 43).mp h⟩
    have hs := (gives_read_short hn s).mp ⟨_, hs⟩
    rcases (Reader.faults_bind _ _ _).mp h with h | ⟨suites, c, hc, h⟩
    · exact absurd h (hciphers hs).1
    have hc := ((hciphers hs).2 c).mp ⟨_, hc⟩
    rcases (Reader.faults_bind _ _ _).mp h with h | ⟨methods, m, hshort, h⟩
    · exact ⟨_, _, .compression hello hs hc, (faults_read_short hn c).mp h⟩
    have hshort := (gives_read_short hn m).mp ⟨_, hshort⟩
    rcases (Reader.faults_bind _ _ _).mp h with h | ⟨message', k, -, h⟩
    · rw [faults_read_extensions hn (by simp [types, hm]) hello hs hc hshort] at h
      obtain ⟨seen, i, hext, ⟨h4, htype, p, hp, hlt, h2, hbad⟩ | ⟨h6, htype, p, hp, hlt, hbad⟩⟩ := h
      · exact ⟨_, _, .server_name hext h4 htype hp hlt h2, hbad⟩
      · exact ⟨_, _, .alpn hext h6 htype hp hlt, hbad⟩
    · rw [faults_index] at h
      split at h
      · exact absurd h (Reader.faults_fail _ _)
      · exact absurd h (Reader.faults_pure _ _)
  · rintro ⟨kind, p, hu, hbad⟩
    -- Everything before the byte is read, and then it faults.
    have hsession : ∀ {s}, Short raw 43 s →
        (∀ session_id, ((do
          let cipher_suites ← read_cipher_suites raw
          let compression_methods ← read_short raw
          let message ← read_extensions raw { message with
            session_id := session_id
            cipher_suites := cipher_suites
            compression_methods := compression_methods }
          let index ← current_index
          if index ≠ raw.length then fail (invalid_client_hello "Invalid Client Hello length")
          else pure message) : Reader Error ClientHello).Faults s) →
        (read_body raw message).Faults 43 := by
      intro s hs h
      obtain ⟨session_id, hg⟩ := (gives_read_short hn s).mpr hs
      exact (Reader.faults_bind _ _ _).mpr (.inr ⟨session_id, s, hg, h session_id⟩)
    have hextensions : ∀ {seen i}, Extensions raw seen i → BadExtension raw i →
        (read_body raw message).Faults 43 := by
      intro seen i hext hb
      obtain ⟨s, c, m, hs, hc, hshort⟩ : ∃ s c m, Short raw 43 s ∧ Ciphers raw s c ∧
          Short raw c m := by
        clear hb
        induction hext with
        | first h =>
          obtain ⟨-, s, c, m, hs, hc, hm, -⟩ := h
          exact ⟨s, c, m, hs, hc, hm⟩
        | next _ _ _ ih => exact ih
      apply hsession hs
      intro session_id
      obtain ⟨suites, hg⟩ := ((hciphers hs).2 c).mpr hc
      obtain ⟨methods, hg'⟩ := (gives_read_short hn m).mpr hshort
      refine (Reader.faults_bind _ _ _).mpr (.inr ⟨suites, c, hg, ?_⟩)
      refine (Reader.faults_bind _ _ _).mpr (.inr ⟨methods, m, hg', ?_⟩)
      refine (Reader.faults_bind _ _ _).mpr (.inl ?_)
      exact (faults_read_extensions hn (by simp [types, hm]) hello hs hc hshort).mpr
        ⟨seen, i, hext, hb⟩
    cases hu with
    | session_id =>
      exact (Reader.faults_bind _ _ _).mpr (.inl ((faults_read_short hn 43).mpr hbad))
    | compression _ hs hc =>
      apply hsession hs
      intro session_id
      obtain ⟨suites, hg⟩ := ((hciphers hs).2 p).mpr hc
      refine (Reader.faults_bind _ _ _).mpr (.inr ⟨suites, p, hg, ?_⟩)
      exact (Reader.faults_bind _ _ _).mpr (.inl ((faults_read_short hn p).mpr hbad))
    | server_name hext h4 htype hp hlt h2 =>
      exact hextensions hext (.inl ⟨h4, htype, _, hp, hlt, h2, hbad⟩)
    | alpn hext h6 htype hp hlt =>
      exact hextensions hext (.inr ⟨h6, htype, p, hp, hlt, hbad⟩)

theorem Unchecked.hello {kind : OneByte} {p : Nat} (h : Unchecked raw kind p) : Hello raw := by
  have hext : ∀ {seen i}, Extensions raw seen i → Hello raw := by
    intro seen i h
    induction h with
    | first h => exact h.1
    | next _ _ _ ih => exact ih
  cases h with
  | session_id h => exact h
  | compression h => exact h
  | server_name h => exact hext h
  | alpn h => exact hext h

theorem Hello.short (h : Hello raw) : raw.length < 2 ^ 32 := by
  have hlt := handshake_length_lt ((raw.drop 5).take 4)
  rw [h.stated] at hlt
  omega

theorem getD_handshake_header (raw : List UInt8) :
    ((raw.drop 5).take 4).getD 0 0 = raw.getD 5 0 := by
  simp [List.getD_eq_getElem?_getD, List.getElem?_drop]

theorem faults_from_raw_data_impl (raw : List UInt8) :
    (from_raw_data_impl raw).Faults 0 ↔ Misfit raw := by
  constructor
  · intro h
    unfold from_raw_data_impl at h
    split at h
    · exact absurd h (Reader.faults_fail _ _)
    · rename_i h9
      rw [faults_copy (by decide), faults_copy (by decide)] at h
      obtain ⟨-, -, h⟩ := h
      split at h
      · exact absurd h (Reader.faults_fail _ _)
      · rename_i htype
        split at h
        · exact absurd h (Reader.faults_fail _ _)
        · rename_i hstated
          rw [faults_copy (by decide), faults_copy (by decide)] at h
          obtain ⟨-, h43, h⟩ := h
          have hello : Hello raw := by
            refine ⟨h43, ?_, not_not.mp hstated⟩
            rw [← getD_handshake_header]
            exact not_not.mp htype
          exact (faults_read_body hello.short hello rfl).mp h
  · intro h
    obtain ⟨kind, p, hu, hbad⟩ := h
    have hello := hu.hello
    have h43 := hello.length
    have htype : ((raw.drop 5).take 4).getD 0 0 = 0x01 := by
      rw [getD_handshake_header]
      exact hello.type
    unfold from_raw_data_impl
    rw [if_neg (by omega), faults_copy (by decide), faults_copy (by decide),
      if_neg (not_not.mpr htype), if_neg (not_not.mpr hello.stated), faults_copy (by decide),
      faults_copy (by decide)]
    refine ⟨by omega, by omega, by omega, h43, ?_⟩
    exact (faults_read_body hello.short hello rfl).mpr ⟨kind, p, hu, hbad⟩

/-- The parse ends, all that it reads and copies is in the buffer, and its index never decreases. -/
structure KeepsToBuffer (raw : List UInt8) : Prop where
  ends : (from_raw_data raw).value ≠ .error .unfinished
  reads : ∀ i, .read i ∈ (from_raw_data raw).accesses → i < raw.length
  copies : ∀ first last, .copy first last ∈ (from_raw_data raw).accesses →
    first ≤ last ∧ last ≤ raw.length
  forwards : ∀ i j, .move i j ∈ (from_raw_data raw).accesses → i ≤ j

theorem from_raw_data_ends (raw : List UInt8) :
    (from_raw_data raw).value ≠ .error .unfinished := by
  have hends := (sound_from_raw_data_impl raw 0 (Nat.zero_le _)).ends
  unfold from_raw_data
  simp only
  split
  · intro h; cases h
  · exact hends

/-- A Client Hello is parsed within its buffer exactly when each byte that its layout has by itself
is in the buffer, and each such length `c` at offset `p` is below 128 or has `p + 1 + c` below 256.
-/
theorem from_raw_data_keeps_to_the_buffer_iff_the_single_bytes_fit (raw : List UInt8) :
    KeepsToBuffer raw ↔ ∀ kind p, Unchecked raw kind p → kind.Fits raw p := by
  have hsound := sound_from_raw_data_impl raw 0 (Nat.zero_le _)
  have hfaults := faults_from_raw_data_impl raw
  constructor
  · intro h kind p hu
    by_contra hbad
    obtain ⟨x, hx, hx'⟩ := hsound.bad (hfaults.mpr ⟨kind, p, hu, hbad⟩)
    cases x with
    | read i => exact hx' (h.reads i hx)
    | copy first last => exact hx' (h.copies first last hx)
    | move i j => exact hx' (h.forwards i j hx)
  · intro h
    have hgood := hsound.good fun hf => by
      obtain ⟨kind, p, hu, hbad⟩ := hfaults.mp hf
      exact hbad (h kind p hu)
    exact ⟨from_raw_data_ends raw, fun i hx => hgood (.read i) hx,
      fun first last hx => hgood (.copy first last) hx, fun i j hx => hgood (.move i j) hx⟩

/-- The length of a session id is 224, a negative `char`, and the copy goes from 44 back to 12. -/
theorem a_negative_length_is_copied_backwards :
    ¬ KeepsToBuffer ([22, 3, 1, 0, 39, 1, 0, 0, 35] ++ List.replicate 34 0 ++ [224]) := by
  intro h
  have hback := (h.copies 44 12 (by decide)).1
  omega

end proxy.tls.handshake
