-- What each read of the Client Hello parser does: where it faults, and what it
-- gives.
import Aether.Tls.ClientHello
import Mathlib.Data.Nat.Bitwise

open lib.cursor
open lib.cursor.Reader (fail loop)

namespace proxy.tls.handshake

variable {raw : List UInt8} {α : Type}

/-! ## Single reads -/

/-- The number in the two bytes at an index. -/
def wordAt (raw : List UInt8) (i : Nat) : Nat :=
  (raw.getD i 0).toNat * 256 + (raw.getD (i + 1) 0).toNat

theorem wordAt_lt (raw : List UInt8) (i : Nat) : wordAt raw i < 65536 := by
  have h1 := (raw.getD i 0).toNat_lt
  have h2 := (raw.getD (i + 1) 0).toNat_lt
  unfold wordAt
  omega

theorem size_t_of_lt {n : Nat} (h : n < 2 ^ 64) : size_t n = n := Nat.mod_eq_of_lt h

theorem sound_read_next (hn : raw.length < 2 ^ 32) : Reader.Sound raw.length (read_next raw) := by
  intro i hi
  by_cases h : i < raw.length
  · have hrun : read_next raw i = ⟨i + 1, [.read i, .move i (i + 1)], .ok raw[i]⟩ := by
      rw [read_next, List.getElem?_eq_getElem h, size_t_of_lt (by omega)]
    refine ⟨fun _ x hx => ?_, fun hf => ?_, fun a j hg => ?_, fun he => ?_⟩
    · rw [hrun] at hx
      simp only [List.mem_cons, List.not_mem_nil, or_false] at hx
      rcases hx with rfl | rfl
      · exact h
      · exact Nat.le_succ i
    · rw [Reader.Faults, hrun] at hf; cases hf
    · rw [Reader.Gives, hrun] at hg
      obtain ⟨-, rfl⟩ := hg
      exact ⟨Nat.le_succ i, h⟩
    · rw [hrun] at he; cases he
  · have hrun : read_next raw i = ⟨i, [.read i], .error .fault⟩ := by
      rw [read_next, List.getElem?_eq_none (by omega)]
    refine ⟨fun hno => ?_, fun _ => ⟨.read i, ?_, h⟩, fun a j hg => ?_, fun he => ?_⟩
    · exact absurd (by rw [Reader.Faults, hrun]) hno
    · rw [hrun]; exact List.mem_singleton.mpr rfl
    · rw [Reader.Gives, hrun] at hg; cases hg.1
    · rw [hrun] at he; cases he

theorem faults_read_next (i : Nat) : (read_next raw).Faults i ↔ ¬ i < raw.length := by
  unfold Reader.Faults read_next
  by_cases h : i < raw.length
  · simp [h]
  · simp [h]

theorem gives_read_next (hn : raw.length < 2 ^ 32) (i : Nat) (c : UInt8) (j : Nat) :
    (read_next raw).Gives i c j ↔ raw[i]? = some c ∧ j = i + 1 := by
  unfold Reader.Gives read_next
  by_cases h : i < raw.length
  · rw [List.getElem?_eq_getElem h]
    simp only [size_t_of_lt (by omega : i + 1 < 2 ^ 64), Except.ok.injEq, Option.some.injEq]
    exact and_congr_right fun _ => eq_comm
  · simp [List.getElem?_eq_none (Nat.le_of_not_lt h)]

theorem sound_current_index (n : Nat) : Reader.Sound n current_index := by
  intro i hi
  refine ⟨fun _ x hx => ?_, fun h => ?_, fun b j h => ?_, fun h => ?_⟩
  · cases hx
  · cases h
  · obtain ⟨-, rfl⟩ := h
    exact ⟨Nat.le_refl _, hi⟩
  · cases h

theorem copy_bytes_refused {i num_bytes : Nat} (h : raw.length < size_t (i + num_bytes)) :
    copy_bytes raw num_bytes i = fail (default_error .read_access_violation) i := if_pos h

theorem copy_bytes_backwards {i num_bytes : Nat} (h1 : ¬ raw.length < size_t (i + num_bytes))
    (h2 : size_t (i + num_bytes) < i) :
    copy_bytes raw num_bytes i = ⟨i, [.copy i (size_t (i + num_bytes))], .error .fault⟩ := by
  simp only [copy_bytes, h1, h2, if_true, if_false]

theorem copy_bytes_forwards {i num_bytes : Nat} (h1 : ¬ raw.length < size_t (i + num_bytes))
    (h2 : ¬ size_t (i + num_bytes) < i) :
    copy_bytes raw num_bytes i =
      ⟨size_t (i + num_bytes), [.copy i (size_t (i + num_bytes)), .move i (size_t (i + num_bytes))],
        .ok ((raw.drop i).take (size_t (i + num_bytes) - i))⟩ := by
  simp only [copy_bytes, h1, h2, if_false]

theorem sound_copy_bytes (num_bytes : Nat) :
    Reader.Sound raw.length (copy_bytes raw num_bytes) := by
  intro i hi
  by_cases h1 : raw.length < size_t (i + num_bytes)
  · exact Reader.soundAt_congr (copy_bytes_refused h1) (Reader.sound_fail _ i hi)
  by_cases h2 : size_t (i + num_bytes) < i
  · have hrun := copy_bytes_backwards h1 h2
    refine ⟨fun hno => ?_, fun _ => ⟨.copy i (size_t (i + num_bytes)), ?_, ?_⟩, fun a j hg => ?_,
      fun he => ?_⟩
    · exact absurd (by rw [Reader.Faults, hrun]) hno
    · rw [hrun]; exact List.mem_singleton.mpr rfl
    · intro hgood
      exact absurd hgood.1 (by omega)
    · rw [Reader.Gives, hrun] at hg; cases hg.1
    · rw [hrun] at he; cases he
  · have hrun := copy_bytes_forwards h1 h2
    refine ⟨fun _ x hx => ?_, fun hf => ?_, fun a j hg => ?_, fun he => ?_⟩
    · rw [hrun] at hx
      simp only [List.mem_cons, List.not_mem_nil, or_false] at hx
      rcases hx with rfl | rfl
      · exact ⟨Nat.le_of_not_lt h2, Nat.le_of_not_lt h1⟩
      · exact Nat.le_of_not_lt h2
    · rw [Reader.Faults, hrun] at hf; cases hf
    · rw [Reader.Gives, hrun] at hg
      obtain ⟨-, rfl⟩ := hg
      exact ⟨Nat.le_of_not_lt h2, Nat.le_of_not_lt h1⟩
    · rw [hrun] at he; cases he

/-- A number of bytes that is no negative `char` is copied, or refused. -/
theorem copy_bytes_small {i num_bytes : Nat} (h : i + num_bytes < 2 ^ 64) :
    ¬ (copy_bytes raw num_bytes).Faults i ∧
      ∀ a j, (copy_bytes raw num_bytes).Gives i a j ↔
        i + num_bytes ≤ raw.length ∧ a = (raw.drop i).take num_bytes ∧ j = i + num_bytes := by
  have hlast := size_t_of_lt h
  by_cases h1 : raw.length < i + num_bytes
  · have hrun := copy_bytes_refused (by rw [hlast]; exact h1)
    refine ⟨?_, fun a j => ?_⟩
    · rw [Reader.faults_congr hrun]; exact Reader.faults_fail _ i
    · rw [Reader.gives_congr hrun]
      constructor
      · intro hg; exact absurd hg (Reader.gives_fail _ a i j)
      · rintro ⟨hle, -⟩; omega
  · have hrun := copy_bytes_forwards (by rw [hlast]; exact h1)
      (by rw [hlast]; omega)
    rw [hlast, Nat.add_sub_cancel_left] at hrun
    refine ⟨fun hf => ?_, fun a j => ?_⟩
    · rw [Reader.Faults, hrun] at hf; cases hf
    · rw [Reader.Gives, hrun, Except.ok.injEq]
      constructor
      · rintro ⟨rfl, rfl⟩
        exact ⟨Nat.le_of_not_lt h1, rfl, rfl⟩
      · rintro ⟨-, rfl, rfl⟩
        exact ⟨rfl, rfl⟩

/-- A negative one is copied backwards, or refused. -/
theorem copy_bytes_negative {i : Nat} {c : UInt8} (hn : raw.length < 2 ^ 32) (hi : i ≤ raw.length)
    (hc : 128 ≤ c.toNat) :
    ((copy_bytes raw (char_to_size c)).Faults i ↔ 256 ≤ i + c.toNat) ∧
      ∀ a j, ¬ (copy_bytes raw (char_to_size c)).Gives i a j := by
  have hlt := c.toNat_lt
  have hsize : char_to_size c = 2 ^ 64 - 256 + c.toNat := if_neg (by omega)
  by_cases h : 256 ≤ i + c.toNat
  · have hlast : size_t (i + char_to_size c) = i + c.toNat - 256 := by
      rw [hsize]; unfold size_t; omega
    have h1 : ¬ raw.length < size_t (i + char_to_size c) := by rw [hlast]; omega
    have hrun := copy_bytes_backwards h1 (by rw [hlast]; omega)
    refine ⟨?_, fun a j hg => ?_⟩
    · rw [Reader.Faults, hrun]
      exact iff_of_true rfl h
    · rw [Reader.Gives, hrun] at hg; cases hg.1
  · have hlast : size_t (i + char_to_size c) = i + (2 ^ 64 - 256 + c.toNat) := by
      rw [hsize]; exact size_t_of_lt (by omega)
    have h1 : raw.length < size_t (i + char_to_size c) := by rw [hlast]; omega
    have hrun := copy_bytes_refused h1
    refine ⟨?_, fun a j => ?_⟩
    · rw [Reader.faults_congr hrun]
      exact iff_of_false (Reader.faults_fail _ i) h
    · rw [Reader.gives_congr hrun]; exact Reader.gives_fail _ a i j

theorem sound_read_byte_string_loop (hn : raw.length < 2 ^ 32) (k res : Nat) :
    Reader.Sound raw.length (read_byte_string_loop raw k res) := by
  induction k generalizing res with
  | zero => exact Reader.sound_pure res
  | succ k ih => exact (sound_read_next hn).bind fun c => ih _

theorem sound_read_byte_string (hn : raw.length < 2 ^ 32) (k : Nat) :
    Reader.Sound raw.length (read_byte_string raw k) := by
  intro i hi
  by_cases h : raw.length < size_t (i + k)
  · have hrun : read_byte_string raw k i = fail (default_error .read_access_violation) i := if_pos h
    exact Reader.soundAt_congr hrun (Reader.sound_fail _ i hi)
  · have hrun : read_byte_string raw k i = read_byte_string_loop raw k 0 i := if_neg h
    exact Reader.soundAt_congr hrun (sound_read_byte_string_loop hn k 0 i hi)

/-- Two bytes are read as they are, when they are there. -/
theorem read_word (hn : raw.length < 2 ^ 32) {i : Nat} (hi : i ≤ raw.length) :
    ¬ (read_byte_string raw 2).Faults i ∧
      ∀ v j, (read_byte_string raw 2).Gives i v j ↔
        i + 2 ≤ raw.length ∧ v = wordAt raw i ∧ j = i + 2 := by
  have hsize : size_t (i + 2) = i + 2 := size_t_of_lt (by omega)
  by_cases h : raw.length < i + 2
  · have hrun : read_byte_string raw 2 i = fail (default_error .read_access_violation) i :=
      if_pos (by rw [hsize]; exact h)
    refine ⟨?_, fun v j => ?_⟩
    · rw [Reader.faults_congr hrun]; exact Reader.faults_fail _ i
    · rw [Reader.gives_congr hrun]
      constructor
      · intro hg; exact absurd hg (Reader.gives_fail _ v i j)
      · rintro ⟨hle, -⟩; omega
  · have h0 : i < raw.length := by omega
    have h1 : i + 1 < raw.length := by omega
    have hb := raw[i].toNat_lt
    have hb' := raw[i + 1].toNat_lt
    have hvalue : size_t ((size_t (0 <<< 8) ||| raw[i].toNat) <<< 8) ||| raw[i + 1].toNat =
        wordAt raw i := by
      have hfirst : size_t (0 <<< 8) ||| raw[i].toNat = raw[i].toNat := by simp [size_t]
      have hhigh : size_t (raw[i].toNat <<< 8) = 2 ^ 8 * raw[i].toNat := by
        rw [Nat.shiftLeft_eq, size_t_of_lt (by omega), Nat.mul_comm]
      rw [hfirst, hhigh, ← Nat.two_pow_add_eq_or_of_lt hb']
      simp only [wordAt, List.getD_eq_getElem?_getD, List.getElem?_eq_getElem h0,
        List.getElem?_eq_getElem h1, Option.getD_some]
      omega
    have hrun : read_byte_string raw 2 i = ⟨i + 2,
        [.read i, .move i (i + 1), .read (i + 1), .move (i + 1) (i + 2)], .ok (wordAt raw i)⟩ := by
      have hnext : ∀ k (hk : k < raw.length), read_next raw k =
          ⟨k + 1, [.read k, .move k (k + 1)], .ok raw[k]⟩ := by
        intro k hk
        rw [read_next, List.getElem?_eq_getElem hk, size_t_of_lt (by omega)]
      have hloop : read_byte_string raw 2 i = read_byte_string_loop raw 2 0 i :=
        if_neg (by rw [hsize]; exact h)
      rw [hloop, ← hvalue]
      simp only [read_byte_string_loop, Reader.bind_eq, Reader.pure_eq, Reader.bind, hnext i h0,
        hnext (i + 1) h1, Reader.pure, List.cons_append, List.nil_append]
    refine ⟨fun hf => ?_, fun v j => ?_⟩
    · rw [Reader.Faults, hrun] at hf; cases hf
    · rw [Reader.Gives, hrun, Except.ok.injEq]
      constructor
      · rintro ⟨rfl, rfl⟩
        exact ⟨by omega, rfl, rfl⟩
      · rintro ⟨-, rfl, rfl⟩
        exact ⟨rfl, rfl⟩

/-! ## Reads before the rest -/

section

variable {β : Type} {i : Nat}

theorem faults_index (f : Nat → Reader Error β) :
    (current_index >>= f).Faults i ↔ (f i).Faults i := by
  rw [Reader.bind_eq, Reader.faults_bind]
  constructor
  · rintro (h | ⟨a, j, ⟨ha, rfl⟩, h⟩)
    · cases h
    · cases ha; exact h
  · intro h
    exact .inr ⟨i, i, ⟨rfl, rfl⟩, h⟩

theorem gives_index (f : Nat → Reader Error β) (b : β) (k : Nat) :
    (current_index >>= f).Gives i b k ↔ (f i).Gives i b k := by
  rw [Reader.bind_eq, Reader.gives_bind]
  constructor
  · rintro ⟨a, j, ⟨ha, rfl⟩, h⟩
    cases ha; exact h
  · intro h
    exact ⟨i, i, ⟨rfl, rfl⟩, h⟩

theorem faults_word (hn : raw.length < 2 ^ 32) (hi : i ≤ raw.length) (f : Nat → Reader Error β) :
    (read_byte_string raw 2 >>= f).Faults i ↔
      i + 2 ≤ raw.length ∧ (f (wordAt raw i)).Faults (i + 2) := by
  obtain ⟨hno, hg⟩ := read_word hn hi
  rw [Reader.bind_eq, Reader.faults_bind]
  constructor
  · rintro (h | ⟨v, j, h, hf⟩)
    · exact absurd h hno
    · obtain ⟨hle, rfl, rfl⟩ := (hg v j).mp h
      exact ⟨hle, hf⟩
  · rintro ⟨hle, hf⟩
    exact .inr ⟨_, _, (hg _ _).mpr ⟨hle, rfl, rfl⟩, hf⟩

theorem gives_word (hn : raw.length < 2 ^ 32) (hi : i ≤ raw.length) (f : Nat → Reader Error β)
    (b : β) (k : Nat) :
    (read_byte_string raw 2 >>= f).Gives i b k ↔
      i + 2 ≤ raw.length ∧ (f (wordAt raw i)).Gives (i + 2) b k := by
  obtain ⟨-, hg⟩ := read_word hn hi
  rw [Reader.bind_eq, Reader.gives_bind]
  constructor
  · rintro ⟨v, j, h, hf⟩
    obtain ⟨hle, rfl, rfl⟩ := (hg v j).mp h
    exact ⟨hle, hf⟩
  · rintro ⟨hle, hf⟩
    exact ⟨_, _, (hg _ _).mpr ⟨hle, rfl, rfl⟩, hf⟩

theorem faults_copy {num_bytes : Nat} (h : i + num_bytes < 2 ^ 64)
    (f : List UInt8 → Reader Error β) :
    (copy_bytes raw num_bytes >>= f).Faults i ↔
      i + num_bytes ≤ raw.length ∧ (f ((raw.drop i).take num_bytes)).Faults (i + num_bytes) := by
  obtain ⟨hno, hg⟩ := copy_bytes_small h
  rw [Reader.bind_eq, Reader.faults_bind]
  constructor
  · rintro (h | ⟨v, j, h, hf⟩)
    · exact absurd h hno
    · obtain ⟨hle, rfl, rfl⟩ := (hg v j).mp h
      exact ⟨hle, hf⟩
  · rintro ⟨hle, hf⟩
    exact .inr ⟨_, _, (hg _ _).mpr ⟨hle, rfl, rfl⟩, hf⟩

theorem gives_copy {num_bytes : Nat} (h : i + num_bytes < 2 ^ 64)
    (f : List UInt8 → Reader Error β) (b : β) (k : Nat) :
    (copy_bytes raw num_bytes >>= f).Gives i b k ↔
      i + num_bytes ≤ raw.length ∧ (f ((raw.drop i).take num_bytes)).Gives (i + num_bytes) b k := by
  obtain ⟨-, hg⟩ := (copy_bytes_small h : ¬ (copy_bytes raw num_bytes).Faults i ∧ _)
  rw [Reader.bind_eq, Reader.gives_bind]
  constructor
  · rintro ⟨v, j, h, hf⟩
    obtain ⟨hle, rfl, rfl⟩ := (hg v j).mp h
    exact ⟨hle, hf⟩
  · rintro ⟨hle, hf⟩
    exact ⟨_, _, (hg _ _).mpr ⟨hle, rfl, rfl⟩, hf⟩

end

/-! ## Lengths of one byte -/

/-- The byte at `p` is in the buffer. As a length it is no negative `char`, or so far at the front
that the copy is refused. -/
def SafeLength (raw : List UInt8) (p : Nat) : Prop :=
  ∃ c, raw[p]? = some c ∧ (c.toNat < 128 ∨ p + 1 + c.toNat < 256)

/-- A length of one byte and its bytes, from `i` to `j`. -/
def Short (raw : List UInt8) (i j : Nat) : Prop :=
  ∃ c, raw[i]? = some c ∧ c.toNat < 128 ∧ j = i + 1 + c.toNat ∧ j ≤ raw.length

theorem sound_read_short (hn : raw.length < 2 ^ 32) : Reader.Sound raw.length (read_short raw) :=
  (sound_read_next hn).bind fun c => sound_copy_bytes (char_to_size c)

theorem faults_read_short (hn : raw.length < 2 ^ 32) (i : Nat) :
    (read_short raw).Faults i ↔ ¬ SafeLength raw i := by
  rw [read_short, Reader.bind_eq, Reader.faults_bind, faults_read_next]
  by_cases h : i < raw.length
  · have hget : ∀ c j, (read_next raw).Gives i c j ↔ c = raw[i] ∧ j = i + 1 := by
      intro c j
      rw [gives_read_next hn, List.getElem?_eq_getElem h, Option.some.injEq]
      exact and_congr_left fun _ => eq_comm
    have hsafe : SafeLength raw i ↔ raw[i].toNat < 128 ∨ i + 1 + raw[i].toNat < 256 := by
      unfold SafeLength
      rw [List.getElem?_eq_getElem h]
      simp
    have hcopy : (copy_bytes raw (char_to_size raw[i])).Faults (i + 1) ↔ ¬ SafeLength raw i := by
      rw [hsafe]
      by_cases hc : raw[i].toNat < 128
      · have hsize : char_to_size raw[i] = raw[i].toNat := if_pos hc
        rw [hsize]
        exact iff_of_false (copy_bytes_small (by omega)).1 (by simp [hc])
      · rw [(copy_bytes_negative hn h (by omega)).1]
        omega
    rw [← hcopy]
    constructor
    · rintro (hno | ⟨c, j, hg, hf⟩)
      · exact absurd h hno
      · obtain ⟨rfl, rfl⟩ := (hget c j).mp hg
        exact hf
    · intro hf
      exact .inr ⟨_, _, (hget _ _).mpr ⟨rfl, rfl⟩, hf⟩
  · refine iff_of_true (.inl h) ?_
    rintro ⟨c, hc, -⟩
    rw [List.getElem?_eq_none (by omega)] at hc
    cases hc

theorem gives_read_short (hn : raw.length < 2 ^ 32) {i : Nat} (j : Nat) :
    (∃ a, (read_short raw).Gives i a j) ↔ Short raw i j := by
  unfold Short
  constructor
  · rintro ⟨a, h⟩
    rw [read_short, Reader.bind_eq, Reader.gives_bind] at h
    obtain ⟨c, k, hnext, hcopy⟩ := h
    obtain ⟨hc, rfl⟩ := (gives_read_next hn i c k).mp hnext
    have hi : i < raw.length := by
      by_contra hno
      rw [List.getElem?_eq_none (by omega)] at hc
      cases hc
    have hsmall : c.toNat < 128 := by
      by_contra hno
      exact (copy_bytes_negative hn hi (by omega)).2 a j hcopy
    have hsize : char_to_size c = c.toNat := if_pos hsmall
    rw [hsize] at hcopy
    obtain ⟨hle, -, rfl⟩ := ((copy_bytes_small (by omega)).2 a j).mp hcopy
    exact ⟨c, hc, hsmall, rfl, hle⟩
  · rintro ⟨c, hc, hsmall, rfl, hle⟩
    have hsize : char_to_size c = c.toNat := if_pos hsmall
    refine ⟨(raw.drop (i + 1)).take c.toNat, (Reader.gives_bind _ _ _ _ _).mpr
      ⟨c, i + 1, (gives_read_next hn i c (i + 1)).mpr ⟨hc, rfl⟩, ?_⟩⟩
    rw [hsize]
    exact ((copy_bytes_small (by omega)).2 _ _).mpr ⟨hle, rfl, rfl⟩

/-! ## Loops up to a length -/

section

variable {σ : Type} {length : Nat} {body : σ → Reader Error σ}

theorem sound_read_within (hs : ∀ s, Reader.Sound raw.length (body s))
    (ha : Reader.Advances raw.length body) (length : Nat) (message : String) (s : σ) :
    Reader.Sound raw.length (read_within raw length message body s) := by
  apply (sound_current_index _).bind
  intro prev_index
  apply (Reader.sound_loop hs ha s).bind
  intro s'
  apply (sound_current_index _).bind
  intro index
  split
  · exact Reader.sound_fail _
  · exact Reader.sound_pure s'

theorem faults_read_within (message : String) (hn : raw.length < 2 ^ 32)
    (hs : ∀ s, Reader.Sound raw.length (body s))
    (ha : Reader.Advances raw.length body) (hlength : length < 65536) (s : σ) {i : Nat}
    (hi : i ≤ raw.length) :
    (read_within raw length message body s).Faults i ↔
      ∃ s' j, Reader.Rounds (i + length) body s i s' j ∧ j < i + length ∧ (body s').Faults j := by
  rw [read_within, faults_index, Reader.bind_eq, Reader.faults_bind,
    size_t_of_lt (by omega : i + length < 2 ^ 64),
    Reader.faults_loop hs ha (raw.length + 1) s hi (by omega)]
  constructor
  · rintro (h | ⟨s', j, -, hf⟩)
    · exact h
    · rw [faults_index] at hf
      split at hf
      · exact absurd hf (Reader.faults_fail _ j)
      · exact absurd hf (Reader.faults_pure s' j)
  · intro h
    exact .inl h

theorem gives_read_within (message : String) (hn : raw.length < 2 ^ 32)
    (hs : ∀ s, Reader.Sound raw.length (body s))
    (ha : Reader.Advances raw.length body) (hlength : length < 65536) (s : σ) {i : Nat}
    (hi : i ≤ raw.length) (s' : σ) (j : Nat) :
    (read_within raw length message body s).Gives i s' j ↔
      Reader.Rounds (i + length) body s i s' j ∧ j = i + length := by
  rw [read_within, gives_index, Reader.bind_eq, Reader.gives_bind,
    size_t_of_lt (by omega : i + length < 2 ^ 64)]
  constructor
  · rintro ⟨s1, k, hl, hg⟩
    obtain ⟨hr, -⟩ := (Reader.gives_loop hs ha (raw.length + 1) s hi (by omega) s1 k).mp hl
    rw [gives_index] at hg
    split at hg
    · exact absurd hg (Reader.gives_fail _ s' k j)
    · rename_i hk
      obtain ⟨rfl, rfl⟩ := (Reader.gives_pure _ _ _ _).mp hg
      exact ⟨hr, not_not.mp hk⟩
  · rintro ⟨hr, rfl⟩
    refine ⟨s', _, (Reader.gives_loop hs ha (raw.length + 1) s hi (by omega) s' _).mpr
      ⟨hr, Nat.lt_irrefl _⟩, ?_⟩
    rw [gives_index, if_neg (by simp)]
    exact (Reader.gives_pure _ _ _ _).mpr ⟨rfl, rfl⟩

/-- When the index alone decides where the rounds lead, and where one faults. -/
theorem within_iff {R : Nat → Nat → Prop} {F : Nat → Prop} (message : String)
    (hn : raw.length < 2 ^ 32)
    (hs : ∀ s, Reader.Sound raw.length (body s)) (ha : Reader.Advances raw.length body)
    (hR : ∀ s i j, i ≤ raw.length → ((∃ s', (body s).Gives i s' j) ↔ R i j))
    (hF : ∀ s i, i ≤ raw.length → ((body s).Faults i ↔ F i)) (hlength : length < 65536) (s : σ)
    {i : Nat} (hi : i ≤ raw.length) :
    ((read_within raw length message body s).Faults i ↔
        ∃ j, Reader.Path (i + length) R i j ∧ j < i + length ∧ F j) ∧
      ∀ j, ((∃ s', (read_within raw length message body s).Gives i s' j) ↔
        Reader.Path (i + length) R i j ∧ j = i + length) := by
  refine ⟨?_, fun j => ?_⟩
  · rw [faults_read_within message hn hs ha hlength s hi]
    constructor
    · rintro ⟨s', j, hr, hj, hf⟩
      exact ⟨j, (Reader.exists_rounds hs hR s hi).mp ⟨s', hr⟩, hj,
        (hF s' j (hr.le hs hi)).mp hf⟩
    · rintro ⟨j, hp, hj, hf⟩
      obtain ⟨s', hr⟩ := (Reader.exists_rounds hs hR s hi).mpr hp
      exact ⟨s', j, hr, hj, (hF s' j (hr.le hs hi)).mpr hf⟩
  · simp only [gives_read_within message hn hs ha hlength s hi, exists_and_right,
      Reader.exists_rounds hs hR s hi]

end

end proxy.tls.handshake
