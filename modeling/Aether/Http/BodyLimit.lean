-- The limit of a body, `options_.body_size_limit`, over all that a body may do
-- while it arrives.
import Aether.Http.BodyDelivery

open util.string util.buffer

namespace proxy.http.http1

namespace BodyReader

/-! ## The turns of a body -/

/-- A round of the loop over chunks, or the whole of a call for another body. -/
def turn (limit : Nat) (r : BodyReader) (inp : Istream) : Except Error (BodyReader × Istream) :=
  match r.state_.type with
  | .chunked => (read_chunk limit r inp).map Prod.snd
  | .given => r.read_given inp
  | _ => r.read_until_eof limit inp

/-- The size that a turn takes from the header of a chunk, if it does. -/
def header_size (r : BodyReader) (inp : Istream) : Option Nat :=
  if r.state_.type ≠ .chunked ∨ r.state_.next_chunk_size_known then none
  else
    let (header_buf, _) := r.chunk_header_buf_.read_until_string inp Message.CRLF
    if header_buf.is_complete_ then parse_hexadecimal header_buf.string_view else none

/-- The number of bytes that a turn asks of `read_up_to_bytes`, if it does. -/
def asked (limit : Nat) (r : BodyReader) (inp : Istream) : Option Nat :=
  match r.state_.type with
  | .chunked =>
    if r.state_.next_chunk_size_known then some r.state_.expected_size
    else
      (r.header_size inp).bind (fun size =>
        if limit < size_add r.state_.read size then none else some size)
  | .given => some r.state_.expected_size
  | _ => none

/-- A body between two turns: the reader, the bytes that wait in the stream, and the number of all
bytes that arrived for the body. -/
structure Stage where
  reader : BodyReader
  input : Text
  arrived : Nat

/-- The bytes of the body that the reader has. -/
def held (r : BodyReader) : Nat := r.body_buf_.committed.length + r.body_buf_.uncommitted.length

/-- What a body may come to from `r`: bytes arrive at any time, and the turns are those that `May`
allows. -/
inductive Arrives (limit : Nat) (May : Stage → Prop) (r : BodyReader) : Stage → Prop where
  | start : Arrives limit May r ⟨r, [], 0⟩
  | piece {s : Stage} (before : Arrives limit May r s) (piece : Text) :
      Arrives limit May r ⟨s.reader, s.input ++ piece, s.arrived + piece.length⟩
  | turn {s : Stage} {r' : BodyReader} {out : Istream} (before : Arrives limit May r s)
      (unfinished : s.reader.state_.finished = false) (may : May s)
      (turn : s.reader.turn limit (Istream.new s.input) = .ok (r', out)) :
      Arrives limit May r ⟨r', out.rdbuf, s.arrived⟩

namespace Stage

/-- The turn would go over the limit: with the size of a chunk, or with all that arrived for a body
until the end of the connection. -/
def Exceeds (limit : Nat) (s : Stage) : Prop :=
  (∃ size, s.reader.header_size (Istream.new s.input) = some size ∧
    limit < s.reader.state_.read + size) ∨
  s.reader.state_.type = .all ∧ limit < s.arrived

/-- What is in memory between two turns. -/
structure Kept (limit : Nat) (s : Stage) : Prop where
  held : s.reader.held ≤ limit
  delivered : s.reader.state_.finished = true → s.reader.body_buf_.string_view.length ≤ limit

/-- What the next turn does. -/
structure Checked (limit : Nat) (s : Stage) : Prop where
  sum : ∀ size, s.reader.header_size (Istream.new s.input) = some size →
    s.reader.state_.read + size < 2 ^ 64
  asked : ∀ n, s.reader.asked limit (Istream.new s.input) = some n → n ≤ limit
  refused : s.Exceeds limit → ∃ e, s.reader.turn limit (Istream.new s.input) = .error e

/-- The turn does not go wrong: the sum of the sizes of the chunks is a `size_t`, and a body until
the end of the connection is within the limit, or the count of some earlier read makes it seem
not to be. -/
structure Sound (limit : Nat) (s : Stage) : Prop where
  chunk : ∀ size, s.reader.header_size (Istream.new s.input) = some size →
    s.reader.state_.read + size < 2 ^ 64
  all : s.reader.state_.type = .all → s.arrived ≤ limit ∨
    limit < size_add s.reader.state_.read s.reader.body_buf_.num_bytes_read_last_

end Stage

/-- A turn of a chunked body does not go wrong if the sum of the sizes is a `size_t`. -/
theorem Arrives.chunk {limit : Nat} {r r' : BodyReader} {s : Stage} {out : Istream}
    (before : Arrives limit (Stage.Sound limit) r s) (unfinished : s.reader.state_.finished = false)
    (chunked : s.reader.state_.type = .chunked)
    (sum : ∀ size ∈ s.reader.header_size (Istream.new s.input),
      s.reader.state_.read + size < 2 ^ 64)
    (turn : s.reader.turn limit (Istream.new s.input) = .ok (r', out)) :
    Arrives limit (Stage.Sound limit) r ⟨r', out.rdbuf, s.arrived⟩ :=
  .turn before unfinished ⟨sum, fun hall => absurd (chunked.symm.trans hall) (by decide)⟩ turn

/-! ## A call is a sequence of turns -/

section

variable {limit : Nat} {r r' : BodyReader} {inp out : Istream} {t : Turn}

/-- What the end of a chunk leaves: a suffix that is not there yet, the end of the body, or the
state for the next chunk. -/
theorem read_chunk_suffix_cases (h : r.read_chunk_suffix inp = .ok (t, r', out)) :
    (∃ seg, r' = { r with chunk_suffix_buf_ := seg }) ∨
    (∃ seg, t = .stop ∧ r' = { r with
      chunk_suffix_buf_ := seg, state_ := { r.state_ with finished := true } }) ∨
    (∃ seg, r' = { r with
      chunk_suffix_buf_ := seg
      state_ := { r.state_ with
        read := size_add r.state_.read r.state_.expected_size
        next_chunk_size_known := false
        expected_size := 0 }
      body_buf_ := r.body_buf_.mark_as_incomplete }) := by
  unfold read_chunk_suffix at h
  generalize r.chunk_suffix_buf_.read_until_string inp Message.CRLF = result at h
  obtain ⟨suffix_buf, inp'⟩ := result
  simp only at h
  split at h
  · obtain ⟨-, hr⟩ := Prod.mk.inj (Except.ok.inj h)
    exact .inl ⟨suffix_buf, (Prod.mk.inj hr).1.symm⟩
  · split at h
    · cases h
    · obtain ⟨seg, -, h⟩ := bind_eq_ok.mp h
      split at h
      · obtain ⟨ht, hr⟩ := Prod.mk.inj (Except.ok.inj h)
        exact .inr (.inl ⟨seg, ht.symm, (Prod.mk.inj hr).1.symm⟩)
      · obtain ⟨-, hr⟩ := Prod.mk.inj (Except.ok.inj h)
        exact .inr (.inr ⟨seg, (Prod.mk.inj hr).1.symm⟩)

theorem good_of_suffix (hgood : inp.good = true)
    (h : r.read_chunk_suffix inp = .ok (.next, r', out)) : out.good = true := by
  unfold read_chunk_suffix at h
  have hline := @CountedSegment.good_of_read_until_string r.chunk_suffix_buf_ inp
    Message.CRLF hgood
  generalize r.chunk_suffix_buf_.read_until_string inp Message.CRLF = result at h hline
  obtain ⟨suffix_buf, inp'⟩ := result
  simp only at h hline
  split at h
  · cases h
  · rename_i hfull
    split at h
    · cases h
    · obtain ⟨seg, -, h⟩ := bind_eq_ok.mp h
      split at h
      · cases h
      · obtain ⟨-, hr⟩ := Prod.mk.inj (Except.ok.inj h)
        rw [← (Prod.mk.inj hr).2]
        exact hline (by simpa using hfull)

theorem good_of_data (hgood : inp.good = true)
    (h : r.read_chunk_data inp = .ok (.next, r', out)) : out.good = true := by
  unfold read_chunk_data at h
  obtain ⟨⟨seg, inp'⟩, hread, h⟩ := bind_eq_ok.mp h
  simp only at h
  split at h
  · cases h
  · rename_i hfull
    exact good_of_suffix
      (CountedSegment.good_of_read_up_to_bytes hgood hread (by simpa using hfull)) h

/-- The stream of a turn behind which there is another. -/
theorem good_of_next (hgood : inp.good = true) (h : read_chunk limit r inp = .ok (.next, r', out)) :
    out.good = true := by
  unfold read_chunk at h
  cases hknown : r.state_.next_chunk_size_known with
  | true =>
    rw [if_pos hknown] at h
    exact good_of_data hgood h
  | false =>
    rw [if_neg (by rw [hknown]; decide)] at h
    have hline := @CountedSegment.good_of_read_until_string r.chunk_header_buf_ inp
      Message.CRLF hgood
    generalize r.chunk_header_buf_.read_until_string inp Message.CRLF = result at h hline
    obtain ⟨header_buf, inp'⟩ := result
    simp only at h hline
    split at h
    · cases h
    · rename_i hfull
      obtain ⟨r₁, -, h⟩ := bind_eq_ok.mp h
      exact good_of_data (hline (by simpa using hfull)) h

/-- What a turn of the loop over chunks never changes, but for the end of the body. -/
structure Goes (r : BodyReader) (t : Turn) (r' : BodyReader) : Prop where
  type : r'.state_.type = r.state_.type
  finished : t = .next → r'.state_.finished = r.state_.finished

theorem goes_of_suffix (h : r.read_chunk_suffix inp = .ok (t, r', out)) : r.Goes t r' := by
  obtain ⟨seg, rfl⟩ | ⟨seg, rfl, rfl⟩ | ⟨seg, rfl⟩ := read_chunk_suffix_cases h
  · exact ⟨rfl, fun _ => rfl⟩
  · exact ⟨rfl, fun ht => by cases ht⟩
  · exact ⟨rfl, fun _ => rfl⟩

theorem goes_of_data (h : r.read_chunk_data inp = .ok (t, r', out)) : r.Goes t r' := by
  unfold read_chunk_data at h
  obtain ⟨⟨seg, inp'⟩, -, h⟩ := bind_eq_ok.mp h
  simp only at h
  split at h
  · obtain ⟨-, hr⟩ := Prod.mk.inj (Except.ok.inj h)
    rw [← (Prod.mk.inj hr).1]
    exact ⟨rfl, fun _ => rfl⟩
  · have hsuffix := goes_of_suffix h
    exact ⟨hsuffix.type, hsuffix.finished⟩

theorem goes_of_chunk (h : read_chunk limit r inp = .ok (t, r', out)) : r.Goes t r' := by
  unfold read_chunk at h
  split at h
  · exact goes_of_data h
  · generalize r.chunk_header_buf_.read_until_string inp Message.CRLF = result at h
    obtain ⟨header_buf, inp'⟩ := result
    simp only at h
    split at h
    · obtain ⟨-, hr⟩ := Prod.mk.inj (Except.ok.inj h)
      rw [← (Prod.mk.inj hr).1]
      exact ⟨rfl, fun _ => rfl⟩
    · obtain ⟨r₁, hset, h⟩ := bind_eq_ok.mp h
      have hdata := goes_of_data h
      unfold set_chunk_size at hset
      split at hset
      · cases hset
      · obtain ⟨seg, -, hset⟩ := bind_eq_ok.mp hset
        split at hset
        · cases hset
        · obtain rfl := Except.ok.inj hset
          exact ⟨hdata.type, hdata.finished⟩

theorem arrives_chunks {r₀ : BodyReader} {n turns : Nat} {a : Text}
    (hrun : Arrives limit (fun _ => True) r₀ ⟨r, a, n⟩) (htype : r.state_.type = .chunked)
    (hunfinished : r.state_.finished = false)
    (h : read_chunks limit turns r (Istream.new a) = .ok (r', out)) :
    Arrives limit (fun _ => True) r₀ ⟨r', out.rdbuf, n⟩ := by
  induction turns generalizing r a with
  | zero =>
    obtain ⟨rfl, rfl⟩ := Prod.mk.inj (Except.ok.inj h)
    exact hrun
  | succ turns ih =>
    rw [read_chunks_succ] at h
    obtain ⟨⟨t, r₁, inp₁⟩, hturn, h⟩ := bind_eq_ok.mp h
    have hstep : Arrives limit (fun _ => True) r₀ ⟨r₁, inp₁.rdbuf, n⟩ := by
      refine .turn (s := ⟨r, a, n⟩) hrun hunfinished trivial ?_
      unfold BodyReader.turn
      rw [htype]
      simp only [hturn]
      rfl
    have hgoes := goes_of_chunk hturn
    cases t with
    | stop =>
      obtain ⟨rfl, rfl⟩ := Prod.mk.inj (Except.ok.inj h)
      exact hstep
    | next =>
      have hgood := good_of_next (Istream.good_new a) hturn
      rw [Istream.eq_new_of_good hgood] at h
      exact ih hstep (hgoes.type.trans htype) ((hgoes.finished rfl).trans hunfinished) h

/-- What a call leaves is what turns come to. -/
theorem arrives_read {r₀ : BodyReader} {n : Nat} {a : Text}
    (hrun : Arrives limit (fun _ => True) r₀ ⟨r, a, n⟩) (hunfinished : r.state_.finished = false)
    (h : r.read limit (Istream.new a) = .ok (r', out)) :
    Arrives limit (fun _ => True) r₀ ⟨r', out.rdbuf, n⟩ := by
  unfold BodyReader.read at h
  cases htype : r.state_.type with
  | chunked =>
    rw [htype] at h
    exact arrives_chunks hrun htype hunfinished h
  | given =>
    refine .turn (s := ⟨r, a, n⟩) hrun hunfinished trivial ?_
    unfold BodyReader.turn
    rw [htype] at h ⊢
    exact h
  | none =>
    refine .turn (s := ⟨r, a, n⟩) hrun hunfinished trivial ?_
    unfold BodyReader.turn
    rw [htype] at h ⊢
    exact h
  | all =>
    refine .turn (s := ⟨r, a, n⟩) hrun hunfinished trivial ?_
    unfold BodyReader.turn
    rw [htype] at h ⊢
    exact h

end

/-! ## What a turn keeps -/

/-- The body segment has at most `n` bytes committed, and `m` more when it is complete. -/
structure Holds (seg : CountedSegment) (n m : Nat) : Prop where
  gathering : seg.is_complete_ = false → seg.committed.length ≤ n ∧ seg.uncommitted.length ≤ m
  complete : seg.is_complete_ = true → seg.uncommitted = [] ∧ seg.committed.length ≤ n + m

theorem Holds.length_le {seg : CountedSegment} {n m : Nat} (h : Holds seg n m) :
    seg.committed.length + seg.uncommitted.length ≤ n + m := by
  cases hc : seg.is_complete_ with
  | false =>
    have hg := h.gathering hc
    omega
  | true =>
    obtain ⟨hnil, hle⟩ := h.complete hc
    rw [hnil]
    exact hle

theorem Holds.read {seg seg' : CountedSegment} {n m : Nat} (h : Holds seg n m) {inp out : Istream}
    (hread : seg.read_up_to_bytes inp m = .ok (seg', out)) : Holds seg' n m := by
  cases hc : seg.is_complete_ with
  | true =>
    rw [CountedSegment.read_up_to_bytes_full hc] at hread
    obtain ⟨rfl, -⟩ := Prod.mk.inj (Except.ok.inj hread)
    exact h
  | false =>
    obtain ⟨hcommitted, huncommitted⟩ := h.gathering hc
    obtain ⟨hgathering, hcomplete⟩ :=
      CountedSegment.read_up_to_bytes_bounds hc huncommitted hread
    constructor
    · intro hc'
      obtain ⟨hsame, hle⟩ := hgathering hc'
      exact ⟨hsame ▸ hcommitted, hle⟩
    · intro hc'
      obtain ⟨hnil, hle⟩ := hcomplete hc'
      exact ⟨hnil, by omega⟩

/-- A chunked body between two turns. -/
structure ChunkKept (limit : Nat) (r : BodyReader) : Prop where
  type : r.state_.type = .chunked
  within : r.state_.read + r.state_.expected_size ≤ limit
  small : r.state_.read + r.state_.expected_size < 2 ^ 64
  header : r.state_.next_chunk_size_known = false → r.state_.expected_size = 0 ∧
    r.body_buf_.is_complete_ = false
  holds : Holds r.body_buf_ r.state_.read r.state_.expected_size

section

variable {limit : Nat} {r r' : BodyReader} {inp out : Istream} {t : Turn}

theorem ChunkKept.suffix (h : r.ChunkKept limit) (hfull : r.body_buf_.is_complete_ = true)
    (hturn : r.read_chunk_suffix inp = .ok (t, r', out)) : r'.ChunkKept limit := by
  obtain ⟨seg, rfl⟩ | ⟨seg, -, rfl⟩ | ⟨seg, rfl⟩ := read_chunk_suffix_cases hturn
  · exact ⟨h.type, h.within, h.small, h.header, h.holds⟩
  · exact ⟨h.type, h.within, h.small, h.header, h.holds⟩
  · have hsum := size_add_of_lt h.small
    have hwithin := h.within
    have hsmall := h.small
    obtain ⟨hnil, hle⟩ := h.holds.complete hfull
    refine ⟨h.type, ?_, ?_, fun _ => ⟨rfl, rfl⟩, ⟨fun _ => ⟨?_, ?_⟩, fun hc => (by cases hc)⟩⟩
    · simp only [hsum]
      omega
    · simp only [hsum]
      omega
    · simp only [hsum]
      exact hle
    · simp only [CountedSegment.mark_as_incomplete, hnil, List.length_nil]
      exact Nat.le_refl _

theorem ChunkKept.data (h : r.ChunkKept limit) (hknown : r.state_.next_chunk_size_known = true)
    (hturn : r.read_chunk_data inp = .ok (t, r', out)) : r'.ChunkKept limit := by
  unfold read_chunk_data at hturn
  obtain ⟨⟨seg, inp'⟩, hread, hturn⟩ := bind_eq_ok.mp hturn
  have hkept : ChunkKept limit { r with body_buf_ := seg } :=
    ⟨h.type, h.within, h.small, fun hunknown => by simp [hknown] at hunknown, h.holds.read hread⟩
  simp only at hturn
  split at hturn
  · obtain ⟨-, hr⟩ := Prod.mk.inj (Except.ok.inj hturn)
    rw [← (Prod.mk.inj hr).1]
    exact hkept
  · rename_i hfull
    exact hkept.suffix (by simpa using hfull) hturn

/-- A turn of the loop over chunks, where the sum of the sizes is a `size_t`. -/
theorem ChunkKept.turn (h : r.ChunkKept limit)
    (hsum : ∀ size, r.header_size inp = some size → r.state_.read + size < 2 ^ 64)
    (hturn : read_chunk limit r inp = .ok (t, r', out)) : r'.ChunkKept limit := by
  unfold read_chunk at hturn
  cases hknown : r.state_.next_chunk_size_known with
  | true =>
    rw [if_pos hknown] at hturn
    exact h.data hknown hturn
  | false =>
    rw [if_neg (by rw [hknown]; decide)] at hturn
    have hsize : r.header_size inp =
        if (r.chunk_header_buf_.read_until_string inp Message.CRLF).1.is_complete_ then
          parse_hexadecimal (r.chunk_header_buf_.read_until_string inp Message.CRLF).1.string_view
        else none := by
      unfold header_size
      rw [if_neg (by simp [h.type, hknown])]
    generalize r.chunk_header_buf_.read_until_string inp Message.CRLF = result at hturn hsize
    obtain ⟨header_buf, inp'⟩ := result
    simp only at hturn hsize
    split at hturn
    · obtain ⟨-, hr⟩ := Prod.mk.inj (Except.ok.inj hturn)
      rw [← (Prod.mk.inj hr).1]
      exact ⟨h.type, h.within, h.small, h.header, h.holds⟩
    · rename_i hfull
      rw [if_pos (by simpa using hfull)] at hsize
      obtain ⟨r₁, hset, hturn⟩ := bind_eq_ok.mp hturn
      unfold set_chunk_size at hset
      split at hset
      · cases hset
      · rename_i size hparse
        obtain ⟨seg, -, hset⟩ := bind_eq_ok.mp hset
        have hsmall := hsum size (hsize.trans hparse)
        rw [size_add_of_lt hsmall] at hset
        split at hset
        · cases hset
        · rename_i hlimit
          obtain rfl := Except.ok.inj hset
          obtain ⟨hzero, hopen⟩ := h.header hknown
          have hheld := h.holds.gathering hopen
          rw [hzero] at hheld
          have hkept : ChunkKept limit { r with
              chunk_header_buf_ := seg
              state_ := { r.state_ with
                expected_size := size, next_chunk_size_known := true } } := by
            refine ⟨h.type, Nat.le_of_not_lt hlimit, hsmall, fun hu => (by cases hu),
              ⟨fun _ => ⟨hheld.1, ?_⟩, fun hc => ?_⟩⟩
            · simp only
              omega
            · rw [hopen] at hc
              cases hc
          exact hkept.data rfl hturn

theorem header_size_some {size : Nat} (h : r.header_size inp = some size) :
    r.state_.type = .chunked ∧ r.state_.next_chunk_size_known = false ∧
      (r.chunk_header_buf_.read_until_string inp Message.CRLF).1.is_complete_ = true ∧
      parse_hexadecimal (r.chunk_header_buf_.read_until_string inp Message.CRLF).1.string_view =
        some size := by
  unfold header_size at h
  generalize r.chunk_header_buf_.read_until_string inp Message.CRLF = result at h ⊢
  obtain ⟨header_buf, inp'⟩ := result
  by_cases hcase : r.state_.type ≠ .chunked ∨ r.state_.next_chunk_size_known
  · rw [if_pos hcase] at h
    cases h
  · obtain ⟨htype, hknown⟩ := not_or.mp hcase
    rw [if_neg hcase] at h
    by_cases hfull : header_buf.is_complete_ = true
    · exact ⟨not_not.mp htype, by simpa using hknown, hfull, (if_pos hfull).symm.trans h⟩
    · have hnone := (if_neg hfull).symm.trans h
      cases hnone

/-- The size of a chunk that exceeds the limit is refused. -/
theorem read_chunk_refused {size : Nat} (h : r.header_size inp = some size)
    (hsum : r.state_.read + size < 2 ^ 64) (hlimit : limit < r.state_.read + size) :
    ∃ e, read_chunk limit r inp = .error e := by
  obtain ⟨-, hknown, hfull, hparse⟩ := header_size_some h
  unfold read_chunk
  rw [if_neg (by rw [hknown]; decide)]
  generalize r.chunk_header_buf_.read_until_string inp Message.CRLF = result at hfull hparse
  obtain ⟨header_buf, inp'⟩ := result
  simp only at hfull hparse
  simp only [hfull, Bool.not_true, Bool.false_eq_true, if_false, set_chunk_size, hparse,
    size_add_of_lt hsum, if_pos hlimit]
  cases header_buf.reset with
  | error e => exact ⟨e, rfl⟩
  | ok seg => exact ⟨default_error .body_size_too_large, rfl⟩

/-! ## Every body -/

/-- A body of a given size between two turns. -/
structure GivenKept (limit : Nat) (r : BodyReader) : Prop where
  type : r.state_.type = .given
  within : r.state_.expected_size ≤ limit
  holds : Holds r.body_buf_ 0 r.state_.expected_size

theorem GivenKept.turn (h : r.GivenKept limit) (hturn : r.read_given inp = .ok (r', out)) :
    r'.GivenKept limit := by
  unfold read_given at hturn
  obtain ⟨⟨seg, inp'⟩, hread, hturn⟩ := bind_eq_ok.mp hturn
  have hholds := h.holds.read hread
  simp only at hturn
  split at hturn
  · obtain ⟨rfl, -⟩ := Prod.mk.inj (Except.ok.inj hturn)
    exact ⟨h.type, h.within, hholds⟩
  · obtain ⟨rfl, -⟩ := Prod.mk.inj (Except.ok.inj hturn)
    exact ⟨h.type, h.within, hholds⟩

/-- A body until the end of the connection between two turns. -/
structure Stage.AllKept (limit : Nat) (s : Stage) : Prop where
  type : s.reader.state_.type = .all
  bare : s.reader.body_buf_.uncommitted = []
  arrived : s.reader.body_buf_.committed.length + s.input.length ≤ s.arrived
  within : s.reader.body_buf_.committed.length ≤ limit

/-- A call that would exceed by the count of some earlier read is refused. -/
theorem read_until_eof_refused
    (h : limit < size_add r.state_.read r.body_buf_.num_bytes_read_last_) :
    r.read_until_eof limit inp = .error (default_error .body_size_too_large) := by
  have hcount := read_all_count r.body_buf_ inp
  unfold read_until_eof
  simp only [CountedSegment.mark_as_incomplete, CountedSegment.bytes_last_read, hcount]
  rw [if_pos h]

end

section

variable {limit : Nat} {s : Stage} {r' : BodyReader} {out : Istream}

theorem Stage.AllKept.turn (h : s.AllKept limit) (hsound : s.Sound limit)
    (hturn : s.reader.read_until_eof limit (Istream.new s.input) = .ok (r', out)) :
    AllKept limit ⟨r', out.rdbuf, s.arrived⟩ := by
  have hsmall : s.arrived ≤ limit := by
    refine (hsound.all h.type).resolve_right fun hlarge => ?_
    rw [read_until_eof_refused hlarge] at hturn
    cases hturn
  obtain ⟨hlen, hbare⟩ := CountedSegment.read_all_bounds h.bare (Istream.new s.input)
  have harrived := h.arrived
  have hinput : (Istream.new s.input).rdbuf.length = s.input.length := rfl
  unfold read_until_eof at hturn
  simp only at hturn
  split at hturn
  · cases hturn
  · obtain ⟨rfl, rfl⟩ := Prod.mk.inj (Except.ok.inj hturn)
    refine ⟨h.type, hbare, ?_, ?_⟩
    · simp only [CountedSegment.mark_as_incomplete]
      omega
    · simp only [CountedSegment.mark_as_incomplete]
      omega

/-- What holds of every stage of a body. -/
inductive Stage.Keeps (limit : Nat) (s : Stage) : Prop where
  | chunked (kept : s.reader.ChunkKept limit)
  | given (kept : s.reader.GivenKept limit)
  | all (kept : s.AllKept limit)

theorem Stage.Keeps.turn (h : s.Keeps limit) (hsound : s.Sound limit)
    (hturn : s.reader.turn limit (Istream.new s.input) = .ok (r', out)) :
    Stage.Keeps limit ⟨r', out.rdbuf, s.arrived⟩ := by
  unfold BodyReader.turn at hturn
  cases h with
  | chunked kept =>
    rw [kept.type] at hturn
    cases hread : read_chunk limit s.reader (Istream.new s.input) with
    | error e =>
      simp only [hread] at hturn
      cases hturn
    | ok result =>
      obtain ⟨t, r, inp⟩ := result
      simp only [hread] at hturn
      obtain ⟨rfl, -⟩ := Prod.mk.inj (Except.ok.inj hturn)
      exact .chunked (kept.turn hsound.chunk hread)
  | given kept =>
    rw [kept.type] at hturn
    exact .given (kept.turn hturn)
  | all kept =>
    rw [kept.type] at hturn
    exact .all (kept.turn hsound hturn)

theorem Stage.Keeps.piece (h : s.Keeps limit) (piece : Text) :
    Stage.Keeps limit ⟨s.reader, s.input ++ piece, s.arrived + piece.length⟩ := by
  cases h with
  | chunked kept => exact .chunked kept
  | given kept => exact .given kept
  | all kept =>
    have harrived := kept.arrived
    refine .all ⟨kept.type, kept.bare, ?_, kept.within⟩
    simp only [List.length_append]
    omega

/-- What every stage keeps is within the limit. -/
theorem Stage.Keeps.kept (h : s.Keeps limit) : s.Kept limit := by
  have hheld : s.reader.held ≤ limit := by
    unfold held
    cases h with
    | chunked kept => exact Nat.le_trans kept.holds.length_le kept.within
    | given kept =>
      have hle := kept.holds.length_le
      have hwithin := kept.within
      omega
    | all kept =>
      rw [kept.bare]
      exact kept.within
  refine ⟨hheld, fun _ => ?_⟩
  exact Nat.le_trans (Nat.le_add_right _ _) hheld

/-- A turn that does not go wrong asks for no more than the limit, and refuses what exceeds it. -/
theorem Stage.Keeps.checked (h : s.Keeps limit) (hsound : s.Sound limit) : s.Checked limit := by
  refine ⟨hsound.chunk, ?_, ?_⟩
  · intro n hn
    unfold asked at hn
    cases h with
    | chunked kept =>
      rw [kept.type] at hn
      simp only at hn
      split at hn
      · obtain rfl := Option.some.inj hn
        exact Nat.le_trans (Nat.le_add_left _ _) kept.within
      · obtain ⟨size, hsize, hn⟩ := Option.bind_eq_some_iff.mp hn
        rw [size_add_of_lt (hsound.chunk size hsize)] at hn
        split at hn
        · cases hn
        · obtain rfl := Option.some.inj hn
          omega
    | given kept =>
      rw [kept.type] at hn
      obtain rfl := Option.some.inj hn
      exact kept.within
    | all kept =>
      rw [kept.type] at hn
      cases hn
  · rintro (⟨size, hsize, hlimit⟩ | ⟨htype, hlimit⟩)
    · obtain ⟨e, he⟩ := read_chunk_refused hsize (hsound.chunk size hsize) hlimit
      refine ⟨e, ?_⟩
      unfold BodyReader.turn
      rw [(header_size_some hsize).1]
      simp only [he]
      rfl
    · refine ⟨default_error .body_size_too_large, ?_⟩
      unfold BodyReader.turn
      rw [htype]
      exact read_until_eof_refused ((hsound.all htype).resolve_left (Nat.not_le_of_lt hlimit))

end

end BodyReader

namespace HttpParser

open BodyReader

/-- The first stage of a body. -/
theorem keeps_start {p : HttpParser} {mode : MessageMode} {type : BodySizeType} {size : Nat}
    (hidle : p.body.Idle) (hframing : p.expected_body_size mode = .ok (type, size))
    (hnone : type ≠ .none) {r : BodyReader}
    (hstart : p.body.start p.body_size_limit mode type size = .ok r) :
    Stage.Keeps p.body_size_limit ⟨r, [], 0⟩ := by
  unfold BodyReader.start at hstart
  split at hstart
  · cases hstart
  · rename_i hlimit
    obtain rfl := Except.ok.inj hstart
    have hholds : ∀ n m, Holds p.body.body_buf_ n m := by
      intro n m
      refine ⟨fun _ => ?_, fun hc => ?_⟩
      · rw [hidle.held.held, hidle.held.loose]
        exact ⟨Nat.zero_le _, Nat.zero_le _⟩
      · rw [hidle.held.open_] at hc
        cases hc
    cases type with
    | none => exact absurd rfl hnone
    | chunked =>
      obtain rfl := chunked_size hframing
      exact .chunked ⟨rfl, Nat.zero_le _, Nat.two_pow_pos 64, fun _ => ⟨rfl, hidle.held.open_⟩,
        hholds _ _⟩
    | given => exact .given ⟨rfl, Nat.le_of_not_lt hlimit, hholds _ _⟩
    | all =>
      refine .all ⟨rfl, hidle.held.loose, ?_, ?_⟩
      · simp only [hidle.held.held]
        exact Nat.le_refl _
      · simp only [hidle.held.held]
        exact Nat.zero_le _

/-- In every run whose turns do not go wrong, the memory that a body takes is within the limit,
whatever arrives and however, and the turns check what they should. -/
theorem a_sound_body_keeps_to_the_limit {p : HttpParser} {mode : MessageMode} {type : BodySizeType}
    {size : Nat} (hidle : p.body.Idle) (hframing : p.expected_body_size mode = .ok (type, size))
    (hnone : type ≠ .none) :
    (p.body_size_limit < size →
      p.body.start p.body_size_limit mode type size = .error (default_error .body_size_too_large)) ∧
    ∀ r, p.body.start p.body_size_limit mode type size = .ok r →
      ∀ s, Arrives p.body_size_limit (Stage.Sound p.body_size_limit) r s →
        s.Kept p.body_size_limit ∧
          (s.Sound p.body_size_limit → s.Checked p.body_size_limit) := by
  refine ⟨fun hlarge => if_pos hlarge, ?_⟩
  intro r hstart s hrun
  have hkeeps : s.Keeps p.body_size_limit := by
    induction hrun with
    | start => exact keeps_start hidle hframing hnone hstart
    | piece before piece ih => exact ih.piece piece
    | turn before unfinished may turn ih => exact ih.turn may turn
  exact ⟨hkeeps.kept, hkeeps.checked⟩

/-- A chunked body of a request that is about to be read, with the limit 4097. -/
def about_to_read : BodyReader :=
  { BodyReader.new with state_ := ⟨.request, .chunked, 0, 0, false, false⟩ }

/-- A chunk that comes in two pieces, and the end of the body. -/
theorem a_sound_body_keeps_to_the_limit_over_three_turns : ∃ s : Stage,
    Arrives 4097 (Stage.Sound 4097) about_to_read s ∧
      s.reader.body_buf_.string_view = text "hello" ∧ s.reader.state_.finished = true ∧
      s.Kept 4097 ∧ s.Checked 4097 := by
  have hfirst : Arrives 4097 (Stage.Sound 4097) about_to_read ⟨_, _, 6⟩ :=
    (Arrives.piece .start (text "5\r\nhel")).chunk rfl rfl (by decide) rfl
  have hlast : Arrives 4097 (Stage.Sound 4097) about_to_read ⟨_, _, 15⟩ :=
    ((hfirst.piece (text "lo\r\n0\r\n\r\n")).chunk rfl rfl (by decide) rfl).chunk
      rfl rfl (by decide) rfl
  obtain ⟨hkept, hchecked⟩ := (@a_sound_body_keeps_to_the_limit (a_request 4097
    (text "Transfer-Encoding") (text "chunked")) .request .chunked 0 idle_new (by decide)
    (by decide)).2 about_to_read (by decide) _ hlast
  refine ⟨_, hlast, by decide, by decide, hkept, hchecked ⟨?_, fun h => absurd h (by decide)⟩⟩
  show ∀ size ∈ header_size _ _, _
  decide

/-- With the count zero a body until the end of the connection takes all that is there. -/
theorem read_until_eof_takes {limit : Nat} {r : BodyReader} {w : Text}
    (hheld : r.body_buf_.Open []) (hcount : r.body_buf_.num_bytes_read_last_ = 0)
    (hread : r.state_.read = 0) (hblank : ∀ c ∈ w, isspace c = false) :
    ∃ r' out, r.read_until_eof limit (Istream.new w) = .ok (r', out) ∧
      r'.body_buf_.committed = w := by
  have hcharacters : (Istream.new w).characters = (w, ⟨[], true, true⟩) := by
    have hfilter : w.filter (fun c => !isspace c) = w := by
      apply List.filter_eq_self.mpr
      intro c hc
      rw [hblank c hc]
      rfl
    unfold Istream.characters
    rw [if_pos (Istream.good_new w)]
    exact Prod.ext hfilter rfl
  have hall : r.body_buf_.read_all (Istream.new w) =
      (⟨⟨true, w, []⟩, 0⟩, ⟨[], true, true⟩) := by
    unfold CountedSegment.read_all
    rw [if_neg (by rw [hheld.open_]; decide), hcharacters, hheld.held, hcount]
    rfl
  have hsum : size_add 0 0 = 0 := rfl
  unfold read_until_eof
  rw [hall]
  simp only [CountedSegment.mark_as_incomplete, CountedSegment.bytes_last_read, hread, hsum,
    Nat.not_lt_zero, if_false]
  exact ⟨_, _, rfl, rfl⟩

/-- The sum of a chunk of one byte and one of 2^64 - 1 bytes wraps, and the body of a response until
the end of the connection is taken without a look at its size. -/
theorem the_limit_is_passed :
    (∃ r s, BodyReader.new.start 4097 .request .chunked 0 = .ok r ∧
      Arrives 4097 (fun _ => True) r s ∧ ¬ s.Checked 4097) ∧
    ∃ r s, BodyReader.new.start 4097 .response .all 0 = .ok r ∧
      Arrives 4097 (fun _ => True) r s ∧ ¬ s.Kept 4097 := by
  constructor
  · refine ⟨about_to_read, _, rfl, .turn (.piece .start
      (text "1\r\na\r\nffffffffffffffff\r\n")) rfl trivial rfl, ?_⟩
    intro h
    have hsum := h.sum (2 ^ 64 - 1) (by decide)
    revert hsum
    decide
  · obtain ⟨w, hlen, hblank⟩ : ∃ w : Text, w.length = 4098 ∧ ∀ c ∈ w, isspace c = false := by
      refine ⟨List.replicate 4098 97, List.length_replicate, ?_⟩
      intro c hc
      rw [List.eq_of_mem_replicate hc]
      rfl
    obtain ⟨r', out, hturn, hw⟩ := @read_until_eof_takes 4097 { BodyReader.new with
      state_ := ⟨.response, .all, 4097, 0, false, false⟩ } w idle_new.held rfl rfl hblank
    refine ⟨_, _, rfl, .turn (.piece .start w) rfl trivial hturn, ?_⟩
    intro h
    have hheld := h.held
    simp only [held, hw, hlen] at hheld
    omega

end HttpParser

end proxy.http.http1
