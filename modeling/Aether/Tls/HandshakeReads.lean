-- For which divisions into reads the record of a Client Hello is collected.
--
-- Behind the header, a read of `n` bytes counts `n - 5`. What it copies is all
-- that has come, so the memory is right where the count is not, until a read of
-- fewer than five bytes: the size then wraps around, and the reader takes the
-- body for complete.
import Aether.Tls.HandshakeReader

open util.buffer lib.filled

namespace proxy.tls.handshake

/-- A reader that waits for the header. It has the first `j` bytes of the record. -/
structure AtHeader (w : List UInt8) (j : Nat) (reader : HandshakeReader) : Prop where
  unknown : reader.known_length_ = false
  holds : Holds w 0 j j buffer_delta reader.segment_

/-- A reader behind the header. It counts `e` bytes of the body, and has the first `k` bytes of the
record. -/
structure AtBody (r : Record) (e k : Nat) (reader : HandshakeReader) : Prop where
  known : reader.known_length_ = true
  length : reader.length_ = r.body.length
  holds : ∃ m, (r.body.length ≤ m ∨ e = 0) ∧ Holds r.bytes 5 e k m reader.segment_
  missing : e < r.body.length

/-- A reader that has committed another header. -/
structure Misled (w : List UInt8) (reader : HandshakeReader) : Prop where
  known : reader.known_length_ = true
  small : reader.length_ < 2 ^ 16
  reading : Reading 5 reader.length_ reader.segment_
  other : reader.segment_.buffer_.buffer_.take 5 ≠ w.take 5

namespace AtHeader

theorem new (w : List UInt8) : AtHeader w 0 .new := ⟨rfl, Holds.new w⟩

end AtHeader

/-! ## Behind the header -/

namespace AtBody

variable {r : Record} {e k : Nat} {reader : HandshakeReader} {buf : List UInt8}

/-- A read of five bytes or more goes on, unless it is the whole body. -/
theorem read_on (h : AtBody r e k reader) (hbuf : buf <+: r.bytes) {n : Nat} (hfive : 5 ≤ n)
    (hshort : e + (n - 5) < r.body.length) (hcame : e + n ≤ buf.length) :
    ∃ more, reader.read_body buf n = .ok more ∧ more.remaining ≠ 0 ∧
      AtBody r (e + (n - 5)) (max k buf.length) more.reader := by
  obtain ⟨m, hm, hholds⟩ := h.holds
  have hsmall := r.body_small
  have hle := hbuf.length_le
  rw [r.length_bytes] at hle
  obtain ⟨seg, hread, hseg⟩ := hholds.read_short hbuf h.missing (by omega) hfive (by omega)
    (by omega) hcame (by omega) hle
  have hcount : size_sub r.body.length (e + (n - 5)) = r.body.length - (e + (n - 5)) :=
    size_sub_of_le (by omega) (by omega)
  refine ⟨⟨{ reader with segment_ := seg }, r.body.length - (e + (n - 5))⟩, ?_, ?_, ?_⟩
  · unfold HandshakeReader.read_body
    rw [h.length, hread]
    simp only [bind, Except.bind, hseg.open_, Bool.false_eq_true, if_false,
      ConstBufferSegment.bytes_not_committed, hseg.count, hcount]
    rfl
  · simp only
    omega
  · exact ⟨h.known, h.length, ⟨_, by omega, hseg⟩, hshort⟩

/-- A read of fewer than five bytes, or of the whole body, finishes. -/
theorem read_done (h : AtBody r e k reader) (hbuf : buf <+: r.bytes) {n : Nat} (hn : n < 2 ^ 64)
    (hdone : n < 5 ∨ r.body.length - e ≤ n - 5) (htwice : 2 * e ≤ r.body.length)
    (hcame : 5 + (r.body.length - e) ≤ buf.length) :
    ∃ done, reader.read_body buf n = .ok done ∧ done.remaining = 0 ∧
      (done.reader.get_bytes = r.bytes ↔
        ∀ x ∈ r.bytes.drop (max k (5 + (r.body.length - e))), x = 0) := by
  obtain ⟨m, hm, hholds⟩ := h.holds
  have hmissing := h.missing
  have hsmall := r.body_small
  have henough : r.body.length - e ≤ size_sub n 5 := by
    unfold size_sub
    omega
  obtain ⟨seg, hread, hseg⟩ := hholds.read_enough hbuf hmissing (by omega) henough (by omega)
    (by omega) hcame
  refine ⟨⟨{ reader with segment_ := seg }, 0⟩, ?_, rfl, ?_⟩
  · unfold HandshakeReader.read_body
    rw [h.length, hread]
    simp only [bind, Except.bind, hseg.closed, if_true]
    rfl
  · have hall : r.bytes.take (5 + r.body.length) = r.bytes :=
      List.take_of_length_le (by rw [r.length_bytes])
    have hiff := hseg.committed_data_iff (by rw [r.length_bytes])
    unfold part at hiff
    rwa [hall] at hiff

/-- Such a read copies backwards, or bytes that have not come. -/
theorem read_outside (h : AtBody r e k reader) {n : Nat} (hn : n < 2 ^ 64)
    (hdone : n < 5 ∨ r.body.length - e ≤ n - 5)
    (hout : ¬ (2 * e ≤ r.body.length ∧ 5 + (r.body.length - e) ≤ buf.length)) :
    reader.read_body buf n = .error .undefined := by
  obtain ⟨m, hm, hholds⟩ := h.holds
  have hmissing := h.missing
  have hsmall := r.body_small
  have henough : r.body.length - e ≤ size_sub n 5 := by
    unfold size_sub
    omega
  unfold HandshakeReader.read_body
  rw [h.length, hholds.read_outside hmissing (by omega) henough (by omega)]
  rfl

theorem read_eq (h : AtBody r e k reader) (buf : List UInt8) (n : Nat) :
    reader.read buf n = reader.read_body buf n := by
  unfold HandshakeReader.read
  rw [h.known, if_pos rfl]

end AtBody

/-- The reads behind the header collect the record iff they land. -/
theorem body_collects_iff {r : Record} {e : Nat} {reader : HandshakeReader} {input : List UInt8}
    {reads : List (List UInt8)} (h : AtBody r e input.length reader)
    (hjoin : input ++ reads.flatten = r.bytes) (hsome : ∀ bytes ∈ reads, bytes ≠ [])
    (hbehind : e + 5 ≤ input.length) :
    Collects reader input reads ↔ Lands r e reads := by
  induction reads generalizing e reader input with
  | nil =>
    constructor
    · intro hc
      exact absurd hc (by simp [Collects])
    · rintro ⟨steps, last, heq, -⟩
      simp at heq
  | cons bytes reads ih =>
    have hlen := congrArg List.length hjoin
    simp only [List.flatten_cons, List.length_append, r.length_bytes] at hlen
    have hsmall := r.body_small
    have hpos : 0 < bytes.length := List.length_pos_iff.mpr (hsome _ List.mem_cons_self)
    have hbuf : (input ++ bytes) <+: r.bytes := by
      refine ⟨reads.flatten, ?_⟩
      rw [← hjoin, List.flatten_cons, List.append_assoc]
    have hin : (input ++ bytes).length = input.length + bytes.length := List.length_append
    rcases reads with _ | ⟨next, reads⟩
    · -- The last read. It finishes iff it is short.
      rw [lands_singleton]
      simp only [List.flatten_nil, List.length_nil] at hlen
      have hinput : input ++ bytes = r.bytes := by simpa using hjoin
      by_cases hfive : 5 ≤ bytes.length
      · obtain ⟨more, hread, hmore, -⟩ := h.read_on hbuf hfive (by omega) (by omega)
        constructor
        · rintro ⟨done, hdone, hzero, -⟩
          rw [h.read_eq, hread] at hdone
          cases hdone
          exact absurd hzero hmore
        · rintro ⟨hfew, -⟩
          omega
      · by_cases htwice : 2 * e ≤ r.body.length
        · obtain ⟨done, hread, hzero, hiff⟩ := h.read_done hbuf (n := bytes.length) (by omega)
            (by omega) htwice (by omega)
          have hplace : max input.length (5 + (r.body.length - e)) =
              r.bytes.length - min bytes.length e := by
            rw [r.length_bytes]; omega
          rw [hplace] at hiff
          constructor
          · rintro ⟨done', hdone', -, hbytes⟩
            rw [h.read_eq, hread] at hdone'
            cases hdone'
            rw [hinput] at hbytes
            exact ⟨by omega, htwice, hiff.mp hbytes⟩
          · rintro ⟨-, -, hall⟩
            exact ⟨done, by rw [h.read_eq, hread], hzero, by rw [hinput]; exact hiff.mpr hall⟩
        · have hread : reader.read_body (input ++ bytes) bytes.length = .error .undefined :=
            h.read_outside (by omega) (by omega) (by omega)
          constructor
          · rintro ⟨done, hdone, -⟩
            rw [h.read_eq, hread] at hdone
            cases hdone
          · rintro ⟨-, htwice', -⟩
            omega
    · -- More is to come, so this one may not finish.
      rw [lands_cons]
      have hnext : 0 < next.length :=
        List.length_pos_iff.mpr (hsome _ (List.mem_cons_of_mem _ List.mem_cons_self))
      simp only [List.flatten_cons, List.length_append] at hlen
      by_cases hfive : 5 ≤ bytes.length
      · obtain ⟨more, hread, hmore, hbody⟩ := h.read_on hbuf hfive (by omega) (by omega)
        rw [show max input.length (input ++ bytes).length = (input ++ bytes).length by omega]
          at hbody
        have hrest := ih hbody (by rw [← hjoin]; simp)
          (fun b hb => hsome b (List.mem_cons_of_mem _ hb)) (by omega)
        constructor
        · rintro ⟨more', hmore', -, hc⟩
          rw [h.read_eq, hread] at hmore'
          cases hmore'
          exact ⟨hfive, hrest.mp hc⟩
        · rintro ⟨-, hl⟩
          exact ⟨more, by rw [h.read_eq, hread], hmore, hrest.mpr hl⟩
      · constructor
        · rintro ⟨more, hread', hmore, -⟩
          rw [h.read_eq] at hread'
          by_cases hin' : 2 * e ≤ r.body.length ∧ 5 + (r.body.length - e) ≤ (input ++ bytes).length
          · obtain ⟨done, hread, hzero, -⟩ := h.read_done hbuf (n := bytes.length) (by omega)
              (by omega) hin'.1 hin'.2
            rw [hread] at hread'
            cases hread'
            exact absurd hzero hmore
          · rw [h.read_outside (by omega) (by omega) hin'] at hread'
            cases hread'
        · rintro ⟨hfive', -⟩
          exact absurd hfive' hfive

/-! ## A wrong header -/

namespace Misled

variable {w : List UInt8} {reader : HandshakeReader} {buf : List UInt8} {n : Nat}
  {more : RecordRead}

/-- What was committed stays, so the record cannot come out any more. -/
theorem read_body (h : Misled w reader) (hread : reader.read_body buf n = .ok more) :
    (Misled w more.reader ∨ more.remaining = 0) ∧ more.reader.get_bytes ≠ w := by
  have hsmall := h.small
  unfold HandshakeReader.read_body at hread
  rcases hs : reader.segment_.read_up_to_bytes buf reader.length_ n with err | seg
  · rw [hs] at hread
    cases hread
  rw [hs] at hread
  cases hread
  obtain ⟨hnext, hkeep⟩ := h.reading.read_keeps (by omega) hs
  constructor
  · rcases hnext with hnext | hclosed
    · refine .inl ⟨h.known, hsmall, hnext, ?_⟩
      rw [hnext.committed_data_eq, List.take_take, Nat.min_self] at hkeep
      simp only [hkeep]
      exact h.other
    · right
      simp only [hclosed, if_true]
  · intro heq
    apply h.other
    rw [← hkeep]
    exact congrArg (List.take 5) heq

theorem read_eq (h : Misled w reader) (buf : List UInt8) (n : Nat) :
    reader.read buf n = reader.read_body buf n := by
  unfold HandshakeReader.read
  rw [h.known, if_pos rfl]

end Misled

/-- With a wrong header the reads never collect the record. -/
theorem misled_not_collects {w : List UInt8} {reader : HandshakeReader} {input : List UInt8}
    {reads : List (List UInt8)} (h : Misled w reader) (hjoin : input ++ reads.flatten = w) :
    ¬ Collects reader input reads := by
  induction reads generalizing reader input with
  | nil =>
    intro hc
    exact hc
  | cons bytes reads ih =>
    rcases reads with _ | ⟨next, reads⟩
    · rintro ⟨done, hread, -, hbytes⟩
      rw [h.read_eq] at hread
      apply (h.read_body hread).2
      rw [hbytes, ← hjoin]
      simp
    · rintro ⟨more, hread, hmore, hc⟩
      rw [h.read_eq] at hread
      rcases (h.read_body hread).1 with hnext | hzero
      · exact ih hnext (by rw [← hjoin]; simp) hc
      · exact hmore hzero

/-! ## The header -/

namespace AtHeader

variable {r : Record} {j : Nat} {reader : HandshakeReader} {buf : List UInt8} {n : Nat}

theorem delta_wide (j : Nat) : 5 ≤ max buffer_delta (5 - j) := 
  Nat.le_trans (show 5 ≤ buffer_delta by decide) (Nat.le_max_left _ _)

theorem read_on (h : AtHeader r.bytes j reader) (hbuf : buf <+: r.bytes)
    (hlen : buf.length = j + n) (hshort : j + n < 5) :
    ∃ more, reader.read buf n = .ok more ∧ more.remaining ≠ 0 ∧
      AtHeader r.bytes (j + n) more.reader := by
  have hdelta : max buffer_delta (5 - j) = buffer_delta := by
    have h128 : buffer_delta = 128 := rfl
    omega
  have hkept : max j buf.length = j + n := by omega
  obtain ⟨seg, hread, hseg⟩ : ∃ seg, reader.segment_.read_up_to_bytes buf 5 n = .ok seg ∧
      Holds r.bytes 0 (j + (n - 0)) (max j buf.length) (max buffer_delta (5 - j)) seg :=
    h.holds.read_short hbuf (by omega) (by omega) (Nat.zero_le n) (by omega) (by omega) (by omega)
      (delta_wide j) (by omega)
  rw [Nat.sub_zero, hdelta, hkept] at hseg
  have hcount : size_sub 5 (j + n) = 5 - (j + n) := size_sub_of_le (by omega) (by omega)
  refine ⟨⟨{ reader with segment_ := seg }, 5 - (j + n)⟩, ?_, ?_, h.unknown, hseg⟩
  · unfold HandshakeReader.read
    rw [h.unknown, if_neg Bool.false_ne_true, record_header_length, hread]
    simp only [bind, Except.bind, hseg.open_, Bool.false_eq_true, if_false,
      ConstBufferSegment.bytes_not_committed, hseg.count, hcount]
    rfl
  · simp only
    omega

/-- The first three bytes of the header are there, and the others may be zero. -/
theorem header_eq {k : Nat} {seg : ConstBufferSegment} (h : Complete r.bytes 5 k seg)
    (hk : 3 ≤ k) : ∃ x3 x4, seg.committed_data = [0x16, 0x03, r.minor, x3, x4] := by
  have hwide := h.wide
  have hsame := h.filled.same
  rw [h.committed_data_eq]
  match hv : seg.buffer_.buffer_, hwide with
  | x0 :: x1 :: x2 :: x3 :: x4 :: rest, _ =>
    rw [hv] at hsame
    have h0 : x0 = 0x16 := by simpa [Record.bytes] using hsame 0 (by omega)
    have h1 : x1 = 0x03 := by simpa [Record.bytes] using hsame 1 (by omega)
    have h2 : x2 = r.minor := by simpa [Record.bytes] using hsame 2 (by omega)
    exact ⟨x3, x4, by rw [h0, h1, h2]; rfl⟩

/-- With five bytes or more there is a header, of which the last `j` bytes were not copied. -/
theorem read_header (h : AtHeader r.bytes j reader) (hbuf : buf <+: r.bytes)
    (hlen : buf.length = j + n) (hn : n < 2 ^ 64) (hfive : 5 ≤ j + n) (hj : j ≤ 2) :
    ∃ x3 x4 seg, Complete r.bytes 5 (max j (5 - j)) seg ∧
      seg.committed_data = [0x16, 0x03, r.minor, x3, x4] ∧
      reader.read buf n =
        HandshakeReader.read_body ⟨seg.mark_as_incomplete, concat x3 x4, true⟩ buf n := by
  have henough : 5 - j ≤ size_sub n 0 := by
    unfold size_sub
    omega
  obtain ⟨seg, hread, hseg⟩ : ∃ seg, reader.segment_.read_up_to_bytes buf 5 n = .ok seg ∧
      Complete r.bytes (0 + 5) (max j (0 + (5 - j))) seg :=
    h.holds.read_enough hbuf (by omega) (by omega) henough (delta_wide j) (by omega) (by omega)
  rw [Nat.zero_add, Nat.zero_add] at hseg
  obtain ⟨x3, x4, hdata⟩ := header_eq hseg (by omega)
  have hmarked : seg.mark_as_incomplete.committed_data = [0x16, 0x03, r.minor, x3, x4] := hdata
  refine ⟨x3, x4, seg, hseg, hdata, ?_⟩
  unfold HandshakeReader.read
  rw [h.unknown, if_neg Bool.false_ne_true, record_header_length, hread]
  simp only [bind, Except.bind, hseg.closed, if_true, hmarked, r.is_tls]

/-- If these bytes are zero, the reader goes on with the body. -/
theorem read_right (h : AtHeader r.bytes j reader) (hbuf : buf <+: r.bytes)
    (hlen : buf.length = j + n) (hn : n < 2 ^ 64) (hfive : 5 ≤ j + n) (hj : j ≤ 2)
    (hzero : ∀ x ∈ part r.bytes (max j (5 - j)) 5, x = 0) :
    ∃ reader', AtBody r 0 5 reader' ∧ reader.read buf n = reader'.read_body buf n := by
  obtain ⟨x3, x4, seg, hseg, hdata, hread⟩ := h.read_header hbuf hlen hn hfive hj
  have hw : 5 ≤ r.bytes.length := by rw [r.length_bytes]; omega
  have hheader : seg.committed_data = [0x16, 0x03, r.minor, r.high, r.low] :=
    (hseg.committed_data_iff hw).mpr hzero
  rw [hdata] at hheader
  simp only [List.cons.injEq, and_true, true_and] at hheader
  have hlength : concat x3 x4 = r.body.length := by
    rw [hheader.1, hheader.2, r.concat_length]
  have hfull : Complete r.bytes 5 5 seg :=
    { hseg with filled := hseg.filled.extend (by omega) hw hseg.wide hzero }
  exact ⟨_, ⟨rfl, hlength, ⟨0, .inr rfl, hfull.reopen (Nat.le_refl 5)⟩, r.body_pos⟩, hread⟩

/-- If they are not, it goes on with another length, and never gets over it. -/
theorem read_wrong (h : AtHeader r.bytes j reader) (hbuf : buf <+: r.bytes)
    (hlen : buf.length = j + n) (hn : n < 2 ^ 64) (hfive : 5 ≤ j + n) (hj : j ≤ 2)
    (hzero : ¬ ∀ x ∈ part r.bytes (max j (5 - j)) 5, x = 0) :
    ∃ reader', Misled r.bytes reader' ∧ reader.read buf n = reader'.read_body buf n := by
  obtain ⟨x3, x4, seg, hseg, hdata, hread⟩ := h.read_header hbuf hlen hn hfive hj
  have hw : 5 ≤ r.bytes.length := by rw [r.length_bytes]; omega
  have hsmall : concat x3 x4 < 2 ^ 16 := Nat.mod_lt _ (by decide)
  refine ⟨_, ⟨rfl, hsmall, ?_, ?_⟩, hread⟩
  · refine ⟨rfl, hseg.start, hseg.put, hseg.room, hseg.wide, hseg.small, ?_⟩
    exact Nat.le_trans (Nat.le_of_eq hseg.count) (Nat.zero_le _)
  · intro heq
    apply hzero
    rw [← hseg.committed_data_iff hw, hseg.committed_data_eq]
    exact heq

/-- Three or four bytes of the header are more than what is left of it, and the copy goes
backwards. -/
theorem read_outside (h : AtHeader r.bytes j reader) (hj : j < 5) (hn : n < 2 ^ 64)
    (hfive : 5 ≤ j + n) (hthree : 3 ≤ j) : reader.read buf n = .error .undefined := by
  have henough : 5 - j ≤ size_sub n 0 := by
    unfold size_sub
    omega
  unfold HandshakeReader.read
  rw [h.unknown, if_neg Bool.false_ne_true, record_header_length,
    h.holds.read_outside hj (by omega) henough (by omega)]
  rfl

end AtHeader

/-! ## Which reads collect the record -/

section collects

variable {r : Record} {reader reader' : HandshakeReader} {input bytes : List UInt8}
  {reads : List (List UInt8)}

theorem collects_congr
    (h : reader.read (input ++ bytes) bytes.length = reader'.read (input ++ bytes) bytes.length) :
    Collects reader input (bytes :: reads) ↔ Collects reader' input (bytes :: reads) := by
  rcases reads with _ | ⟨next, reads⟩ <;> simp only [Collects, h]

theorem collects_ok (h : Collects reader input (bytes :: reads)) :
    ∃ read, reader.read (input ++ bytes) bytes.length = .ok read := by
  rcases reads with _ | ⟨next, reads⟩
  · obtain ⟨done, hread, -⟩ := h
    exact ⟨done, hread⟩
  · obtain ⟨more, hread, -⟩ := h
    exact ⟨more, hread⟩

/-- A read that asks for more leaves the collection to the others. -/
theorem collects_more {more : RecordRead}
    (hread : reader.read (input ++ bytes) bytes.length = .ok more) (hmore : more.remaining ≠ 0) :
    Collects reader input (bytes :: reads) ↔
      reads ≠ [] ∧ Collects more.reader (input ++ bytes) reads := by
  rcases reads with _ | ⟨next, reads⟩
  · constructor
    · rintro ⟨done, hdone, hzero, -⟩
      rw [hread] at hdone
      cases hdone
      exact absurd hzero hmore
    · rintro ⟨hne, -⟩
      exact absurd rfl hne
  · constructor
    · rintro ⟨more', hmore', -, hc⟩
      rw [hread] at hmore'
      cases hmore'
      exact ⟨by simp, hc⟩
    · rintro ⟨-, hc⟩
      exact ⟨more, hread, hmore, hc⟩

/-- The read that completes the header. -/
theorem start_collects_iff (h : AtBody r 0 5 reader')
    (hread : reader.read (input ++ bytes) bytes.length =
      reader'.read_body (input ++ bytes) bytes.length)
    (hjoin : input ++ (bytes :: reads).flatten = r.bytes) (hsome : ∀ b ∈ reads, b ≠ [])
    (hin : input.length ≤ 1) (hfive : 5 ≤ input.length + bytes.length)
    (hpart : bytes.length < r.bytes.length) :
    Collects reader input (bytes :: reads) ↔ Lands r 0 (bytes :: reads) := by
  have hlen := congrArg List.length hjoin
  have hpos := r.body_pos
  have hsmall := r.body_small
  have hbuf : (input ++ bytes) <+: r.bytes := by
    refine ⟨reads.flatten, ?_⟩
    rw [← hjoin, List.flatten_cons, List.append_assoc]
  have hboth : (input ++ bytes).length = input.length + bytes.length := List.length_append
  simp only [List.flatten_cons, List.length_append, r.length_bytes] at hlen hpart
  by_cases hn : 5 ≤ bytes.length
  · obtain ⟨more, hmore, hne, hbody⟩ := h.read_on hbuf hn (by omega) (by omega)
    rw [show max 5 (input ++ bytes).length = (input ++ bytes).length by omega, Nat.zero_add]
      at hbody
    rw [collects_more (hread.trans hmore) hne]
    rcases reads with _ | ⟨next, reads⟩
    · rw [lands_singleton]
      constructor
      · rintro ⟨hempty, -⟩
        exact absurd rfl hempty
      · rintro ⟨hfew, -⟩
        omega
    · rw [lands_cons, Nat.zero_add,
        body_collects_iff hbody (by rw [← hjoin]; simp) hsome (by omega)]
      simp [hn]
  · constructor
    · intro hc
      obtain ⟨done, hdone⟩ := collects_ok hc
      rw [hread, h.read_outside (by omega) (by omega) (by omega)] at hdone
      cases hdone
    · intro hl
      rcases reads with _ | ⟨next, reads⟩
      · simp only [List.flatten_nil, List.length_nil] at hlen
        omega
      · exact absurd (lands_cons.mp hl).1 hn

/-- Two, three or four bytes of the header that came before the rest of it are too many. -/
theorem late_not_collects {j : Nat} (h : AtHeader r.bytes j reader) (hj : 2 ≤ j) (hj' : j < 5)
    (hin : input.length = j) (hjoin : input ++ reads.flatten = r.bytes) :
    ¬ Collects reader input reads := by
  induction reads generalizing j reader input with
  | nil =>
    intro hc
    exact hc
  | cons bytes reads ih =>
    intro hc
    have hlen := congrArg List.length hjoin
    have hpos := r.body_pos
    have hsmall := r.body_small
    have hbuf : (input ++ bytes) <+: r.bytes := by
      refine ⟨reads.flatten, ?_⟩
      rw [← hjoin, List.flatten_cons, List.append_assoc]
    have hboth : (input ++ bytes).length = j + bytes.length := by rw [List.length_append, hin]
    simp only [List.flatten_cons, List.length_append, r.length_bytes] at hlen
    by_cases hfive : j + bytes.length < 5
    · obtain ⟨more, hread, hmore, hnext⟩ := h.read_on hbuf hboth hfive
      rw [collects_more hread hmore] at hc
      exact ih hnext (by omega) hfive hboth (by rw [← hjoin]; simp) hc.2
    by_cases hthree : 3 ≤ j
    · obtain ⟨done, hdone⟩ := collects_ok hc
      rw [h.read_outside hj' (by omega) (by omega) hthree] at hdone
      cases hdone
    · obtain rfl : j = 2 := by omega
      have hzero : ¬ ∀ x ∈ part r.bytes (max 2 (5 - 2)) 5, x = 0 := by
        intro hz
        have hhigh : r.high = 0 := hz r.high (by simp [part, Record.bytes])
        have hlow : r.low = 0 := hz r.low (by simp [part, Record.bytes])
        have hstated := r.stated
        rw [hhigh, hlow] at hstated
        exact absurd hstated (Nat.ne_of_gt hpos)
      obtain ⟨reader', hmisled, hread⟩ :=
        h.read_wrong hbuf hboth (by omega) (by omega) (Nat.le_refl 2) hzero
      rw [← hmisled.read_eq] at hread
      rw [collects_congr hread] at hc
      exact misled_not_collects hmisled hjoin hc

/-- Behind a first read of one byte, the low byte of the length is not copied. -/
theorem one_collects_iff (h : AtHeader r.bytes 1 reader) (hin : input.length = 1)
    (hjoin : input ++ reads.flatten = r.bytes) (hsome : ∀ b ∈ reads, b ≠ []) :
    Collects reader input reads ↔ r.low = 0 ∧ Lands r 0 reads := by
  rcases reads with _ | ⟨bytes, reads⟩
  · constructor
    · intro hc
      exact absurd hc (by simp [Collects])
    · rintro ⟨-, steps, last, heq, -⟩
      simp at heq
  have hlen := congrArg List.length hjoin
  have hpos := r.body_pos
  have hsmall := r.body_small
  have hn : 0 < bytes.length := List.length_pos_iff.mpr (hsome _ List.mem_cons_self)
  have hbuf : (input ++ bytes) <+: r.bytes := by
    refine ⟨reads.flatten, ?_⟩
    rw [← hjoin, List.flatten_cons, List.append_assoc]
  have hboth : (input ++ bytes).length = 1 + bytes.length := by rw [List.length_append, hin]
  have hrest : ∀ b ∈ reads, b ≠ [] := fun b hb => hsome b (List.mem_cons_of_mem _ hb)
  simp only [List.flatten_cons, List.length_append, r.length_bytes] at hlen
  by_cases hfive : 1 + bytes.length < 5
  · obtain ⟨more, hread, hmore, hnext⟩ := h.read_on hbuf hboth hfive
    constructor
    · intro hc
      rw [collects_more hread hmore] at hc
      exact absurd hc.2 (late_not_collects hnext (by omega) hfive hboth (by rw [← hjoin]; simp))
    · rintro ⟨-, hl⟩
      rcases reads with _ | ⟨next, reads⟩
      · simp only [List.flatten_nil, List.length_nil] at hlen
        omega
      · have hnfive := (lands_cons.mp hl).1
        omega
  · have hmem : part r.bytes (max 1 (5 - 1)) 5 = [r.low] := by simp [part, Record.bytes]
    by_cases hlow : r.low = 0
    · obtain ⟨reader', hbody, hread⟩ := h.read_right hbuf hboth (by omega) (by omega) (by omega)
        (by rw [hmem]; simpa using hlow)
      rw [start_collects_iff hbody hread hjoin hrest (by omega) (by omega)
        (by rw [r.length_bytes]; omega)]
      simp [hlow]
    · obtain ⟨reader', hmisled, hread⟩ := h.read_wrong hbuf hboth (by omega) (by omega) (by omega)
        (by rw [hmem]; simpa using hlow)
      rw [← hmisled.read_eq] at hread
      rw [collects_congr hread]
      constructor
      · intro hc
        exact absurd hc (misled_not_collects hmisled hjoin)
      · rintro ⟨hzero, -⟩
        exact absurd hzero hlow

end collects

/-- The reads of a record collect it iff it comes at once, or its reads land, or they land behind a
first read of one byte and the low byte of the length is zero. -/
theorem a_record_is_collected_iff_its_reads_land (r : Record) (reads : List (List UInt8))
    (hjoin : reads.flatten = r.bytes) (hsome : ∀ bytes ∈ reads, bytes ≠ []) :
    Collects .new [] reads ↔ reads = [r.bytes] ∨ Lands r 0 reads ∨
      ∃ first rest, reads = [first] :: rest ∧ r.low = 0 ∧ Lands r 0 rest := by
  rcases reads with _ | ⟨bytes, reads⟩
  · simp [Record.bytes] at hjoin
  have hlen := congrArg List.length hjoin
  have hpos := r.body_pos
  have hsmall := r.body_small
  have hn : 0 < bytes.length := List.length_pos_iff.mpr (hsome _ List.mem_cons_self)
  have hrest : ∀ b ∈ reads, b ≠ [] := fun b hb => hsome b (List.mem_cons_of_mem _ hb)
  have hbuf : ([] ++ bytes) <+: r.bytes := ⟨reads.flatten, by rw [← hjoin]; simp⟩
  have hboth : ([] ++ bytes).length = 0 + bytes.length := by simp
  have hjoin' : [] ++ (bytes :: reads).flatten = r.bytes := hjoin
  simp only [List.flatten_cons, List.length_append, r.length_bytes] at hlen
  by_cases hfive : 5 ≤ bytes.length
  · obtain ⟨reader', hbody, hread⟩ := (AtHeader.new r.bytes).read_right hbuf hboth (by omega)
      (by omega) (by omega) (by simp [part, Record.bytes])
    by_cases hall : bytes.length = r.bytes.length
    · -- All of it in one read.
      rw [r.length_bytes] at hall
      obtain rfl : reads = [] := by
        rcases reads with _ | ⟨next, reads⟩
        · rfl
        · have hnext := List.length_pos_iff.mpr (hrest next List.mem_cons_self)
          simp only [List.flatten_cons, List.length_append] at hlen
          omega
      obtain rfl : bytes = r.bytes := by simpa using hjoin
      obtain ⟨done, hdone, hzero, hiff⟩ := hbody.read_done hbuf (n := r.bytes.length) (by omega)
        (by omega) (by omega) (by omega)
      constructor
      · intro _
        exact .inl rfl
      · intro _
        refine ⟨done, hread.trans hdone, hzero, hiff.mpr ?_⟩
        rw [List.drop_of_length_le (by omega)]
        simp
    · rw [start_collects_iff hbody hread hjoin' hrest (Nat.zero_le 1) (by simpa using hfive)
        (by rw [r.length_bytes] at hall ⊢; omega)]
      constructor
      · intro hl
        exact .inr (.inl hl)
      · rintro (heq | hl | ⟨first, rest, heq, -⟩)
        · cases heq
          exact absurd rfl hall
        · exact hl
        · cases heq
          simp at hfive
  · obtain ⟨more, hread, hmore, hnext⟩ := (AtHeader.new r.bytes).read_on hbuf hboth (by omega)
    have hne : reads ≠ [] := by
      rintro rfl
      simp only [List.flatten_nil, List.length_nil] at hlen
      omega
    have hnot : ¬ Lands r 0 (bytes :: reads) := by
      intro hl
      rcases reads with _ | ⟨next, reads⟩
      · exact hne rfl
      · exact hfive (lands_cons.mp hl).1
    rw [collects_more hread hmore, List.nil_append]
    rw [Nat.zero_add] at hnext
    by_cases hone : bytes.length = 1
    · obtain ⟨b, rfl⟩ := List.length_eq_one_iff.mp hone
      rw [one_collects_iff hnext (by simp) hjoin hrest]
      constructor
      · rintro ⟨-, hlow, hl⟩
        exact .inr (.inr ⟨b, reads, rfl, hlow, hl⟩)
      · rintro (heq | hl | ⟨first, rest, heq, hlow, hl⟩)
        · cases heq
        · exact absurd hl hnot
        · cases heq
          exact ⟨hne, hlow, hl⟩
    · have hlate := late_not_collects hnext (by omega) (by omega) (by simp) hjoin
      constructor
      · rintro ⟨-, hc⟩
        exact absurd hc hlate
      · rintro (heq | hl | ⟨first, rest, heq, -⟩)
        · cases heq
          exact absurd rfl hne
        · exact absurd hl hnot
        · cases heq
          simp at hone

/-- A record with six bytes. -/
def sixBytes : Record where
  minor := 1
  high := 0
  low := 6
  body := [0x01, 0x00, 0x00, 0x02, 0x03, 0x03]
  version := by decide
  stated := by decide
  nonempty := by decide

theorem a_record_in_one_read_is_collected : Collects .new [] [sixBytes.bytes] :=
  (a_record_is_collected_iff_its_reads_land sixBytes [sixBytes.bytes] (by simp)
    (by simp [Record.bytes])).mpr (.inl rfl)

/-- Cut behind its header, it is not: the reader asks for more when all of it is there. -/
theorem a_record_cut_behind_its_header_is_not_collected :
    [sixBytes.bytes.take 5, sixBytes.body].flatten = sixBytes.bytes ∧
      ¬ Collects .new [] [sixBytes.bytes.take 5, sixBytes.body] := by
  refine ⟨rfl, ?_⟩
  have hfive : ((HandshakeReader.new.read (sixBytes.bytes.take 5) 5).bind (fun more =>
      more.reader.read sixBytes.bytes 6)).map (fun more => more.remaining) = .ok 5 := by
    decide +kernel
  rintro ⟨more, hread, -, done, hdone, hzero, -⟩
  have hread' : HandshakeReader.new.read (sixBytes.bytes.take 5) 5 = .ok more := hread
  have hdone' : more.reader.read sixBytes.bytes 6 = .ok done := hdone
  rw [hread', Except.bind, hdone', Except.map, hzero] at hfive
  cases hfive

end proxy.tls.handshake
