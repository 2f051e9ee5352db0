-- A chunked body as the reader of the chunks goes over it: what it takes of the
-- stream, and what body it makes.
import Aether.Http.ChunkReading
import Aether.Lib.Rfc7230

open util.string util.buffer lib.lines lib.numerals lib.resumable lib.rfc7230

namespace util.string

/-! ## Plain sizes -/

theorem hexDigit_range {c : UInt8} (h : (hexDigit c).isSome) :
    48 ≤ c.toNat ∧ c.toNat ≤ 57 ∨ 97 ≤ c.toNat ∧ c.toNat ≤ 102 ∨ 65 ≤ c.toNat ∧ c.toNat ≤ 70 := by
  unfold hexDigit at h
  split at h
  · rename_i hc
    exact .inl hc
  · split at h
    · rename_i hc
      exact .inr (.inl hc)
    · split at h
      · rename_i hc
        exact .inr (.inr hc)
      · cases h

/-- No digit is another character that `std::num_get` looks for. -/
theorem hexDigit_ne {c d : UInt8} (h : (hexDigit c).isSome) (hd : hexDigit d = none) : c ≠ d := by
  rintro rfl
  rw [hd] at h
  cases h

theorem isspace_hexDigit {c : UInt8} (h : (hexDigit c).isSome) : isspace c = false := by
  have hr := hexDigit_range h
  have hblank : c ≠ 32 := hexDigit_ne h rfl
  have hcontrol : ¬ c ≤ 13 := by
    rw [UInt8.le_iff_toNat_le]
    have : (13 : UInt8).toNat = 13 := rfl
    omega
  simp [isspace, hblank, hcontrol]

/-- The digits that are written for a number are a numeral for it. -/
theorem hexadecimal_numeral (n : Nat) :
    HexNumeral (hexadecimal n) ∧ hexNumber (hexadecimal n) = n := by
  have hdigit : ∀ d < 16, hexDigit (hex_character d) = some d := by decide
  have hds : ∀ d ∈ numeral 16 n, d < 16 := fun d hd => numeral_lt (by decide) hd
  have hread : (hexadecimal n).filterMap hexDigit = numeral 16 n := by
    unfold hexadecimal
    generalize numeral 16 n = ds at hds
    induction ds with
    | nil => rfl
    | cons d ds ih =>
      rw [List.forall_mem_cons] at hds
      rw [List.map_cons, List.filterMap_cons_some (hdigit d hds.1), ih hds.2]
  refine ⟨⟨?_, ?_⟩, ?_⟩
  · unfold hexadecimal
    simpa using numeral_ne_nil 16 n
  · intro c hc
    obtain ⟨d, hd, rfl⟩ := List.mem_map.mp hc
    rw [hdigit d (hds d hd)]
    rfl
  · unfold hexNumber
    rw [hread, value_numeral]

/-- A line that is all digits is its number, if that is a `size_t`, and else none. -/
theorem parse_hexadecimal_digits {ds : Text} (h : HexNumeral ds) :
    parse_hexadecimal ds = if hexNumber ds < 2 ^ 64 then some (hexNumber ds) else none := by
  obtain ⟨c, cs, rfl⟩ := List.exists_cons_of_ne_nil h.some_
  have hc := h.digits c List.mem_cons_self
  have hspace : (c :: cs).dropWhile isspace = c :: cs := by
    rw [List.dropWhile_cons_of_neg (by rw [isspace_hexDigit hc]; decide)]
  have hsign : sign (c :: cs) = (false, c :: cs) := by
    simp only [sign, if_neg (hexDigit_ne (d := minus) hc rfl),
      if_neg (hexDigit_ne (d := plus) hc rfl)]
  have hall : (c :: cs).takeWhile (fun c => (hex_digit c).isSome) = c :: cs :=
    List.takeWhile_eq_self_iff.mpr h.digits
  have hnone : (c :: cs).dropWhile (fun c => (hex_digit c).isSome) = [] :=
    List.dropWhile_eq_nil_iff.mpr h.digits
  have hget : get_hex (c :: cs) = if c :: cs = [] ∨ 2 ^ 64 ≤ hexNumber (c :: cs) then none
      else some (hexNumber (c :: cs), []) := by
    unfold get_hex
    rw [hspace, hsign]
    dsimp only
    split
    · rename_i d ds heq
      obtain ⟨rfl, rfl⟩ := List.cons.inj heq
      have hd := h.digits d (by simp)
      rw [if_neg (not_or.mpr ⟨hexDigit_ne hd rfl, hexDigit_ne hd rfl⟩), hall, hnone]
      rfl
    · rw [hall, hnone]
      rfl
  rw [parse_hexadecimal, hget]
  by_cases hn : hexNumber (c :: cs) < 2 ^ 64
  · rw [if_pos hn, if_neg (by simp only [List.cons_ne_nil, false_or]; omega)]
    rfl
  · rw [if_neg hn, if_pos (.inr (Nat.le_of_not_lt hn))]

theorem parse_hexadecimal_numeral {ds : Text} (h : HexNumeral ds) (hn : hexNumber ds < 2 ^ 64) :
    parse_hexadecimal ds = some (hexNumber ds) := by
  rw [parse_hexadecimal_digits h, if_pos hn]

end util.string

namespace proxy.http.http1.ChunkReader

section

variable {limit : Nat} {body : Text}

/-- A state between two chunks, that has read as much as it holds. -/
def between (body : Text) : ChunkReader := ⟨.header, [], body, body.length⟩

/-- The size of a chunk that is within the limit. -/
theorem chunk_size_numeral {ds : Text} {n : Nat} (h : HexNumeral ds) (hn : hexNumber ds = n)
    (hline : ds.length < 2 ^ 31) (hfit : body.length + n < 2 ^ 31)
    (hlimit : body.length + n ≤ limit) :
    chunk_size limit body.length body ds = .ok n := by
  have hadd : size_add body.length n = body.length + n := size_add_of_lt (by omega)
  unfold chunk_size
  rw [parse_hexadecimal_numeral h (by omega), hn]
  simp only [hadd]
  rw [if_neg (by omega), if_neg (by omega), if_neg (by omega)]

/-- A line that is too long for a reset. -/
theorem chunk_size_long {ds : Text} (h : HexNumeral ds) (hn : hexNumber ds < 2 ^ 64)
    (hline : ¬ ds.length < 2 ^ 31) :
    chunk_size limit body.length body ds = .error .undefined := by
  unfold chunk_size
  rw [parse_hexadecimal_numeral h hn]
  simp only [hline, not_false_eq_true, if_true]

/-- A chunk is taken as a whole, and its data is behind the body. -/
theorem drainAll_chunk (c : Chunk) (w : Text) (hline : c.size.length < 2 ^ 31)
    (hfit : body.length + c.data.length < 2 ^ 31)
    (hlimit : body.length + c.data.length ≤ limit) :
    drainAll (next limit) measure (between body) (c.encode ++ w) =
      (drainAll (next limit) measure (between (body ++ c.data)) w).after [(), (), ()] := by
  have hr := resumable limit
  have hw : c.encode ++ w = c.size ++ crlf ++ (c.data ++ (crlf ++ w)) := by
    simp [Chunk.encode]
  have hpos : 0 < c.data.length := List.length_pos_iff.mpr c.some_
  have hheader : next limit (between body) (c.encode ++ w) =
      item ⟨.data c.data.length, [], body, body.length⟩ (c.data ++ (crlf ++ w)) := by
    rw [hw]
    simp only [next, between, advance, List.nil_append, c.numeral.cut,
      chunk_size_numeral c.numeral c.value hline hfit hlimit]
  have hdata : next limit ⟨.data c.data.length, [], body, body.length⟩ (c.data ++ (crlf ++ w)) =
      item ⟨.suffix c.data.length, [], body ++ c.data, body.length⟩ (crlf ++ w) := by
    have hlen : ¬ (c.data ++ (crlf ++ w)).length < c.data.length := by
      rw [List.length_append]
      omega
    simp only [next, advance, List.nil_append, if_neg hlen, List.take_left, List.drop_left,
      @CountedSegment.committed_with_of_lt c.data body (by omega)]
  have hsuffix : next limit ⟨.suffix c.data.length, [], body ++ c.data, body.length⟩ (crlf ++ w) =
      item (between (body ++ c.data)) w := by
    have hadd : size_add body.length c.data.length = (body ++ c.data).length := by
      rw [List.length_append, size_add_of_lt (by omega)]
    simp only [next, advance, List.nil_append, cut_crlf, ne_eq, not_true, if_false,
      if_neg (Nat.ne_of_gt hpos), hadd, between]
  rw [drainAll_item hr trivial (b := ()) (by rw [hheader]; rfl), hheader]
  simp only [item]
  rw [drainAll_item hr trivial (b := ()) (by rw [hdata]; rfl), hdata]
  simp only [item]
  rw [drainAll_item hr trivial (b := ()) (by rw [hsuffix]; rfl), hsuffix]
  rfl

/-- The last chunk ends the body, and what comes behind it is left. -/
theorem drainAll_last {last : Text} (h : HexNumeral last) (hzero : hexNumber last = 0)
    (hline : last.length < 2 ^ 31) (hfit : body.length < 2 ^ 31) (hlimit : body.length ≤ limit)
    (rest : Text) : ∃ s items,
      drainAll (next limit) measure (between body) (last ++ crlf ++ crlf ++ rest) =
        ⟨s, rest, items, some .done⟩ ∧ s.body = body := by
  have hr := resumable limit
  have hheader : next limit (between body) (last ++ crlf ++ crlf ++ rest) =
      item ⟨.data 0, [], body, body.length⟩ (crlf ++ rest) := by
    rw [List.append_assoc]
    simp only [next, between, advance, List.nil_append, h.cut,
      chunk_size_numeral h hzero hline hfit hlimit]
  have hdata := next_empty limit body body.length (crlf ++ rest)
  have hsuffix : next limit ⟨.suffix 0, [], body, body.length⟩ (crlf ++ rest) =
      ⟨⟨.suffix 0, [], body, body.length⟩, rest, .halt .done⟩ := by
    simp only [next, advance, List.nil_append, cut_crlf, ne_eq, not_true, if_false, if_true]
  refine ⟨⟨.suffix 0, [], body, body.length⟩, [(), ()], ?_, rfl⟩
  rw [drainAll_item hr trivial (b := ()) (by rw [hheader]; rfl), hheader]
  simp only [item]
  rw [drainAll_item hr trivial (b := ()) (by rw [hdata]; rfl), hdata]
  simp only [item]
  rw [drainAll_halt (by rw [hsuffix]), hsuffix]
  rfl

/-- A line that is too long for a reset ends the reading. -/
theorem drainAll_long {ds : Text} (h : HexNumeral ds) (hn : hexNumber ds < 2 ^ 64)
    (hline : ¬ ds.length < 2 ^ 31) (rest : Text) : ∃ s left items,
      drainAll (next limit) measure (between body) (ds ++ crlf ++ rest) =
        ⟨s, left, items, some (.failed .undefined)⟩ := by
  have hheader : next limit (between body) (ds ++ crlf ++ rest) =
      ⟨⟨.header, [], body, body.length⟩, rest, .halt (.failed .undefined)⟩ := by
    simp only [next, between, advance, List.nil_append, h.cut, chunk_size_long h hn hline]
  refine ⟨⟨.header, [], body, body.length⟩, rest, [], ?_⟩
  rw [drainAll_halt (by rw [hheader]), hheader]

variable (b : ChunkedBody)

/-- A body whose lines are short is taken as a whole. -/
theorem drainAll_body (hlines : ∀ l ∈ b.sizeLines, l.length < 2 ^ 31)
    (hfit : body.length + b.content.length < 2 ^ 31)
    (hlimit : body.length + b.content.length ≤ limit) (rest : Text) : ∃ s items,
      drainAll (next limit) measure (between body) (b.encode ++ rest) =
        ⟨s, rest, items, some .done⟩ ∧ s.body = body ++ b.content := by
  obtain ⟨chunks, last, zeros⟩ := b
  induction chunks generalizing body with
  | nil =>
    have hlast := ChunkedBody.last_numeral ⟨[], last, zeros⟩
    obtain ⟨s, items, hs, hbody⟩ := @drainAll_last limit body last hlast
      (ChunkedBody.hexNumber_zeros zeros.2) (hlines last (by simp [ChunkedBody.sizeLines]))
      (by omega) (by omega) rest
    exact ⟨s, items, hs, by simpa [ChunkedBody.content] using hbody⟩
  | cons c chunks ih =>
    have hcontent : (⟨c :: chunks, last, zeros⟩ : ChunkedBody).content =
        c.data ++ (⟨chunks, last, zeros⟩ : ChunkedBody).content := rfl
    rw [hcontent, List.length_append] at hfit hlimit
    have hencode : (⟨c :: chunks, last, zeros⟩ : ChunkedBody).encode ++ rest =
        c.encode ++ ((⟨chunks, last, zeros⟩ : ChunkedBody).encode ++ rest) := by
      simp [ChunkedBody.encode]
    have hfirst : c.size.length < 2 ^ 31 := hlines c.size (by simp [ChunkedBody.sizeLines])
    obtain ⟨s, items, hs, hbody⟩ := @ih (body ++ c.data)
      (fun l hl => hlines l (List.mem_cons_of_mem _ hl))
      (by rw [List.length_append]; omega) (by rw [List.length_append]; omega)
    refine ⟨s, [(), (), ()] ++ items, ?_, by rw [hbody, hcontent, List.append_assoc]⟩
    rw [hencode, drainAll_chunk c _ hfirst (by omega) (by omega), hs]
    rfl

/-- A line that is too long ends the reading of any other body. -/
theorem drainAll_long_body (hlines : ¬ ∀ l ∈ b.sizeLines, l.length < 2 ^ 31)
    (hfit : body.length + b.content.length < 2 ^ 31)
    (hlimit : body.length + b.content.length ≤ limit) (rest : Text) :
    (drainAll (next limit) measure (between body) (b.encode ++ rest)).halted =
      some (.failed .undefined) := by
  obtain ⟨chunks, last, zeros⟩ := b
  induction chunks generalizing body with
  | nil =>
    have hlast : HexNumeral last := ChunkedBody.last_numeral ⟨[], last, zeros⟩
    have hzero : hexNumber last = 0 := ChunkedBody.hexNumber_zeros zeros.2
    have hlong : ¬ last.length < 2 ^ 31 := by simpa [ChunkedBody.sizeLines] using hlines
    obtain ⟨s, left, items, hs⟩ := @drainAll_long limit body last hlast
      (by omega) hlong (crlf ++ rest)
    have hencode : (⟨[], last, zeros⟩ : ChunkedBody).encode ++ rest =
        last ++ crlf ++ (crlf ++ rest) := by
      simp [ChunkedBody.encode]
    rw [hencode, hs]
  | cons c chunks ih =>
    have hcontent : (⟨c :: chunks, last, zeros⟩ : ChunkedBody).content =
        c.data ++ (⟨chunks, last, zeros⟩ : ChunkedBody).content := rfl
    rw [hcontent, List.length_append] at hfit hlimit
    have hencode : (⟨c :: chunks, last, zeros⟩ : ChunkedBody).encode ++ rest =
        c.encode ++ ((⟨chunks, last, zeros⟩ : ChunkedBody).encode ++ rest) := by
      simp [ChunkedBody.encode]
    by_cases hfirst : c.size.length < 2 ^ 31
    · have hmore : ¬ ∀ l ∈ (⟨chunks, last, zeros⟩ : ChunkedBody).sizeLines, l.length < 2 ^ 31 := by
        intro hall
        apply hlines
        intro l hl
        rcases List.mem_cons.mp hl with rfl | hl
        · exact hfirst
        · exact hall l hl
      have hrest := @ih (body ++ c.data) hmore (by rw [List.length_append]; omega)
        (by rw [List.length_append]; omega)
      rw [hencode, drainAll_chunk c _ hfirst (by omega) (by omega)]
      exact hrest
    · have hvalue := c.value
      obtain ⟨s, left, items, hs⟩ := @drainAll_long limit body c.size c.numeral
        (by omega) hfirst (c.data ++ crlf ++ ((⟨chunks, last, zeros⟩ : ChunkedBody).encode ++ rest))
      have hwire : c.encode ++ ((⟨chunks, last, zeros⟩ : ChunkedBody).encode ++ rest) =
          c.size ++ crlf ++
            (c.data ++ crlf ++ ((⟨chunks, last, zeros⟩ : ChunkedBody).encode ++ rest)) := by
        simp [Chunk.encode]
      rw [hencode, hwire, hs]

end

end proxy.http.http1.ChunkReader
