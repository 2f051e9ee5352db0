-- Which lines `read_body` takes for the size of a chunk. `parse_hexadecimal` leaves that to
-- `std::num_get`, which also takes a sign, a base in front of the digits, and white space.
import Aether.Http.ChunkedBodies
import Aether.Http.HttpParser

open util.string util.buffer lib.numerals lib.rfc7230

namespace util.string

/-! ## What is taken for a number -/

/-- A number with all that may stand around its digits. -/
structure HexForm where
  front : Text
  sign : Text
  base : Text
  digits : Text
  back : Text
  front_blank : ∀ c ∈ front, isspace c = true
  sign_form : sign = [] ∨ sign = [plus] ∨ sign = [minus]
  base_form : base = [] ∨ base = [48, 120] ∨ base = [48, 88]
  numeral : HexNumeral digits
  size : hexNumber digits < 2 ^ 64
  back_blank : ∀ c ∈ back, isspace c = true

namespace HexForm

def text (f : HexForm) : Text := f.front ++ (f.sign ++ (f.base ++ (f.digits ++ f.back)))

/-- A minus is taken modulo 2^64. -/
def number (f : HexForm) : Nat := negate (f.sign == [minus]) (hexNumber f.digits)

end HexForm

/-- The text is a number, but not as digits alone. -/
def Decorated (src : Text) : Prop := ∃ f : HexForm, f.text = src ∧ src ≠ f.digits

/-! ## The parts of `get_hex` -/

/-- What comes behind the base, which need not be there. -/
def behind_base (rest : Text) : Text :=
  match rest with
  | 48 :: c :: cs => if c = 120 ∨ c = 88 then cs else rest
  | _ => rest

def is_hex (c : UInt8) : Bool := (hex_digit c).isSome

theorem get_hex_eq (src : Text) : get_hex src =
    let signed := sign (src.dropWhile isspace)
    let rest := behind_base signed.2
    let found := rest.takeWhile is_hex
    if found = [] ∨ 2 ^ 64 ≤ hexNumber found then none
    else some (negate signed.1 (hexNumber found), rest.dropWhile is_hex) := rfl

theorem sign_parts (src : Text) : ∃ s, (s = [] ∨ s = [plus] ∨ s = [minus]) ∧
    src = s ++ (sign src).2 ∧ (sign src).1 = (s == [minus]) := by
  cases src with
  | nil => exact ⟨[], .inl rfl, rfl, rfl⟩
  | cons c cs =>
    by_cases hminus : c = minus
    · subst hminus
      exact ⟨[minus], .inr (.inr rfl), rfl, rfl⟩
    · by_cases hplus : c = plus
      · subst hplus
        exact ⟨[plus], .inr (.inl rfl), rfl, rfl⟩
      · have hsign : sign (c :: cs) = (false, c :: cs) := by
          simp only [sign, if_neg hminus, if_neg hplus]
        exact ⟨[], .inl rfl, by rw [hsign]; rfl, by rw [hsign]; rfl⟩

theorem behind_base_parts (rest : Text) :
    ∃ b, (b = [] ∨ b = [48, 120] ∨ b = [48, 88]) ∧ rest = b ++ behind_base rest := by
  unfold behind_base
  split
  · rename_i c cs
    by_cases hx : c = 120
    · subst hx
      exact ⟨[48, 120], .inr (.inl rfl), rfl⟩
    · by_cases hX : c = 88
      · subst hX
        exact ⟨[48, 88], .inr (.inr rfl), rfl⟩
      · rw [if_neg (not_or.mpr ⟨hx, hX⟩)]
        exact ⟨[], .inl rfl, rfl⟩
  · exact ⟨[], .inl rfl, rfl⟩

theorem not_is_hex_of_isspace {c : UInt8} (h : isspace c = true) : is_hex c = false := by
  cases hc : is_hex c with
  | false => rfl
  | true =>
    rw [isspace_hexDigit hc] at h
    cases h

/-! ## What a form is read as -/

namespace HexForm

variable (f : HexForm)

/-- The digits are found up to what is behind them. -/
theorem digits_cut : (f.digits ++ f.back).takeWhile is_hex = f.digits ∧
    (f.digits ++ f.back).dropWhile is_hex = f.back := by
  have hback : f.back.takeWhile is_hex = [] ∧ f.back.dropWhile is_hex = f.back := by
    cases hb : f.back with
    | nil => exact ⟨rfl, rfl⟩
    | cons c cs =>
      have hc := not_is_hex_of_isspace (f.back_blank c (by rw [hb]; exact List.mem_cons_self))
      rw [List.takeWhile_cons_of_neg (by rw [hc]; decide),
        List.dropWhile_cons_of_neg (by rw [hc]; decide)]
      exact ⟨rfl, rfl⟩
  have hdigits : ∀ c ∈ f.digits, is_hex c = true := f.numeral.digits
  rw [List.takeWhile_append_of_pos hdigits, List.dropWhile_append_of_pos hdigits, hback.1, hback.2,
    List.append_nil]
  exact ⟨rfl, rfl⟩

/-- The second of the characters from the digits on is no `x`. -/
theorem second_ne {c d : UInt8} {cs : Text} (h : f.digits ++ f.back = c :: d :: cs) :
    d ≠ 120 ∧ d ≠ 88 := by
  have hd : is_hex d = true ∨ isspace d = true := by
    obtain ⟨e, es, hdigits⟩ := List.exists_cons_of_ne_nil f.numeral.some_
    rw [hdigits, List.cons_append, List.cons.injEq] at h
    have hmem : d ∈ es ++ f.back := by
      rw [h.2]
      exact List.mem_cons_self
    rcases List.mem_append.mp hmem with hes | hback
    · exact .inl (f.numeral.digits d (by rw [hdigits]; exact List.mem_cons_of_mem e hes))
    · exact .inr (f.back_blank d hback)
  constructor
  · rintro rfl
    revert hd
    decide
  · rintro rfl
    revert hd
    decide

theorem behind_base_eq : behind_base (f.base ++ (f.digits ++ f.back)) = f.digits ++ f.back := by
  rcases f.base_form with hb | hb | hb
  · rw [hb, List.nil_append]
    unfold behind_base
    split
    · rename_i c cs heq
      obtain ⟨hx, hX⟩ := f.second_ne heq
      rw [if_neg (not_or.mpr ⟨hx, hX⟩), heq]
    · rfl
  · rw [hb]
    rfl
  · rw [hb]
    rfl

/-- With the base, a form starts with a digit. -/
theorem base_cons : ∃ c cs, f.base ++ (f.digits ++ f.back) = c :: cs ∧ is_hex c = true := by
  rcases f.base_form with hb | hb | hb
  · obtain ⟨c, cs, hdigits⟩ := List.exists_cons_of_ne_nil f.numeral.some_
    refine ⟨c, cs ++ f.back, by rw [hb, hdigits]; rfl, f.numeral.digits c ?_⟩
    rw [hdigits]
    exact List.mem_cons_self
  · exact ⟨48, 120 :: (f.digits ++ f.back), by rw [hb]; rfl, by decide⟩
  · exact ⟨48, 88 :: (f.digits ++ f.back), by rw [hb]; rfl, by decide⟩

theorem sign_eq : string.sign (f.sign ++ (f.base ++ (f.digits ++ f.back))) =
    (f.sign == [minus], f.base ++ (f.digits ++ f.back)) := by
  obtain ⟨c, cs, hcons, hc⟩ := f.base_cons
  rw [hcons]
  rcases f.sign_form with hs | hs | hs
  · have hminus : c ≠ minus := hexDigit_ne hc rfl
    have hplus : c ≠ plus := hexDigit_ne hc rfl
    rw [hs, List.nil_append]
    simp only [string.sign, if_neg hminus, if_neg hplus]
    rfl
  · rw [hs]
    rfl
  · rw [hs]
    rfl

theorem front_cut : f.text.dropWhile isspace = f.sign ++ (f.base ++ (f.digits ++ f.back)) := by
  rw [text, List.dropWhile_append_of_pos f.front_blank]
  obtain ⟨c, cs, hcons, hc⟩ := f.base_cons
  rw [hcons]
  have hspace : isspace c = false := isspace_hexDigit hc
  rcases f.sign_form with hs | hs | hs
  · rw [hs, List.nil_append, List.dropWhile_cons_of_neg (by rw [hspace]; decide)]
  · rw [hs]
    rfl
  · rw [hs]
    rfl

theorem parse_text : parse_hexadecimal f.text = some f.number := by
  have hnone : ¬ (f.digits = [] ∨ 2 ^ 64 ≤ hexNumber f.digits) :=
    not_or.mpr ⟨f.numeral.some_, Nat.not_le.mpr f.size⟩
  have hget : get_hex f.text = some (f.number, f.back) := by
    rw [get_hex_eq, f.front_cut, f.sign_eq]
    simp only [f.behind_base_eq, f.digits_cut, if_neg hnone]
    rfl
  rw [parse_hexadecimal, hget]
  exact if_pos (List.all_eq_true.mpr f.back_blank)

end HexForm

/-- What is read is a form. -/
theorem form_of_parse {src : Text} {n : Nat} (h : parse_hexadecimal src = some n) :
    ∃ f : HexForm, f.text = src ∧ f.number = n := by
  rw [parse_hexadecimal, get_hex_eq] at h
  obtain ⟨s, hs, hsigned, hminus⟩ := sign_parts (src.dropWhile isspace)
  obtain ⟨b, hb, hbase⟩ := behind_base_parts (sign (src.dropWhile isspace)).2
  generalize sign (src.dropWhile isspace) = signed at h hsigned hminus hbase
  simp only at h
  generalize behind_base signed.2 = rest at h hbase
  by_cases hnone : rest.takeWhile is_hex = [] ∨ 2 ^ 64 ≤ hexNumber (rest.takeWhile is_hex)
  · rw [if_pos hnone] at h
    cases h
  · rw [if_neg hnone] at h
    obtain ⟨hne, hsize⟩ := not_or.mp hnone
    by_cases hblank : (rest.dropWhile is_hex).all isspace = true
    · have hn : negate signed.1 (hexNumber (rest.takeWhile is_hex)) = n := by
        simpa only [if_pos hblank, Option.some.injEq] using h
      refine ⟨{
        front := src.takeWhile isspace, sign := s, base := b, digits := rest.takeWhile is_hex
        back := rest.dropWhile is_hex
        front_blank := fun c hc => List.mem_takeWhile_imp hc
        sign_form := hs, base_form := hb
        numeral := ⟨hne, fun c hc => List.mem_takeWhile_imp (p := is_hex) hc⟩
        size := Nat.not_le.mp hsize
        back_blank := List.all_eq_true.mp hblank }, ?_, ?_⟩
      · show src.takeWhile isspace ++ (s ++ (b ++ _)) = src
        rw [List.takeWhile_append_dropWhile, ← hbase, ← hsigned, List.takeWhile_append_dropWhile]
      · rw [← hn, hminus]
        rfl
    · simp only [if_neg hblank] at h
      cases h

/-- Digits are no form but their own. -/
theorem not_decorated_of_numeral {ds : Text} (h : HexNumeral ds) : ¬ Decorated ds := by
  rintro ⟨f, htext, hne⟩
  have hall : ∀ c ∈ f.text, is_hex c = true := by
    rw [htext]
    exact h.digits
  have hfront : f.front = [] := by
    apply List.eq_nil_iff_forall_not_mem.mpr
    intro c hc
    have hhex := hall c (List.mem_append_left _ hc)
    rw [not_is_hex_of_isspace (f.front_blank c hc)] at hhex
    cases hhex
  have hback : f.back = [] := by
    apply List.eq_nil_iff_forall_not_mem.mpr
    intro c hc
    have hhex := hall c (by simp [HexForm.text, hc])
    rw [not_is_hex_of_isspace (f.back_blank c hc)] at hhex
    cases hhex
  have hsign : f.sign = [] := by
    rcases f.sign_form with hs | hs | hs
    · exact hs
    · have hhex := hall plus (by simp [HexForm.text, hs])
      exact absurd hhex (by decide)
    · have hhex := hall minus (by simp [HexForm.text, hs])
      exact absurd hhex (by decide)
  have hbase : f.base = [] := by
    rcases f.base_form with hb | hb | hb
    · exact hb
    · have hhex := hall 120 (by simp [HexForm.text, hb])
      exact absurd hhex (by decide)
    · have hhex := hall 88 (by simp [HexForm.text, hb])
      exact absurd hhex (by decide)
  rw [HexForm.text, hfront, hback, hsign, hbase, List.append_nil] at htext
  exact hne htext.symm

end util.string

namespace proxy.http.http1.BodyReader

/-! ## The size of a chunk -/

/-- What `read_body` does with a size: it is held against the limit, and kept. -/
def use_chunk_size (r : BodyReader) (limit : Nat) (header_buf : CountedSegment) (size : Nat) :
    Except Error BodyReader := do
  let header_buf ← header_buf.reset
  if limit < size_add r.state_.read size then .error (default_error .body_size_too_large)
  else
    return { r with
      chunk_header_buf_ := header_buf
      state_ := { r.state_ with expected_size := size, next_chunk_size_known := true } }

/-- A line is accepted when it is a number in digits below 2^64, and that number is used. -/
structure ReadsSize (r : BodyReader) (limit : Nat) (header_buf : CountedSegment) : Prop where
  accepted : r.set_chunk_size limit header_buf ≠ .error (default_error .invalid_chunked_body) ↔
    HexNumeral header_buf.string_view ∧ hexNumber header_buf.string_view < 2 ^ 64
  used : HexNumeral header_buf.string_view → hexNumber header_buf.string_view < 2 ^ 64 →
    r.set_chunk_size limit header_buf =
      r.use_chunk_size limit header_buf (hexNumber header_buf.string_view)

variable {r : BodyReader} {limit : Nat} {header_buf : CountedSegment}

theorem set_chunk_size_of_some {size : Nat}
    (h : parse_hexadecimal header_buf.string_view = some size) :
    r.set_chunk_size limit header_buf = r.use_chunk_size limit header_buf size := by
  unfold set_chunk_size
  rw [h]
  rfl

theorem set_chunk_size_of_none (h : parse_hexadecimal header_buf.string_view = none) :
    r.set_chunk_size limit header_buf = .error (default_error .invalid_chunked_body) := by
  unfold set_chunk_size
  rw [h]

/-- A size that is used may be refused, but not as no number. -/
theorem use_chunk_size_ne (r : BodyReader) (limit : Nat) (header_buf : CountedSegment)
    (size : Nat) :
    r.use_chunk_size limit header_buf size ≠ .error (default_error .invalid_chunked_body) := by
  unfold use_chunk_size CountedSegment.reset
  split
  · show (if _ then _ else _) ≠ _
    split
    · intro h
      exact absurd (Except.error.inj h) (by decide)
    · intro h
      cases h
  · intro h
    cases h

/-- The size of a chunk is read as it is written, and nothing else is taken for one, unless the
line has a number with white space, a sign or a base around its digits. -/
theorem reads_size_iff (r : BodyReader) (limit : Nat) (header_buf : CountedSegment) :
    r.ReadsSize limit header_buf ↔ ¬ Decorated header_buf.string_view := by
  constructor
  · rintro hreads ⟨f, htext, hne⟩
    have hparse := f.parse_text
    rw [htext] at hparse
    have haccepted := hreads.accepted.mp (by
      rw [set_chunk_size_of_some hparse]
      exact use_chunk_size_ne r limit header_buf _)
    exact not_decorated_of_numeral haccepted.1 ⟨f, htext, hne⟩
  · intro hplain
    refine ⟨⟨?_, ?_⟩, ?_⟩
    · intro hne
      cases hparse : parse_hexadecimal header_buf.string_view with
      | none => exact absurd (set_chunk_size_of_none hparse) hne
      | some size =>
        obtain ⟨f, htext, -⟩ := form_of_parse hparse
        have hdigits : header_buf.string_view = f.digits := by
          by_contra hother
          exact hplain ⟨f, htext, hother⟩
        rw [hdigits]
        exact ⟨f.numeral, f.size⟩
    · rintro ⟨hnumeral, hsize⟩
      rw [set_chunk_size_of_some (parse_hexadecimal_numeral hnumeral hsize)]
      exact use_chunk_size_ne r limit header_buf _
    · intro hnumeral hsize
      exact set_chunk_size_of_some (parse_hexadecimal_numeral hnumeral hsize)

/-- A header with the size -1 is not refused. -/
theorem minus_one_accepted :
    ¬ ∀ (r : BodyReader) (limit : Nat) (header_buf : CountedSegment),
      r.ReadsSize limit header_buf := by
  intro h
  let line : CountedSegment := ⟨⟨true, text "-1", []⟩, 3⟩
  have haccepted := (h .new (2 ^ 64) line).accepted
  have hparse : parse_hexadecimal line.string_view = some (2 ^ 64 - 1) := by decide
  have hnumeral := (haccepted.mp (by
    rw [set_chunk_size_of_some hparse]
    exact use_chunk_size_ne _ _ _ _)).1
  exact absurd (hnumeral.digits minus (by decide)) (by decide)

end proxy.http.http1.BodyReader
