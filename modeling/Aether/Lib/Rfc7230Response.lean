-- Responses of RFC 7230 as a server writes them: the lines of their fields, the
-- chunked coding with its extensions and its trailer, and where a body ends by
-- section 3.3.3. Nothing here is about the proxy.
import Aether.Lib.Rfc7230
import Aether.Lib.Rfc7230Length
import Aether.Lib.Rfc7230Lines

open lib.lines

namespace lib.rfc7230

/-! ## Lines of fields -/

/-- The line of a field, with optional white space around its value. -/
structure FieldLine where
  name : List UInt8
  before : List UInt8
  value : List UInt8
  after : List UInt8
  name_ : OneLine name ∧ 58 ∉ name
  before_ : ∀ c ∈ before, optionalSpace c = true
  value_ : OneLine value ∧ strip value = value
  after_ : ∀ c ∈ after, optionalSpace c = true

theorem dropWhile_blank {s : List UInt8} (h : ∀ c ∈ s, optionalSpace c = true) (t : List UInt8) :
    (s ++ t).dropWhile optionalSpace = t.dropWhile optionalSpace := by
  induction s with
  | nil => rfl
  | cons c s ih =>
    rw [List.forall_mem_cons] at h
    rw [List.cons_append, List.dropWhile_cons_of_pos h.1, ih h.2]

/-- A text without white space at its ends has none to drop. -/
theorem dropWhile_of_strip {s : List UInt8} (h : strip s = s) :
    s.dropWhile optionalSpace = s ∧ s.reverse.dropWhile optionalSpace = s.reverse := by
  have hfront : (s.dropWhile optionalSpace).length ≤ s.length :=
    (List.dropWhile_suffix optionalSpace).length_le
  have hback := (List.dropWhile_suffix (l := (s.dropWhile optionalSpace).reverse)
    optionalSpace).length_le
  have hstrip := congrArg List.length h
  simp only [strip, List.length_reverse] at hstrip hback
  have hs : s.dropWhile optionalSpace = s :=
    (List.dropWhile_suffix optionalSpace).eq_of_length (by omega)
  refine ⟨hs, ?_⟩
  have hreverse := congrArg List.reverse h
  unfold strip at hreverse
  rwa [List.reverse_reverse, hs] at hreverse

/-- White space around a text is stripped. -/
theorem strip_blank {before s after : List UInt8} (hbefore : ∀ c ∈ before, optionalSpace c = true)
    (hs : strip s = s) (hafter : ∀ c ∈ after, optionalSpace c = true) :
    strip (before ++ s ++ after) = s := by
  have hback : ∀ c ∈ after.reverse, optionalSpace c = true :=
    fun c hc => hafter c (List.mem_reverse.mp hc)
  obtain ⟨hfirst, hlast⟩ := dropWhile_of_strip hs
  unfold strip
  rw [List.append_assoc, dropWhile_blank hbefore]
  cases s with
  | nil =>
    have hnil := dropWhile_blank hafter []
    rw [List.append_nil] at hnil
    rw [List.nil_append, hnil]
    rfl
  | cons c s =>
    have hc : ¬ optionalSpace c = true := by
      intro hc
      have hlen := congrArg List.length hfirst
      have hle := (List.dropWhile_suffix (l := s) optionalSpace).length_le
      rw [List.dropWhile_cons_of_pos hc, List.length_cons] at hlen
      omega
    rw [List.cons_append, List.dropWhile_cons_of_neg hc, ← List.cons_append, List.reverse_append,
      dropWhile_blank hback, hlast, List.reverse_reverse]

theorem oneLine_blank {s : List UInt8} (h : ∀ c ∈ s, optionalSpace c = true) : OneLine s := by
  constructor
  · intro hmem
    cases h 13 hmem
  · intro hmem
    cases h 10 hmem

namespace FieldLine

def text (f : FieldLine) : List UInt8 := f.name ++ 58 :: (f.before ++ f.value ++ f.after)

theorem text_ne_nil (f : FieldLine) : f.text ≠ [] := by
  simp [text]

theorem oneLine_text (f : FieldLine) : OneLine f.text := by
  unfold text
  rw [oneLine_append, oneLine_cons, oneLine_append, oneLine_append]
  exact ⟨f.name_.1, by decide, by decide, ⟨oneLine_blank f.before_, f.value_.1⟩,
    oneLine_blank f.after_⟩

end FieldLine

/-! ## Chunks with extensions, and a trailer -/

/-- The extensions behind the size of a chunk. -/
def Extensions (s : List UInt8) : Prop := OneLine s ∧ (s = [] ∨ s.head? = some 59)

structure CodedChunk extends Chunk where
  extensions : List UInt8
  extensions_ : Extensions extensions

def CodedChunk.encode (c : CodedChunk) : List UInt8 :=
  c.size ++ c.extensions ++ crlf ++ (c.data ++ (crlf : List UInt8))

structure CodedBody where
  chunks : List CodedChunk
  last : List UInt8
  zeros : last ≠ [] ∧ ∀ c ∈ last, c = 48
  extensions : List UInt8
  extensions_ : Extensions extensions
  trailer : List FieldLine

namespace CodedBody

def encode (b : CodedBody) : List UInt8 :=
  b.chunks.flatMap CodedChunk.encode ++
    (b.last ++ b.extensions ++ crlf ++ (b.trailer.flatMap (fun f => f.text ++ crlf) ++ crlf))

def content (b : CodedBody) : List UInt8 := b.chunks.flatMap (fun c => c.data)

theorem last_numeral (b : CodedBody) : HexNumeral b.last ∧ hexNumber b.last = 0 :=
  ⟨ChunkedBody.last_numeral ⟨[], b.last, b.zeros⟩, ChunkedBody.hexNumber_zeros b.zeros.2⟩

end CodedBody

/-- The line that has a size ends where its extensions do. -/
theorem cut_size_line {ds extensions : List UInt8} (h : HexNumeral ds) (he : Extensions extensions)
    (rest : List UInt8) :
    cut 13 10 (ds ++ extensions ++ crlf ++ rest) = some (ds ++ extensions, rest) := by
  have hline : lines.cut 13 10 (ds ++ extensions) = none :=
    cut_none_of_notMem (fun hmem => (List.mem_append.mp hmem).elim (h.notMem rfl) he.1.2)
  rw [List.append_assoc]
  exact cut_end hline (by decide) rest

/-! ## Lengths -/

inductive ResponseLength where
  | empty
  | chunked
  | sized (n : Nat)
  /-- The body ends with the connection. -/
  | untilClose
  deriving DecidableEq, Repr

/-- Whether a response has no body whatever its fields say, for a response to a HEAD or to a
CONNECT. -/
def bodiless (head connect : Bool) (code : Nat) : Bool :=
  head || code / 100 == 1 || code == 204 || code == 304 || (connect && code / 100 == 2)

/-- The length of the body of a response, or none where it is an error, from the values of
`Transfer-Encoding` and of `Content-Length`. -/
def responseLength (head connect : Bool) (code : Nat) (codings lengths : List (List UInt8)) :
    Option ResponseLength :=
  if bodiless head connect code then some .empty
  else if codings ≠ [] then
    if LastChunked codings then some .chunked else some .untilClose
  else if lengths ≠ [] then
    if Same lengths then (decimalNumber (lengths.headD [])).map .sized else none
  else some .untilClose

section

variable {head connect : Bool} {code : Nat} {codings lengths : List (List UInt8)}

theorem responseLength_empty (h : responseLength head connect code codings lengths = some .empty) :
    bodiless head connect code = true := by
  unfold responseLength at h
  split at h
  · assumption
  · split at h
    · split at h <;> cases h
    · split at h
      · split at h
        · obtain ⟨n, -, hn⟩ := Option.map_eq_some_iff.mp h
          cases hn
        · cases h
      · cases h

theorem responseLength_chunked
    (h : responseLength head connect code codings lengths = some .chunked) :
    bodiless head connect code = false := by
  unfold responseLength at h
  split at h
  · cases h
  · rename_i hnot
    simpa using hnot

theorem responseLength_sized {n : Nat}
    (h : responseLength head connect code codings lengths = some (.sized n)) :
    bodiless head connect code = false ∧ codings = [] ∧ lengths ≠ [] ∧ Same lengths ∧
      decimalNumber (lengths.headD []) = some n := by
  unfold responseLength at h
  split at h
  · cases h
  · rename_i hnot
    refine ⟨by simpa using hnot, ?_⟩
    split at h
    · split at h <;> cases h
    · rename_i hcodings
      split at h
      · rename_i hlengths
        split at h
        · rename_i hsame
          obtain ⟨m, hm, hn⟩ := Option.map_eq_some_iff.mp h
          cases hn
          exact ⟨not_not.mp hcodings, hlengths, hsame, hm⟩
        · cases h
      · cases h

end

end lib.rfc7230
