-- The chunked transfer coding of RFC 7230, section 4.1, without extensions and
-- trailers: what stands on the wire for a body that is cut into chunks. Nothing
-- here is about the proxy.
import Aether.Lib.Lines
import Aether.Lib.Numerals

open lib.numerals lib.lines

namespace lib.rfc7230

def crlf : List UInt8 := [13, 10]

def hexDigit (c : UInt8) : Option Nat :=
  if 48 ≤ c ∧ c ≤ 57 then some (c.toNat - 48)
  else if 97 ≤ c ∧ c ≤ 102 then some (c.toNat - 87)
  else if 65 ≤ c ∧ c ≤ 70 then some (c.toNat - 55)
  else none

/-- The number of a `chunk-size`. -/
def hexNumber (ds : List UInt8) : Nat := value 16 (ds.filterMap hexDigit)

/-- One or more digits. -/
structure HexNumeral (ds : List UInt8) : Prop where
  some_ : ds ≠ []
  digits : ∀ c ∈ ds, (hexDigit c).isSome

theorem HexNumeral.notMem {ds : List UInt8} (h : HexNumeral ds) {c : UInt8}
    (hc : hexDigit c = none) : c ∉ ds := by
  intro hmem
  have hd := h.digits c hmem
  rw [hc] at hd
  cases hd

/-- A chunk with data. -/
structure Chunk where
  size : List UInt8
  data : List UInt8
  numeral : HexNumeral size
  value : hexNumber size = data.length
  some_ : data ≠ []

/-- A chunk with the ends of its lines. -/
def Chunk.encode (c : Chunk) : List UInt8 := c.size ++ crlf ++ c.data ++ crlf

/-- A body in chunks. The size of the last chunk is written as one or more zeros. -/
structure ChunkedBody where
  chunks : List Chunk
  last : List UInt8
  zeros : last ≠ [] ∧ ∀ c ∈ last, c = 48

namespace ChunkedBody

def encode (b : ChunkedBody) : List UInt8 :=
  b.chunks.flatMap Chunk.encode ++ (b.last ++ crlf ++ crlf)

def content (b : ChunkedBody) : List UInt8 := b.chunks.flatMap Chunk.data

/-- The lines that have the sizes. -/
def sizeLines (b : ChunkedBody) : List (List UInt8) := b.chunks.map Chunk.size ++ [b.last]

theorem hexNumber_zeros {ds : List UInt8} (h : ∀ c ∈ ds, c = 48) : hexNumber ds = 0 := by
  have hzeros : ds.filterMap hexDigit = List.replicate ds.length 0 := by
    induction ds with
    | nil => rfl
    | cons c ds ih =>
      have hc : hexDigit c = some 0 := by rw [h c List.mem_cons_self]; rfl
      rw [List.filterMap_cons_some hc, ih (fun x hx => h x (List.mem_cons_of_mem c hx))]
      rfl
  unfold hexNumber
  rw [hzeros]
  induction ds.length with
  | zero => rfl
  | succ n ih => rw [List.replicate_succ', value_append_singleton, ih]

theorem last_numeral (b : ChunkedBody) : HexNumeral b.last where
  some_ := b.zeros.1
  digits := by
    intro c hc
    rw [b.zeros.2 c hc]
    rfl

end ChunkedBody

/-- A line of digits ends where the next line starts. -/
theorem HexNumeral.cut {ds : List UInt8} (h : HexNumeral ds) (rest : List UInt8) :
    cut 13 10 (ds ++ crlf ++ rest) = some (ds, rest) := by
  have hline : lines.cut 13 10 ds = none := cut_none_of_notMem (h.notMem rfl)
  rw [List.append_assoc]
  exact cut_end hline (by decide) rest

theorem cut_crlf (rest : List UInt8) : cut 13 10 (crlf ++ rest) = some ([], rest) := by
  rfl

end lib.rfc7230
