-- The lines of a head for the recipients of RFC 7230, section 3.5: all of them end
-- a line at CR LF, and some at a bare LF, too. Nothing here is about the proxy.
import Mathlib.Data.List.Basic
import Mathlib.Tactic.Common

namespace lib.rfc7230

/-- A character at the front of the first line. -/
def addToFirst (c : UInt8) : List (List UInt8) → List (List UInt8)
  | [] => [[c]]
  | line :: lines => (c :: line) :: lines

/-- The lines that a recipient sees. The last one has no end. -/
def recipientLines (bareLf : Bool) : List UInt8 → List (List UInt8)
  | [] => [[]]
  | [c] => if c = 10 ∧ bareLf then [[], []] else [[c]]
  | c :: d :: rest =>
    if c = 13 ∧ d = 10 then [] :: recipientLines bareLf rest
    else if c = 10 ∧ bareLf then [] :: recipientLines bareLf (d :: rest)
    else addToFirst c (recipientLines bareLf (d :: rest))

/-- A text without a character that ends a line for some recipient, or a part of its end. -/
def OneLine (s : List UInt8) : Prop := 13 ∉ s ∧ 10 ∉ s

instance (s : List UInt8) : Decidable (OneLine s) := inferInstanceAs (Decidable (_ ∧ _))

theorem oneLine_nil : OneLine [] := ⟨by simp, by simp⟩

theorem oneLine_append {s t : List UInt8} : OneLine (s ++ t) ↔ OneLine s ∧ OneLine t := by
  unfold OneLine
  simp only [List.mem_append]
  tauto

theorem oneLine_cons {c : UInt8} {s : List UInt8} :
    OneLine (c :: s) ↔ c ≠ 13 ∧ c ≠ 10 ∧ OneLine s := by
  unfold OneLine
  simp only [List.mem_cons, not_or]
  tauto

/-- Such a text is one line for every recipient. -/
theorem recipientLines_line {line : List UInt8} (h : OneLine line) (bareLf : Bool)
    (rest : List UInt8) :
    recipientLines bareLf (line ++ 13 :: 10 :: rest) = line :: recipientLines bareLf rest := by
  induction line with
  | nil => simp [recipientLines]
  | cons c line ih =>
    obtain ⟨hcr, hlf, hline⟩ := oneLine_cons.mp h
    obtain ⟨d, tail, htail⟩ : ∃ d tail, line ++ 13 :: 10 :: rest = d :: tail := by
      cases line with
      | nil => exact ⟨13, 10 :: rest, rfl⟩
      | cons d line => exact ⟨d, line ++ 13 :: 10 :: rest, rfl⟩
    rw [List.cons_append, htail, recipientLines, if_neg (fun hand => hcr hand.1),
      if_neg (fun hand => hlf hand.1), ← htail, ih hline]
    rfl

end lib.rfc7230
