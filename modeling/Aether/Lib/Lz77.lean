-- Messages compressed as in LZ77, by references into what stands before, and
-- who can read what another one wrote. Nothing here is about the proxy.
import Mathlib.Data.List.Basic

namespace lib.lz77

variable {α : Type}

/-- An element, or `length` elements that each repeat the one `distance` before. -/
inductive Token (α : Type) where
  | literal (a : α)
  | copy (distance length : Nat)
  deriving DecidableEq, Repr

def copyBack (distance : Nat) : Nat → List α → Option (List α)
  | 0, out => some out
  | n + 1, out => out[out.length - distance]?.bind fun a => copyBack distance n (out ++ [a])

/-- A token behind the output so far. It may not go further back than the window or the output. -/
def decodeToken (window : Nat) (out : List α) : Token α → Option (List α)
  | .literal a => some (out ++ [a])
  | .copy distance length =>
    if 0 < distance ∧ distance ≤ window ∧ distance ≤ out.length then copyBack distance length out
    else none

def decodeTokens (window : Nat) (out : List α) : List (Token α) → Option (List α)
  | [] => some out
  | t :: ts => (decodeToken window out t).bind fun out => decodeTokens window out ts

/-- One end of a stream of messages: how far back it refers, and whether it keeps the messages
before as a context. -/
structure Coder where
  window : Nat
  keeps : Bool
  deriving DecidableEq, Repr

/-- The messages that the coder makes of a run of compressed ones. -/
def Coder.messages (c : Coder) (context : List α) : List (List (Token α)) → Option (List (List α))
  | [] => some []
  | ts :: rest =>
    (decodeTokens c.window context ts).bind fun out =>
      (c.messages (if c.keeps then out else []) rest).map fun ms => out.drop context.length :: ms

/-- All that the one writes, with the references that its window and its context give it, is read as
the same messages by the other. -/
def Reads (α : Type) (reader writer : Coder) : Prop :=
  ∀ (streams : List (List (Token α))) (ms : List (List α)),
    writer.messages [] streams = some ms → reader.messages [] streams = some ms

/-! ## More before the output -/

theorem copyBack_append (pre : List α) {distance n : Nat} {out out' : List α}
    (hd : distance ≤ out.length) (h : copyBack distance n out = some out') :
    copyBack distance n (pre ++ out) = some (pre ++ out') := by
  induction n generalizing out with
  | zero =>
    cases h
    rfl
  | succ n ih =>
    rw [copyBack] at h ⊢
    obtain ⟨a, ha, hrest⟩ := Option.bind_eq_some_iff.mp h
    have hsame : (pre ++ out)[(pre ++ out).length - distance]? = some a := by
      rw [List.length_append, Nat.add_sub_assoc hd,
        List.getElem?_append_right (Nat.le_add_right ..),
        Nat.add_sub_cancel_left]
      exact ha
    rw [hsame, Option.bind_some, List.append_assoc]
    refine ih ?_ hrest
    rw [List.length_append]
    exact Nat.le_add_right_of_le hd

theorem decodeToken_append (pre : List α) {window window' : Nat} (hw : window ≤ window')
    {out out' : List α} {t : Token α} (h : decodeToken window out t = some out') :
    decodeToken window' (pre ++ out) t = some (pre ++ out') := by
  cases t with
  | literal a =>
    cases h
    simp [decodeToken]
  | copy distance length =>
    simp only [decodeToken] at h ⊢
    by_cases hin : 0 < distance ∧ distance ≤ window ∧ distance ≤ out.length
    · rw [if_pos hin] at h
      have hin' : 0 < distance ∧ distance ≤ window' ∧ distance ≤ (pre ++ out).length := by
        rw [List.length_append]
        omega
      rw [if_pos hin']
      exact copyBack_append pre hin.2.2 h
    · rw [if_neg hin] at h
      cases h

/-- Tokens mean the same with a larger window and with more before them. -/
theorem decodeTokens_append (pre : List α) {window window' : Nat} (hw : window ≤ window')
    {out out' : List α} {ts : List (Token α)} (h : decodeTokens window out ts = some out') :
    decodeTokens window' (pre ++ out) ts = some (pre ++ out') := by
  induction ts generalizing out with
  | nil =>
    cases h
    rfl
  | cons t ts ih =>
    rw [decodeTokens] at h ⊢
    obtain ⟨mid, hmid, hrest⟩ := Option.bind_eq_some_iff.mp h
    rw [decodeToken_append pre hw hmid, Option.bind_some]
    exact ih hrest

theorem decodeTokens_literals (window : Nat) (out as : List α) (ts : List (Token α)) :
    decodeTokens window out (as.map Token.literal ++ ts) = decodeTokens window (out ++ as) ts := by
  induction as generalizing out with
  | nil => rw [List.map_nil, List.nil_append, List.append_nil]
  | cons a as ih =>
    rw [List.map_cons, List.cons_append, decodeTokens, decodeToken, Option.bind_some, ih,
      List.append_assoc, List.singleton_append]

/-! ## Who reads whom -/

theorem messages_of_le {writer reader : Coder} (hw : writer.window ≤ reader.window)
    (hk : writer.keeps = true → reader.keeps = true) (pre context : List α)
    {streams : List (List (Token α))} {ms : List (List α)}
    (h : writer.messages context streams = some ms) :
    reader.messages (pre ++ context) streams = some ms := by
  induction streams generalizing pre context ms with
  | nil => exact h
  | cons ts rest ih =>
    rw [Coder.messages] at h ⊢
    obtain ⟨out, hout, hrest⟩ := Option.bind_eq_some_iff.mp h
    obtain ⟨ms', hms', rfl⟩ := Option.map_eq_some_iff.mp hrest
    rw [decodeTokens_append pre hw hout, Option.bind_some]
    -- What the reader keeps ends with what the writer keeps.
    have hkept : ∃ pre', (if reader.keeps then pre ++ out else []) =
        pre' ++ if writer.keeps then out else [] := by
      rcases hwk : writer.keeps with _ | _
      · exact ⟨_, (List.append_nil _).symm⟩
      · rw [hk hwk]
        exact ⟨pre, rfl⟩
    obtain ⟨pre', hpre'⟩ := hkept
    rw [hpre', ih _ _ hms', Option.map_some, List.length_append, List.drop_length_add_append]

/-- A reader needs the window of the writer, and its context if the writer keeps one. -/
theorem reads_iff [Nonempty α] {reader writer : Coder} (h0 : 0 < writer.window) :
    Reads α reader writer ↔
      writer.window ≤ reader.window ∧ (writer.keeps = true → reader.keeps = true) := by
  obtain ⟨a⟩ := ‹Nonempty α›
  constructor
  · intro h
    constructor
    · -- A reference one further back than the window of the reader.
      by_contra hlt
      have hwrites : writer.messages [] [(List.replicate (reader.window + 1) a).map Token.literal ++
          [.copy (reader.window + 1) 1]] = some [List.replicate (reader.window + 1) a ++ [a]] := by
        have hin : 0 < reader.window + 1 ∧ reader.window + 1 ≤ writer.window ∧
            reader.window + 1 ≤ (List.replicate (reader.window + 1) a).length := by
          rw [List.length_replicate]
          omega
        simp only [Coder.messages, decodeTokens_literals, List.nil_append, decodeTokens,
          decodeToken,
          if_pos hin, copyBack]
        simp [List.replicate_succ]
      have hreads := h _ _ hwrites
      simp only [Coder.messages, decodeTokens_literals, List.nil_append, decodeTokens,
        decodeToken] at hreads
      rw [if_neg (by omega)] at hreads
      cases hreads
    · -- A reference into the message before.
      intro hk
      by_contra hforgets
      have hwrites : writer.messages [] [[.literal a], [.copy 1 1]] = some [[a], [a]] := by
        have hin : 0 < 1 ∧ 1 ≤ writer.window ∧ 1 ≤ ([] ++ [a]).length := ⟨by decide, h0, by simp⟩
        simp only [Coder.messages, decodeTokens, decodeToken, Option.bind_some, hk, if_true,
          if_pos hin,
          copyBack]
        rfl
      have hreads := h _ _ hwrites
      simp [Coder.messages, decodeTokens, decodeToken, hforgets] at hreads
  · rintro ⟨hw, hk⟩ streams ms hm
    exact messages_of_le hw hk [] [] hm

end lib.lz77
