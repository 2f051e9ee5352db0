-- Readers that are called once for each piece of their input, over what the call before left and
-- the piece, until they have what they read for. Nothing here is about the proxy.
import Mathlib.Data.List.Basic
import Mathlib.Tactic.Common

namespace lib.pieces

variable {σ α ε : Type}

/-- One call for each piece: the state, and what the last call left. -/
def feed (read : σ → List α → Except ε (σ × List α)) (s : σ) (left : List α) :
    List (List α) → Except ε (σ × List α)
  | [] => .ok (s, left)
  | piece :: pieces => do
    let (s, left) ← read s (left ++ piece)
    feed read s left pieces

/-- The calls after a first one. -/
def feed_rest (read : σ → List α → Except ε (σ × List α)) (pieces : List (List α))
    (first : Except ε (σ × List α)) : Except ε (σ × List α) :=
  first >>= fun r => feed read r.1 r.2 pieces

variable {read : σ → List α → Except ε (σ × List α)}

theorem feed_cons (s : σ) (left piece : List α) (pieces : List (List α)) :
    feed read s left (piece :: pieces) = feed_rest read pieces (read s (left ++ piece)) := rfl

@[simp] theorem feed_rest_ok (s : σ) (left : List α) (pieces : List (List α)) :
    feed_rest read pieces (.ok (s, left)) = feed read s left pieces := rfl

@[simp] theorem feed_rest_error (e : ε) (pieces : List (List α)) :
    feed_rest read pieces (.error e) = .error e := rfl

/-- A reader that has what it read for leaves all that comes. -/
theorem feed_done {s : σ} (h : ∀ a, read s a = .ok (s, a)) (left : List α)
    (pieces : List (List α)) : feed read s left pieces = .ok (s, left ++ pieces.flatten) := by
  induction pieces generalizing left with
  | nil =>
    rw [List.flatten_nil, List.append_nil]
    rfl
  | cons piece pieces ih =>
    rw [feed_cons, h, feed_rest_ok, ih, List.flatten_cons, List.append_assoc]

/-- A reader that takes all of its input as long as this does not end: `Open a s` is a state after
the input `a`, and `Result a r` is what the call comes to in which the input ends. -/
structure Collects (read : σ → List α → Except ε (σ × List α)) (Open : List α → σ → Prop)
    (Ends : List α → Prop) (Result : List α → Except ε (σ × List α) → Prop) : Prop where
  more : ∀ {a s w}, Open a s → ¬ Ends (a ++ w) → ∃ s', read s w = .ok (s', []) ∧ Open (a ++ w) s'
  ends : ∀ {a s w}, Open a s → ¬ Ends a → Ends (a ++ w) → Result (a ++ w) (read s w)
  grows : ∀ {a w}, Ends a → Ends (a ++ w)
  stays : ∀ {a r} (pieces : List (List α)), Result a r →
    Result (a ++ pieces.flatten) (feed_rest read pieces r)

namespace Collects

variable {Open : List α → σ → Prop} {Ends : List α → Prop}
  {Result : List α → Except ε (σ × List α) → Prop} {a : List α} {s : σ}
  {pieces : List (List α)}

/-- Whatever the cuts, all of the input is taken where it does not end. -/
theorem feed_open (h : Collects read Open Ends Result) (hs : Open a s)
    (hnot : ¬ Ends (a ++ pieces.flatten)) :
    ∃ s', feed read s [] pieces = .ok (s', []) ∧ Open (a ++ pieces.flatten) s' := by
  induction pieces generalizing a s with
  | nil =>
    rw [List.flatten_nil, List.append_nil]
    exact ⟨s, rfl, hs⟩
  | cons piece pieces ih =>
    rw [List.flatten_cons, ← List.append_assoc] at hnot ⊢
    obtain ⟨s', hread, hs'⟩ := h.more hs fun hends => hnot (h.grows hends)
    rw [feed_cons, List.nil_append, hread, feed_rest_ok]
    exact ih hs' hnot

/-- Whatever the cuts, the calls come to the result where it does. -/
theorem feed_ends (h : Collects read Open Ends Result) (hs : Open a s) (hnot : ¬ Ends a)
    (hends : Ends (a ++ pieces.flatten)) :
    Result (a ++ pieces.flatten) (feed read s [] pieces) := by
  induction pieces generalizing a s with
  | nil =>
    rw [List.flatten_nil, List.append_nil] at hends
    exact absurd hends hnot
  | cons piece pieces ih =>
    rw [List.flatten_cons, ← List.append_assoc] at hends ⊢
    rw [feed_cons, List.nil_append]
    by_cases hfirst : Ends (a ++ piece)
    · exact h.stays pieces (h.ends hs hnot hfirst)
    · obtain ⟨s', hread, hs'⟩ := h.more hs hfirst
      rw [hread, feed_rest_ok]
      exact ih hs' hfirst hends

end Collects

end lib.pieces
