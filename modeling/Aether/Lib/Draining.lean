-- A queue that many fill and one drains, where the test, the look at the front,
-- the use of it and the pop are steps of their own. Nothing here is about the
-- proxy.
import Mathlib.Data.List.Basic

namespace lib.draining

variable {α : Type}

/-- Where the one who drains is. -/
inductive Point (α : Type) where
  | outside
  | test
  | front
  | use (a : α)
  | pop
  /-- The front of an empty queue was asked for, or popped. -/
  | broken
  deriving DecidableEq, Repr

/-- The queue, with all that was ever pushed and all that was used. -/
structure Drain (α : Type) where
  queue : List α
  point : Point α
  pushed : List α
  used : List α

inductive Move (α : Type) where
  /-- By anyone, at any time. -/
  | push (a : α)
  | enter
  | go
  deriving DecidableEq, Repr

def Drain.move (d : Drain α) : Move α → Option (Drain α)
  | .push a => some { d with queue := d.queue ++ [a], pushed := d.pushed ++ [a] }
  | .enter =>
    match d.point with
    | .outside => some { d with point := .test }
    | _ => none
  | .go =>
    match d.point, d.queue with
    | .test, [] => some { d with point := .outside }
    | .test, _ :: _ => some { d with point := .front }
    | .front, [] => some { d with point := .broken }
    | .front, a :: _ => some { d with point := .use a }
    | .use a, _ => some { d with used := d.used ++ [a], point := .pop }
    | .pop, [] => some { d with point := .broken }
    | .pop, _ :: rest => some { d with queue := rest, point := .test }
    | .outside, _ => none
    | .broken, _ => none

/-- What is still to be used: the front stays in the queue until it is popped. -/
def Drain.left (d : Drain α) : List α :=
  match d.point with
  | .pop => d.queue.tail
  | _ => d.queue

/-- What the point says of the queue. -/
def Drain.Fits (d : Drain α) : Prop :=
  match d.point with
  | .outside => True
  | .test => True
  | .front => d.queue ≠ []
  | .use a => d.queue.head? = some a
  | .pop => d.queue ≠ []
  | .broken => False

/-- All that was pushed was used, in order and once, or is still to be used. -/
structure Drain.Sound (d : Drain α) : Prop where
  fits : d.Fits
  order : d.pushed = d.used ++ d.left

/-- One move, or none. -/
def Moves (d d' : Drain α) : Prop := d' = d ∨ ∃ m, d.move m = some d'

theorem sound_new : (⟨[], .outside, [], []⟩ : Drain α).Sound := ⟨trivial, rfl⟩

/-- The front is still the front when others have pushed. -/
theorem Drain.Sound.push {d : Drain α} (h : d.Sound) (a : α) :
    Drain.Sound { d with queue := d.queue ++ [a], pushed := d.pushed ++ [a] } := by
  obtain ⟨hfits, horder⟩ := h
  rcases d with ⟨queue, point, pushed, used⟩
  simp only [Fits, left] at hfits horder
  subst horder
  cases point with
  | outside => exact ⟨trivial, by simp [left]⟩
  | test => exact ⟨trivial, by simp [left]⟩
  | front => exact ⟨by simp [Fits], by simp [left]⟩
  | use b =>
    refine ⟨?_, by simp [left]⟩
    cases queue with
    | nil => cases hfits
    | cons c rest => exact hfits
  | pop =>
    cases queue with
    | nil => exact absurd rfl hfits
    | cons c rest => exact ⟨by simp [Fits], by simp [left]⟩
  | broken => cases hfits

theorem Drain.Sound.go {d d' : Drain α} (h : d.Sound) (hm : d.move .go = some d') : d'.Sound := by
  obtain ⟨hfits, horder⟩ := h
  rcases d with ⟨queue, point, pushed, used⟩
  simp only [Fits, left] at hfits horder
  subst horder
  cases point with
  | outside => cases hm
  | test =>
    cases queue with
    | nil => cases hm; exact ⟨trivial, rfl⟩
    | cons a rest => cases hm; exact ⟨by simp [Fits], rfl⟩
  | front =>
    cases queue with
    | nil => exact absurd rfl hfits
    | cons a rest => cases hm; exact ⟨rfl, rfl⟩
  | use a =>
    cases queue with
    | nil => cases hfits
    | cons b rest =>
      cases hfits
      cases hm
      exact ⟨by simp [Fits], by simp [left]⟩
  | pop =>
    cases queue with
    | nil => exact absurd rfl hfits
    | cons a rest => cases hm; exact ⟨trivial, rfl⟩
  | broken => cases hfits

theorem Drain.Sound.moves {d d' : Drain α} (h : d.Sound) (hm : Moves d d') : d'.Sound := by
  rcases hm with rfl | ⟨m, hm⟩
  · exact h
  · cases m with
    | push a => cases hm; exact h.push a
    | enter =>
      obtain ⟨-, horder⟩ := h
      rcases d with ⟨queue, point, pushed, used⟩
      cases point with
      | outside => cases hm; exact ⟨trivial, horder⟩
      | _ => cases hm
    | go => exact h.go hm

/-- What was pushed and what was used only grows. -/
theorem Moves.grows {d d' : Drain α} (h : Moves d d') :
    d.pushed <+: d'.pushed ∧ d.used <+: d'.used := by
  rcases h with rfl | ⟨m, hm⟩
  · exact ⟨List.prefix_rfl, List.prefix_rfl⟩
  · rcases d with ⟨queue, point, pushed, used⟩
    cases m with
    | push a => cases hm; exact ⟨List.prefix_append .., List.prefix_rfl⟩
    | enter =>
      cases point with
      | outside => cases hm; exact ⟨List.prefix_rfl, List.prefix_rfl⟩
      | _ => cases hm
    | go =>
      cases point with
      | use a => cases hm; exact ⟨List.prefix_rfl, List.prefix_append ..⟩
      | outside => cases hm
      | broken => cases hm
      | _ => cases queue <;> cases hm <;> exact ⟨List.prefix_rfl, List.prefix_rfl⟩

/-- Whoever leaves has used all that was pushed. -/
theorem Drain.Sound.leave {d d' : Drain α} (h : d.Sound) (hm : Moves d d')
    (hin : d.point ≠ .outside) (hout : d'.point = .outside) : d'.used = d'.pushed := by
  rcases hm with rfl | ⟨m, hm⟩
  · exact absurd hout hin
  · obtain ⟨hfits, horder⟩ := h
    rcases d with ⟨queue, point, pushed, used⟩
    simp only [Fits, left] at hfits horder
    cases m with
    | push a => cases hm; exact absurd hout hin
    | enter =>
      cases point with
      | outside => exact absurd rfl hin
      | _ => cases hm
    | go =>
      cases point with
      | test =>
        cases queue with
        | nil => cases hm; simpa using horder.symm
        | cons a rest => cases hm; cases hout
      | outside => exact absurd rfl hin
      | broken => cases hfits
      | use a => cases hm; cases hout
      | _ => cases queue <;> cases hm <;> cases hout

/-- What was pushed is used once the drain is left. -/
theorem Drain.Sound.keep {d d' : Drain α} {as : List α} (h : d.Sound) (hm : Moves d d')
    (hp : as <+: d.pushed) (hi : d.point ≠ .outside ∨ as <+: d.used) :
    d'.point ≠ .outside ∨ as <+: d'.used := by
  by_cases hout : d'.point = .outside
  · right
    rcases hi with hin | hused
    · rw [h.leave hm hin hout]
      exact hp.trans hm.grows.1
    · exact hused.trans hm.grows.2
  · exact .inl hout

theorem Drain.Sound.used_le {d : Drain α} (h : d.Sound) : d.used.length ≤ d.pushed.length := by
  rw [h.order, List.length_append]
  exact Nat.le_add_right ..

end lib.draining
