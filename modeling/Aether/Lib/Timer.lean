-- A timer that is waited on. A cancellation aborts the waits that are going on, and
-- not those whose handlers are already queued. Nothing here is about the proxy.
import Mathlib.Data.List.Basic

namespace lib.timer

variable {α : Type}

/-- The waits that go on, and the handlers that are queued, each with whether it will be told that
it was aborted. -/
structure Timer (α : Type) where
  waits : List α
  queue : List (α × Bool)
  deriving DecidableEq, Repr

namespace Timer

def new : Timer α := ⟨[], []⟩

/-- A new expiry time, or a cancellation. -/
def abort (t : Timer α) : Timer α := ⟨[], t.queue ++ t.waits.map (fun a => (a, true))⟩

def wait (t : Timer α) (a : α) : Timer α := { t with waits := t.waits ++ [a] }

/-- The expiry time is reached. -/
def expire (t : Timer α) : Timer α := ⟨[], t.queue ++ t.waits.map (fun a => (a, false))⟩

/-- A handler of the queue is run. -/
def take (t : Timer α) (i : Nat) : Timer α := { t with queue := t.queue.eraseIdx i }

/-- A handler is queued that will be told of an expiry. -/
def Due (t : Timer α) (a : α) : Prop := (a, false) ∈ t.queue

/-- A handler may still be told of an expiry. -/
def Open (t : Timer α) (a : α) : Prop := a ∈ t.waits ∨ t.Due a

variable {t : Timer α} {a b : α} {i : Nat}

@[simp] theorem due_abort : t.abort.Due a ↔ t.Due a := by simp [Due, abort]

@[simp] theorem open_abort : t.abort.Open a ↔ t.Due a := by simp [Open, Due, abort]

@[simp] theorem open_wait : (t.wait b).Open a ↔ t.Open a ∨ a = b := by
  simp only [Open, Due, wait, List.mem_append, List.mem_singleton]
  constructor
  · rintro ((hwaits | hnew) | hdue)
    · exact .inl (.inl hwaits)
    · exact .inr hnew
    · exact .inl (.inr hdue)
  · rintro ((hwaits | hdue) | hnew)
    · exact .inl (.inl hwaits)
    · exact .inr hdue
    · exact .inl (.inr hnew)

theorem open_expire : t.expire.Open a ↔ t.Open a := by
  simp [Open, Due, expire, Or.comm]

theorem Due.open (h : t.Due a) : t.Open a := .inr h

theorem due_take (h : (t.take i).Due a) : t.Due a := List.mem_of_mem_eraseIdx h

theorem open_take (h : (t.take i).Open a) : t.Open a := by
  rcases h with hwaits | hdue
  · exact .inl hwaits
  · exact .inr (due_take hdue)

end Timer

end lib.timer
