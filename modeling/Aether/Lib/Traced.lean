-- Computations that may fail and that note what they access, up to where they
-- fail. Nothing here is about the proxy.
import Mathlib.Tactic.Common

namespace lib.traced

/-- The accesses of a computation, in their order, and its result. -/
structure Traced (ω ε α : Type) where
  accesses : List ω
  result : Except ε α

namespace Traced

variable {ω ε α β : Type}

def bind (x : Traced ω ε α) (f : α → Traced ω ε β) : Traced ω ε β :=
  match x.result with
  | .error e => ⟨x.accesses, .error e⟩
  | .ok a => ⟨x.accesses ++ (f a).accesses, (f a).result⟩

instance : Monad (Traced ω ε) where
  pure a := ⟨[], .ok a⟩
  bind := bind

/-- One access, and what it gives. -/
def access (w : ω) (result : Except ε α) : Traced ω ε α := ⟨[w], result⟩

/-- A result without any access. -/
def of (result : Except ε α) : Traced ω ε α := ⟨[], result⟩

/-- All accesses are of a kind. -/
def All (P : ω → Prop) (x : Traced ω ε α) : Prop := ∀ w ∈ x.accesses, P w

variable {P : ω → Prop}

@[simp] theorem result_pure (a : α) : (pure a : Traced ω ε α).result = .ok a := rfl

@[simp] theorem result_of (r : Except ε α) : (of r : Traced ω ε α).result = r := rfl

@[simp] theorem result_access (w : ω) (r : Except ε α) : (access w r).result = r := rfl

@[simp] theorem result_bind (x : Traced ω ε α) (f : α → Traced ω ε β) :
    (x >>= f).result = x.result >>= fun a => (f a).result := by
  rcases x with ⟨l, e | a⟩ <;> rfl

@[simp] theorem all_pure (a : α) : (pure a : Traced ω ε α).All P := fun _ hw => (by cases hw)

@[simp] theorem all_of (r : Except ε α) : (of r : Traced ω ε α).All P := fun _ hw => (by cases hw)

@[simp] theorem all_access (w : ω) (r : Except ε α) : (access w r).All P ↔ P w :=
  List.forall_mem_singleton

/-- What comes after a computation is accessed if it gives something. -/
theorem all_bind {x : Traced ω ε α} {f : α → Traced ω ε β} :
    (x >>= f).All P ↔ x.All P ∧ ∀ a, x.result = .ok a → (f a).All P := by
  rcases x with ⟨l, e | a⟩
  · constructor
    · intro h
      exact ⟨h, fun a ha => (by cases ha)⟩
    · rintro ⟨h, -⟩
      exact h
  · have hsame : ((⟨l, .ok a⟩ : Traced ω ε α) >>= f).All P ↔ ∀ w ∈ l ++ (f a).accesses, P w :=
      Iff.rfl
    rw [hsame, List.forall_mem_append]
    constructor
    · rintro ⟨hl, hf⟩
      refine ⟨hl, ?_⟩
      intro a' ha'
      obtain rfl := Except.ok.inj ha'
      exact hf
    · rintro ⟨hl, hf⟩
      exact ⟨hl, hf a rfl⟩

/-- A computation keeps to a kind if its parts do. -/
theorem all_bind_of {x : Traced ω ε α} {f : α → Traced ω ε β} (hx : x.All P)
    (hf : ∀ a, x.result = .ok a → (f a).All P) : (x >>= f).All P := all_bind.mpr ⟨hx, hf⟩

end Traced

end lib.traced
