-- Objects with a count of references, which places and others hold. Nothing here is about the
-- proxy.
import Mathlib.Data.Set.Card
import Mathlib.Logic.Function.Basic
import Mathlib.Tactic.Common

open Function

namespace lib.shared_objects

variable {ι α : Type}

/-- How many places hold an object. -/
noncomputable def holders (own : ι → Option α) (a : α) : Nat := {i | own i = some a}.ncard

def Supported (own : ι → Option α) : Prop := {i | own i ≠ none}.Finite

/-- The count of an object is that of its references: those of places, those of others, and those
that are by hand. The last are fewer than none if others hold one that was not counted. -/
structure Counted (own : ι → Option α) (outside : α → Nat) (raw : α → Int)
    (references : α → Nat) : Prop where
  supported : Supported own
  counts : ∀ a, (references a : Int) = holders own a + outside a + raw a

section

variable {own : ι → Option α} {outside outside' : α → Nat} {raw raw' : α → Int}
  {references references' : α → Nat} {i : ι} {a : α}

theorem Supported.held (h : Supported own) (a : α) : {i | own i = some a}.Finite := by
  refine Set.Finite.subset h ?_
  intro i hi hnone
  rw [Set.mem_ofPred_eq, hnone] at hi
  cases hi

theorem holders_pos (h : Supported own) (hi : own i = some a) : 0 < holders own a :=
  (Set.ncard_pos (h.held a)).mpr ⟨i, hi⟩

theorem holders_eq_zero (h : ∀ i, own i ≠ some a) : holders own a = 0 := by
  have hempty : {i | own i = some a} = ∅ := Set.eq_empty_of_forall_notMem h
  rw [holders, hempty, Set.ncard_empty]

theorem supported_nothing : Supported (fun _ : ι => (none : Option α)) := by
  have hempty : {i : ι | (none : Option α) ≠ none} = ∅ :=
    Set.eq_empty_of_forall_notMem fun _ h => h rfl
  rw [Supported, hempty]
  exact Set.finite_empty

/-- What is held is counted, and what is counted is there. -/
theorem Counted.there (h : Counted own outside raw references) (hraw : 0 ≤ raw a)
    (hi : own i = some a) : 0 < references a := by
  have hcounts := h.counts a
  have hpos := holders_pos h.supported hi
  omega

/-- Nothing is held by another place, and the others make up for the count. -/
theorem Counted.others (h : Counted own outside raw references)
    (hsame : ∀ b, (references' b : Int) - outside' b - raw' b =
      references b - outside b - raw b) : Counted own outside' raw' references' := by
  refine ⟨h.supported, fun b => ?_⟩
  have hcounts := h.counts b
  have hb := hsame b
  omega

theorem counted_nothing :
    Counted (fun _ : ι => (none : Option α)) (fun _ => 0) (fun _ => 0) (fun _ => 0) where
  supported := supported_nothing
  counts a := by
    rw [holders_eq_zero (by simp)]
    rfl

end

/-! ## What keeps the count -/

section

variable [DecidableEq α] {own : ι → Option α} {outside : α → Nat} {raw : α → Int}
  {references : α → Nat} {a : α}

/-- A reference more is by hand. -/
theorem Counted.add_raw (h : Counted own outside raw references) (a : α) :
    Counted own outside (update raw a (raw a + 1)) (update references a (references a + 1)) := by
  refine h.others fun b => ?_
  by_cases hb : b = a
  · subst hb
    simp
    omega
  · simp [hb]

/-- The others share an object. -/
theorem Counted.add_outside (h : Counted own outside raw references) (a : α) :
    Counted own (update outside a (outside a + 1)) raw
      (update references a (references a + 1)) := by
  refine h.others fun b => ?_
  by_cases hb : b = a
  · subst hb
    simp
  · simp [hb]

/-- The others give a reference back. -/
theorem Counted.drop_outside (h : Counted own outside raw references) (hout : 0 < outside a)
    (hthere : 0 < references a) :
    Counted own (update outside a (outside a - 1)) raw
      (update references a (references a - 1)) := by
  refine h.others fun b => ?_
  by_cases hb : b = a
  · subst hb
    simp
    omega
  · simp [hb]

/-- The others take over a reference that is by hand, or one that is not counted. -/
theorem Counted.adopt (h : Counted own outside raw references) (a : α) :
    Counted own (update outside a (outside a + 1)) (update raw a (raw a - 1)) references := by
  refine h.others fun b => ?_
  by_cases hb : b = a
  · subst hb
    simp
    omega
  · simp [hb]

end

section

variable {own : ι → Option α} {outside outside' : α → Nat} {raw raw' : α → Int}
  {references references' : α → Nat} {i j : ι} {a : α}

variable [DecidableEq ι]

theorem Supported.update (h : Supported own) (i : ι) (x : Option α) :
    Supported (update own i x) := by
  refine Set.Finite.subset (Set.Finite.insert i h) ?_
  intro k hk
  by_cases hki : k = i
  · exact .inl hki
  · refine .inr ?_
    rw [Set.mem_ofPred_eq, update_of_ne hki] at hk
    exact hk

variable [DecidableEq α]

theorem held_update (own : ι → Option α) (i : ι) (x : Option α) (a : α) :
    {k | update own i x k = some a} =
      if x = some a then insert i ({k | own k = some a} \ {i}) else {k | own k = some a} \ {i} := by
  ext k
  by_cases hki : k = i
  · subst hki
    split <;> rename_i hx <;> simp [hx]
  · split <;> simp [hki]

/-- Another place is counted, and the old one is not. -/
theorem holders_update (h : Supported own) (i : ι) (x : Option α) (a : α) :
    holders (update own i x) a + (if own i = some a then 1 else 0) =
      holders own a + (if x = some a then 1 else 0) := by
  have hfinite := h.held a
  have hrest : ({k | own k = some a} \ {i}).ncard + (if own i = some a then 1 else 0) =
      {k | own k = some a}.ncard := by
    split
    · rename_i hi
      exact Set.ncard_sdiff_singleton_add_one hi hfinite
    · rename_i hi
      rw [Set.sdiff_singleton_eq_self (by exact hi), Nat.add_zero]
  have hnot : i ∉ {k | own k = some a} \ {i} := fun hi => hi.2 rfl
  unfold holders
  rw [held_update]
  split
  · rw [Set.ncard_insert_of_notMem hnot hfinite.sdiff, ← hrest]
    omega
  · exact hrest

/-- A place holds something else, and the others make up for it. -/
theorem Counted.place (h : Counted own outside raw references) (i : ι) (x : Option α)
    (hsame : ∀ b, (references' b : Int) - outside' b - raw' b - (if x = some b then 1 else 0) =
      references b - outside b - raw b - (if own i = some b then 1 else 0)) :
    Counted (update own i x) outside' raw' references' := by
  refine ⟨h.supported.update i x, fun b => ?_⟩
  have hcounts := h.counts b
  have hb := hsame b
  have hholders := holders_update h.supported i x b
  by_cases hx : x = some b <;> by_cases hi : own i = some b <;>
    simp only [hx, hi, if_true, if_false] at hb hholders ⊢ <;> omega

/-- An empty place shares an object. -/
theorem Counted.share (h : Counted own outside raw references) (hi : own i = none) (a : α) :
    Counted (update own i (some a)) outside raw (update references a (references a + 1)) := by
  refine h.place i (some a) fun b => ?_
  by_cases hb : b = a
  · subst hb
    simp [hi]
    omega
  · simp [hi, hb, Ne.symm hb]

/-- A place gives its reference back. -/
theorem Counted.release (h : Counted own outside raw references) (hi : own i = some a)
    (hthere : 0 < references a) :
    Counted (update own i none) outside raw (update references a (references a - 1)) := by
  refine h.place i none fun b => ?_
  by_cases hb : b = a
  · subst hb
    simp [hi]
    omega
  · simp [hi, hb, Ne.symm hb]

/-- An empty place takes over a reference that is by hand. -/
theorem Counted.take_over (h : Counted own outside raw references) (hi : own i = none) (a : α) :
    Counted (update own i (some a)) outside (update raw a (raw a - 1)) references := by
  refine h.place i (some a) fun b => ?_
  by_cases hb : b = a
  · subst hb
    simp [hi]
    omega
  · simp [hi, hb, Ne.symm hb]

/-- The reference of a place is by hand. -/
theorem Counted.give_up (h : Counted own outside raw references) (hi : own i = some a) :
    Counted (update own i none) outside (update raw a (raw a + 1)) references := by
  refine h.place i none fun b => ?_
  by_cases hb : b = a
  · subst hb
    simp [hi]
    omega
  · simp [hi, hb, Ne.symm hb]

/-- Two places exchange what they hold. -/
theorem Counted.exchange (h : Counted own outside raw references) (i j : ι) :
    Counted (update (update own i (own j)) j (own i)) outside raw references := by
  refine ⟨(h.supported.update i _).update j _, fun b => ?_⟩
  have hcounts := h.counts b
  have hfirst := holders_update h.supported i (own j) b
  have hsecond := holders_update (h.supported.update i (own j)) j (own i) b
  by_cases hij : j = i
  · subst hij
    rw [update_eq_self] at *
    rw [update_eq_self]
    exact hcounts
  · rw [update_of_ne hij] at hsecond
    omega

end

end lib.shared_objects
