-- What the smart pointers are for: pointers that share objects, where an object is there as long
-- as it is owned. The counts of `util/openssl_ptrs.hpp` agree with it as long as no reference is
-- spent twice.
import Aether.Util.OpensslPtrs

open Function lib.shared_objects

namespace openssl.ptrs

/-! ## Shared objects -/

/-- Pointers that share objects. An object has no count. -/
structure Shares where
  pointers : Nat → Option Pointer
  /-- How often the objects of OpenSSL own an object. -/
  outside : Nat → Nat
  /-- The references that the program has by hand. It has fewer than none of an object if it gave
  one away that it did not have. -/
  raw : Nat → Int

namespace Shares

def new : Shares := ⟨fun _ => none, fun _ => 0, fun _ => 0⟩

variable (t : Shares) (p : Nat) (a : Nat)

/-- What a pointer owns. -/
def own : Option Nat := (t.pointers p).bind Pointer.native_

def set (x : Option Pointer) : Shares := { t with pointers := update t.pointers p x }

def add_outside : Shares := { t with outside := update t.outside a (t.outside a + 1) }

def drop_outside : Shares := { t with outside := update t.outside a (t.outside a - 1) }

def add_raw : Shares := { t with raw := update t.raw a (t.raw a + 1) }

def spend_raw : Shares := { t with raw := update t.raw a (t.raw a - 1) }

/-- Somebody owns the object. -/
def Owned : Prop := (∃ p, t.own p = some a) ∨ 0 < t.outside a ∨ 0 < t.raw a

def Unused (made : Option Nat) : Prop := ∀ a, made = some a → ¬ t.Owned a

end Shares

/-- What the events mean for pointers that share objects. -/
inductive Step (t : Shares) : Event → Shares → Prop where
  | construct {p : Nat} (free : t.pointers p = none) (type : NativeType) :
    Step t (.construct p type) (t.set p (some ⟨type, none⟩))
  | in_place {p : Nat} (free : t.pointers p = none) (type : NativeType) {made : Option Nat}
    (unused : t.Unused made) : Step t (.in_place p type made) (t.set p (some ⟨type, made⟩))
  | wrap_null {p : Nat} (free : t.pointers p = none) (type : NativeType) :
    Step t (.wrap_unique p type none) (t.set p (some ⟨type, none⟩))
  | wrap_unique {p : Nat} (free : t.pointers p = none) (type : NativeType) (a : Nat) :
    Step t (.wrap_unique p type (some a)) ((t.set p (some ⟨type, some a⟩)).spend_raw a)
  | reference {p : Nat} (free : t.pointers p = none) {type : NativeType}
    (counted : type.counted = true) {a : Nat} (owned : t.Owned a) :
    Step t (.reference p type (some a)) (t.set p (some ⟨type, some a⟩))
  | copy_construct {p ptr : Nat} {y : Pointer} (free : t.pointers p = none)
    (there : t.pointers ptr = some y) (counted : y.type.counted = true) :
    Step t (.copy_construct p ptr) (t.set p (some y))
  | copy_assign {p ptr : Nat} {x y : Pointer} (assigned : t.pointers p = some x)
    (there : t.pointers ptr = some y) (type : x.type = y.type) (counted : x.type.counted = true) :
    Step t (.copy_assign p ptr) (t.set p (some y))
  | move_construct {p ptr : Nat} {y : Pointer} (free : t.pointers p = none)
    (there : t.pointers ptr = some y) :
    Step t (.move_construct p ptr) ((t.set p (some y)).set ptr (some ⟨y.type, none⟩))
  | move_assign {p ptr : Nat} {x y : Pointer} (assigned : t.pointers p = some x)
    (there : t.pointers ptr = some y) (type : x.type = y.type) :
    Step t (.move_assign p ptr) ((t.set p (some y)).set ptr (some x))
  | increment {p a : Nat} {x : Pointer} (there : t.pointers p = some x)
    (counted : x.type.counted = true) (some_ : x.native_ = some a) :
    Step t (.increment p) (t.add_raw a)
  | open_null {p : Nat} {x : Pointer} (there : t.pointers p = some x)
    (opens : x.type.opens = true) (null : x.native_ = none) {made : Option Nat}
    (unused : t.Unused made) : Step t (.open_ p made) (t.set p (some ⟨x.type, made⟩))
  | open_some {p a : Nat} {x : Pointer} (there : t.pointers p = some x)
    (opens : x.type.opens = true) (some_ : x.native_ = some a) {made : Option Nat}
    (unused : t.Unused made) :
    Step t (.open_ p made) ((t.set p (some ⟨x.type, made⟩)).add_raw a)
  | wrap_null_file {p file : Nat} (free : t.pointers p = none)
    (there : t.pointers file = some ⟨.file, none⟩) {made : Option Nat} (unused : t.Unused made) :
    Step t (.wrap_file p file made) (t.set p (some ⟨.bio, made⟩))
  | wrap_file {p file f a : Nat} (free : t.pointers p = none)
    (there : t.pointers file = some ⟨.file, some f⟩) (unused : ¬ t.Owned a) :
    Step t (.wrap_file p file (some a))
      (((t.set p (some ⟨.bio, some a⟩)).set file (some ⟨.file, none⟩)).add_outside f)
  | wrap_fails {p file f : Nat} (free : t.pointers p = none)
    (there : t.pointers file = some ⟨.file, some f⟩) :
    Step t (.wrap_file p file none)
      (((t.set p (some ⟨.bio, none⟩)).set file (some ⟨.file, none⟩)).add_raw f)
  | destroy {p : Nat} {x : Pointer} (there : t.pointers p = some x) :
    Step t (.destroy p) (t.set p none)
  | give {a : Nat} (unused : ¬ t.Owned a) : Step t (.give a) (t.add_raw a)
  | get {a : Nat} (owned : t.Owned a) : Step t (.get a) (t.add_raw a)
  | make {a : Nat} (unused : ¬ t.Owned a) : Step t (.make a) (t.add_outside a)
  | share {p a : Nat} {x : Pointer} (there : t.pointers p = some x)
    (some_ : x.native_ = some a) : Step t (.share p) (t.add_outside a)
  | adopt {p a : Nat} {x : Pointer} (there : t.pointers p = some x)
    (some_ : x.native_ = some a) : Step t (.adopt p) ((t.add_outside a).spend_raw a)
  | drop {a : Nat} (outside : 0 < t.outside a) : Step t (.drop a) (t.drop_outside a)

/-- A run whose states all have a property. -/
inductive Run (P : Shares → Prop) : Shares → List Event → Shares → Prop where
  | nil {t : Shares} (h : P t) : Run P t [] t
  | cons {t t₁ t' : Shares} {e : Event} {es : List Event} (h : P t) (step : Step t e t₁)
    (run : Run P t₁ es t') : Run P t (e :: es) t'

namespace Run

variable {P : Shares → Prop} {t t' : Shares}

theorem append {es es' : List Event} (h : Run P t (es ++ es') t') :
    ∃ t₁, Run P t es t₁ ∧ Run P t₁ es' t' := by
  induction es generalizing t with
  | nil =>
    have hp : P t := by
      cases h with
      | nil h => exact h
      | cons h _ _ => exact h
    exact ⟨t, .nil hp, h⟩
  | cons e es ih =>
    cases h with
    | cons hp step run =>
      obtain ⟨t₁, hrun, hrest⟩ := ih run
      exact ⟨t₁, .cons hp step hrun, hrest⟩

end Run

/-! ## Counts -/

namespace Shares

variable {t : Shares} {p ptr a : Nat} {x y : Pointer}

/-- The pointers with the counts of the objects. -/
def counted_by (t : Shares) (references : Nat → Nat) : System := ⟨t.pointers, references, t.outside⟩

theorem own_set (t : Shares) (p : Nat) (x : Pointer) :
    (t.set p (some x)).own = update t.own p x.native_ := by
  funext k
  by_cases hk : k = p
  · subst hk
    simp [own, set]
  · simp [own, set, hk]

theorem own_set_none (t : Shares) (p : Nat) : (t.set p none).own = update t.own p none := by
  funext k
  by_cases hk : k = p
  · subst hk
    simp [own, set]
  · simp [own, set, hk]

theorem own_of_free (h : t.pointers p = none) : t.own p = none := by
  rw [own, h]
  rfl

theorem own_of_there (h : t.pointers p = some x) : t.own p = x.native_ := by
  rw [own, h]
  rfl

theorem ne_of_free (h : t.pointers p = none) (there : t.pointers ptr = some y) : ptr ≠ p := by
  rintro rfl
  rw [h] at there
  cases there

theorem set_self (h : t.pointers p = some x) : t.set p (some x) = t := by
  rw [set, ← h, update_eq_self]

theorem update_own_self {v : Option Nat} (h : t.own p = v) : update t.own p v = t.own := by
  rw [← h, update_eq_self]

/-- A null pointer owns what no pointer owns. -/
theorem own_set_null (h : t.own p = none) (type : NativeType) :
    (t.set p (some ⟨type, none⟩)).own = t.own := by
  rw [own_set, update_own_self h]

end Shares

/-- The counts agree with the pointers. -/
abbrev Counts (t : Shares) (references : Nat → Nat) : Prop :=
  Counted t.own t.outside t.raw references

variable {t t' : Shares} {references : Nat → Nat} {p ptr a : Nat} {x y : Pointer}

/-- An object that is owned is not counted only if a reference was spent that was not there. -/
theorem short_of_owned (h : Counts t references) (owned : t.Owned a) (hzero : references a = 0) :
    t.raw a < 0 := by
  have hcounts := h.counts a
  rcases owned with ⟨p, hp⟩ | hout | hraw
  · have hpos := holders_pos h.supported hp
    omega
  · omega
  · omega

theorem references_of_unused (h : Counts t references) (unused : ¬ t.Owned a) :
    references a = 0 := by
  have hcounts := h.counts a
  have hholders : holders t.own a = 0 := holders_eq_zero fun p hp => unused (.inl ⟨p, hp⟩)
  have hout : ¬ 0 < t.outside a := fun hout => unused (.inr (.inl hout))
  have hraw : ¬ 0 < t.raw a := fun hraw => unused (.inr (.inr hraw))
  omega

theorem owned_iff (h : Counts t references) (hraw : 0 ≤ t.raw a) :
    0 < references a ↔ t.Owned a := by
  constructor
  · intro hpos
    by_contra hnot
    rw [references_of_unused h hnot] at hpos
    exact Nat.lt_irrefl 0 hpos
  · intro owned
    by_contra hnot
    have hshort := short_of_owned h owned (Nat.eq_zero_of_not_pos hnot)
    omega

/-- What becomes of a step: the counts agree with the pointers again, or it fails at an object that
a reference was spent of that was not there. -/
inductive Follows (raw : Nat → Int) (references : Nat → Nat) (t' : Shares) :
    Except Fault System → Prop where
  | ok {references' : Nat → Nat} (h : Counts t' references') :
    Follows raw references t' (.ok (t'.counted_by references'))
  | error {fault : Fault} {a : Nat} (gone : references a = 0) (short : raw a < 0) :
    Follows raw references t' (.error fault)

theorem Follows.of_counts {raw : Nat → Int} {references' : Nat → Nat} (t' : Shares)
    (h : Counts t' references') : Follows raw references t' (.ok (t'.counted_by references')) :=
  .ok h

namespace Shares

variable {made : Option Nat}

theorem pointer_counted (h : t.pointers p = some x) :
    (t.counted_by references).pointer p = .ok x := by
  have hthere : (t.counted_by references).pointers p = some x := h
  rw [System.pointer, hthere]

theorem construct_counted (h : t.pointers p = none) (x : Pointer) :
    (t.counted_by references).construct p x = .ok ((t.set p (some x)).counted_by references) := by
  have hfree : (t.counted_by references).pointers p = none := h
  rw [System.construct, hfree]
  rfl

theorem increment_counted (h : references a ≠ 0) :
    (t.counted_by references).increment_function (some a) =
      .ok (t.counted_by (update references a (references a + 1))) :=
  if_neg h

theorem increment_gone (h : references a = 0) :
    (t.counted_by references).increment_function (some a) = .error .freed :=
  if_pos h

theorem free_counted (h : references a ≠ 0) :
    (t.counted_by references).free_function a =
      .ok (t.counted_by (update references a (references a - 1))) :=
  if_neg h

theorem free_gone (h : references a = 0) :
    (t.counted_by references).free_function a = .error .freed :=
  if_pos h

theorem new_counted (h : references a = 0) :
    (t.counted_by references).new_function (some a) =
      .ok (t.counted_by (update references a (references a + 1))) := by
  rw [h]
  exact if_pos h

end Shares

open Shares

/-! ## Each function -/

variable {made : Option Nat} {type : NativeType}

/-- The new object of a pointer that had none. -/
theorem counts_new (h : Counts t references) (hp : t.own p = none) (unused : t.Unused made)
    (type : NativeType) :
    ∃ references', (t.counted_by references).new_function made =
        .ok (t.counted_by references') ∧
      Counts (t.set p (some ⟨type, made⟩)) references' := by
  cases made with
  | none =>
    refine ⟨references, rfl, ?_⟩
    rw [Counts, own_set_null hp]
    exact h
  | some a =>
    have hzero := references_of_unused h (unused a rfl)
    refine ⟨_, new_counted hzero, ?_⟩
    rw [Counts, own_set]
    exact h.share hp a

theorem in_place_follows (h : Counts t references) (free : t.pointers p = none)
    (unused : t.Unused made) : Follows t.raw references (t.set p (some ⟨type, made⟩))
      ((t.counted_by references).in_place p type made) := by
  obtain ⟨references', hnew, hcounts⟩ := counts_new h (own_of_free free) unused type
  have hstep : (t.counted_by references).in_place p type made =
      .ok ((t.set p (some ⟨type, made⟩)).counted_by references') := by
    rw [System.in_place, hnew]
    exact construct_counted free _
  rw [hstep]
  exact .ok hcounts

theorem construct_follows (h : Counts t references) (free : t.pointers p = none) :
    Follows t.raw references (t.set p (some ⟨type, none⟩))
      ((t.counted_by references).construct p ⟨type, none⟩) := by
  rw [construct_counted free]
  refine .ok ?_
  rw [Counts, own_set_null (own_of_free free)]
  exact h

theorem wrap_unique_follows (h : Counts t references) (free : t.pointers p = none) (a : Nat) :
    Follows t.raw references ((t.set p (some ⟨type, some a⟩)).spend_raw a)
      ((t.counted_by references).wrap_unique p type (some a)) := by
  rw [System.wrap_unique, construct_counted free]
  have hcounts := h.take_over (own_of_free free) a
  rw [← own_set t p ⟨type, some a⟩] at hcounts
  exact .of_counts ((t.set p (some ⟨type, some a⟩)).spend_raw a) hcounts

theorem reference_follows (h : Counts t references) (free : t.pointers p = none)
    (counted : type.counted = true) (owned : t.Owned a) :
    Follows t.raw references (t.set p (some ⟨type, some a⟩))
      ((t.counted_by references).reference p type (some a)) := by
  have hstep : (t.counted_by references).reference p type (some a) =
      ((t.set p (some ⟨type, some a⟩)).counted_by references).increment_function (some a) := by
    rw [System.reference, counted, System.wrap_unique, construct_counted free]
    rfl
  rw [hstep]
  by_cases hzero : references a = 0
  · rw [increment_gone hzero]
    exact .error hzero (short_of_owned h owned hzero)
  · rw [increment_counted hzero]
    refine .ok ?_
    rw [Counts, own_set]
    exact h.share (own_of_free free) a

/-- A null pointer is assigned a pointer. -/
theorem copy_assign_null (h : Counts t references) (assigned : t.pointers p = some ⟨type, none⟩)
    (there : t.pointers ptr = some y) (htype : type = y.type) (counted : type.counted = true) :
    Follows t.raw references (t.set p (some y)) ((t.counted_by references).copy_assign p ptr) := by
  obtain ⟨type', native⟩ := y
  obtain rfl : type = type' := htype
  rw [System.copy_assign, pointer_counted assigned, pointer_counted there]
  cases native with
  | none =>
    have hstep : (t.set p (some ⟨type, none⟩)) = t := set_self assigned
    rw [hstep]
    simp only [bind, Except.bind, counted, Bool.and_true, decide_true, System.require, if_true,
      ne_eq, not_true_eq_false, if_false]
    exact .ok h
  | some b =>
    have hp := own_of_there assigned
    have howned : t.Owned b := .inl ⟨ptr, own_of_there there⟩
    simp only [bind, Except.bind, counted, Bool.and_true, decide_true, System.require, if_true,
      ne_eq, reduceCtorEq, not_false_eq_true, System.free_native, Option.isSome_some]
    by_cases hzero : references b = 0
    · have hgone := @increment_gone (t.set p (some ⟨type, some b⟩)) references b hzero
      exact hgone ▸ .error hzero (short_of_owned h howned hzero)
    · have hshared := @increment_counted (t.set p (some ⟨type, some b⟩)) references b hzero
      refine hshared ▸ .ok ?_
      rw [Counts, own_set]
      exact h.share hp b

theorem set_set (t : Shares) (p : Nat) (x y : Option Pointer) :
    (t.set p x).set p y = t.set p y := by
  simp [Shares.set]

/-- The object that a pointer has is given back before it is assigned another. -/
theorem copy_assign_some (h : Counts t references)
    (assigned : t.pointers p = some ⟨type, some a⟩) (there : t.pointers ptr = some y)
    (htype : type = y.type) (counted : type.counted = true) (hne : some a ≠ y.native_) :
    Follows t.raw references (t.set p (some y)) ((t.counted_by references).copy_assign p ptr) := by
  obtain ⟨type', native⟩ := y
  obtain rfl : type = type' := htype
  have hp := own_of_there assigned
  rw [System.copy_assign, pointer_counted assigned, pointer_counted there]
  simp only [bind, Except.bind, counted, Bool.and_true, decide_true, System.require, if_true,
    ne_eq, hne, not_false_eq_true, System.free_native]
  by_cases hzero : references a = 0
  · rw [free_gone hzero]
    exact .error hzero (short_of_owned h (.inl ⟨p, hp⟩) hzero)
  · rw [free_counted hzero]
    have hreleased := h.release hp (Nat.pos_of_ne_zero hzero)
    cases native with
    | none =>
      simp only [Option.isSome_none, Bool.false_eq_true, if_false]
      refine .of_counts (t.set p (some ⟨type, none⟩)) ?_
      rw [Counts, own_set]
      exact hreleased
    | some b =>
      have hba : b ≠ a := fun hba => hne (by rw [hba])
      have hsame : update references a (references a - 1) b = references b := update_of_ne hba _ _
      simp only [Option.isSome_some, if_true]
      by_cases hgone : references b = 0
      · have hfail := @increment_gone (t.set p (some ⟨type, some b⟩))
          (update references a (references a - 1)) b (by rw [hsame, hgone])
        exact hfail ▸ .error hgone (short_of_owned h (.inl ⟨ptr, own_of_there there⟩) hgone)
      · have hshared := @increment_counted (t.set p (some ⟨type, some b⟩))
          (update references a (references a - 1)) b (by rw [hsame]; exact hgone)
        refine hshared ▸ .ok ?_
        rw [Counts, own_set]
        have hshare := hreleased.share (update_self p none t.own) b
        rw [update_idem] at hshare
        exact hshare

theorem copy_assign_follows (h : Counts t references) (assigned : t.pointers p = some x)
    (there : t.pointers ptr = some y) (htype : x.type = y.type) (counted : x.type.counted = true) :
    Follows t.raw references (t.set p (some y)) ((t.counted_by references).copy_assign p ptr) := by
  obtain ⟨type, native⟩ := x
  cases native with
  | none => exact copy_assign_null h assigned there htype counted
  | some a =>
    by_cases hne : some a = y.native_
    · obtain ⟨type', native⟩ := y
      obtain rfl : type = type' := htype
      obtain rfl : some a = native := hne
      have hstep : (t.counted_by references).copy_assign p ptr = .ok (t.counted_by references) := by
        rw [System.copy_assign, pointer_counted assigned, pointer_counted there]
        simp [bind, Except.bind, System.require, counted, pure, Except.pure]
      rw [hstep, set_self assigned]
      exact .ok h
    · exact copy_assign_some h assigned there htype counted hne

theorem copy_construct_follows (h : Counts t references) (free : t.pointers p = none)
    (there : t.pointers ptr = some y) (counted : y.type.counted = true) :
    Follows t.raw references (t.set p (some y))
      ((t.counted_by references).copy_construct p ptr) := by
  have hnull : Counts (t.set p (some ⟨y.type, none⟩)) references := by
    rw [Counts, own_set_null (own_of_free free)]
    exact h
  have hthere : (t.set p (some ⟨y.type, none⟩)).pointers ptr = some y := by
    rw [← there]
    exact update_of_ne (ne_of_free free there) _ _
  have hassign := copy_assign_null hnull (update_self p _ t.pointers) hthere rfl counted
  rw [set_set] at hassign
  have hstep : (t.counted_by references).copy_construct p ptr =
      ((t.set p (some ⟨y.type, none⟩)).counted_by references).copy_assign p ptr := by
    rw [System.copy_construct, pointer_counted there]
    simp only [bind, Except.bind, construct_counted free]
  rw [hstep]
  exact hassign

/-- Pointers that have the same are as they were. -/
theorem move_assign_follows (h : Counts t references) (assigned : t.pointers p = some x)
    (there : t.pointers ptr = some y) (htype : x.type = y.type) :
    Follows t.raw references ((t.set p (some y)).set ptr (some x))
      ((t.counted_by references).move_assign p ptr) := by
  have hcounts : Counts ((t.set p (some y)).set ptr (some x)) references := by
    have hexchange := h.exchange p ptr
    rw [own_of_there assigned, own_of_there there] at hexchange
    rw [Counts, own_set, own_set]
    exact hexchange
  have hstep : (t.counted_by references).move_assign p ptr =
      .ok (((t.set p (some y)).set ptr (some x)).counted_by references) := by
    rw [System.move_assign, pointer_counted assigned, pointer_counted there]
    obtain ⟨type, native⟩ := x
    obtain ⟨type', native'⟩ := y
    obtain rfl : type = type' := htype
    by_cases hne : native = native'
    · subst hne
      simp only [bind, Except.bind, System.require, decide_true, if_true, ne_eq, not_true_eq_false,
        if_false]
      rw [set_self assigned, set_self there]
      rfl
    · simp only [bind, Except.bind, System.require, decide_true, if_true, ne_eq, hne,
        not_false_eq_true]
      rfl
  rw [hstep]
  exact .ok hcounts

theorem move_construct_follows (h : Counts t references) (free : t.pointers p = none)
    (there : t.pointers ptr = some y) :
    Follows t.raw references ((t.set p (some y)).set ptr (some ⟨y.type, none⟩))
      ((t.counted_by references).move_construct p ptr) := by
  have hnull : Counts (t.set p (some ⟨y.type, none⟩)) references := by
    rw [Counts, own_set_null (own_of_free free)]
    exact h
  have hthere : (t.set p (some ⟨y.type, none⟩)).pointers ptr = some y := by
    rw [← there]
    exact update_of_ne (ne_of_free free there) _ _
  have hassign := move_assign_follows hnull (update_self p _ t.pointers) hthere rfl
  rw [set_set] at hassign
  have hstep : (t.counted_by references).move_construct p ptr =
      ((t.set p (some ⟨y.type, none⟩)).counted_by references).move_assign p ptr := by
    rw [System.move_construct, pointer_counted there]
    simp only [bind, Except.bind, construct_counted free]
  rw [hstep]
  exact hassign

theorem increment_follows (h : Counts t references) (there : t.pointers p = some x)
    (counted : x.type.counted = true) (some_ : x.native_ = some a) :
    Follows t.raw references (t.add_raw a) ((t.counted_by references).increment p) := by
  have hstep : (t.counted_by references).increment p =
      (t.counted_by references).increment_function (some a) := by
    rw [System.increment, pointer_counted there]
    simp only [bind, Except.bind, System.require, counted, if_true, some_]
  rw [hstep]
  by_cases hzero : references a = 0
  · rw [increment_gone hzero]
    have hown := own_of_there there
    rw [some_] at hown
    exact .error hzero (short_of_owned h (.inl ⟨p, hown⟩) hzero)
  · rw [increment_counted hzero]
    exact .of_counts (t.add_raw a) (h.add_raw a)

theorem open_counted {references' : Nat → Nat} (there : t.pointers p = some x)
    (opens : x.type.opens = true)
    (hnew : (t.counted_by references).new_function made = .ok (t.counted_by references')) :
    (t.counted_by references).open_ p made =
      .ok ((t.set p (some ⟨x.type, made⟩)).counted_by references') := by
  rw [System.open_, pointer_counted there]
  simp only [bind, Except.bind, System.require, opens, if_true, hnew]
  rfl

theorem open_null_follows (h : Counts t references) (there : t.pointers p = some x)
    (opens : x.type.opens = true) (null : x.native_ = none) (unused : t.Unused made) :
    Follows t.raw references (t.set p (some ⟨x.type, made⟩))
      ((t.counted_by references).open_ p made) := by
  have hown := own_of_there there
  rw [null] at hown
  obtain ⟨references', hnew, hcounts⟩ := counts_new h hown unused x.type
  rw [open_counted there opens hnew]
  exact .ok hcounts

/-- Nobody has the reference of the pointer then. -/
theorem open_some_follows (h : Counts t references) (there : t.pointers p = some x)
    (opens : x.type.opens = true) (some_ : x.native_ = some a) (unused : t.Unused made) :
    Follows t.raw references ((t.set p (some ⟨x.type, made⟩)).add_raw a)
      ((t.counted_by references).open_ p made) := by
  have hown := own_of_there there
  rw [some_] at hown
  have hgiven := h.give_up hown
  cases made with
  | none =>
    rw [open_counted there opens rfl]
    refine .of_counts ((t.set p (some ⟨x.type, none⟩)).add_raw a) ?_
    rw [← own_set t p ⟨x.type, none⟩] at hgiven
    exact hgiven
  | some b =>
    have hzero := references_of_unused h (unused b rfl)
    rw [open_counted there opens (new_counted hzero)]
    refine .of_counts ((t.set p (some ⟨x.type, some b⟩)).add_raw a) ?_
    have hshared := hgiven.share (update_self p none t.own) b
    rw [update_idem, ← own_set t p ⟨x.type, some b⟩] at hshared
    exact hshared

theorem destroy_follows (h : Counts t references) (there : t.pointers p = some x) :
    Follows t.raw references (t.set p none) ((t.counted_by references).destroy p) := by
  have hown := own_of_there there
  rw [System.destroy, pointer_counted there]
  simp only [bind, Except.bind, System.free_native]
  cases hnative : x.native_ with
  | none =>
    rw [hnative] at hown
    refine .of_counts (t.set p none) ?_
    rw [Counts, own_set_none, update_own_self hown]
    exact h
  | some a =>
    rw [hnative] at hown
    by_cases hzero : references a = 0
    · simp only [free_gone hzero]
      exact .error hzero (short_of_owned h (.inl ⟨p, hown⟩) hzero)
    · simp only [free_counted hzero]
      refine .of_counts (t.set p none) ?_
      rw [Counts, own_set_none]
      exact h.release hown (Nat.pos_of_ne_zero hzero)

theorem share_follows (h : Counts t references) (there : t.pointers p = some x)
    (some_ : x.native_ = some a) :
    Follows t.raw references (t.add_outside a) ((t.counted_by references).share p) := by
  have hown := own_of_there there
  rw [some_] at hown
  rw [System.share, pointer_counted there]
  simp only [bind, Except.bind, some_]
  by_cases hzero : references a = 0
  · rw [increment_gone hzero]
    exact .error hzero (short_of_owned h (.inl ⟨p, hown⟩) hzero)
  · rw [increment_counted hzero]
    exact .of_counts (t.add_outside a) (h.add_outside a)

theorem adopt_follows (h : Counts t references) (there : t.pointers p = some x)
    (some_ : x.native_ = some a) :
    Follows t.raw references ((t.add_outside a).spend_raw a)
      ((t.counted_by references).adopt p) := by
  rw [System.adopt, pointer_counted there]
  simp only [bind, Except.bind, some_]
  exact .of_counts ((t.add_outside a).spend_raw a) (h.adopt a)

theorem drop_follows (h : Counts t references) (hout : 0 < t.outside a) :
    Follows t.raw references (t.drop_outside a) ((t.counted_by references).drop a) := by
  have hout' : decide (0 < (t.counted_by references).outside a) = true := decide_eq_true hout
  rw [System.drop, hout']
  simp only [bind, Except.bind, System.require, if_true]
  by_cases hzero : references a = 0
  · rw [free_gone hzero]
    exact .error hzero (short_of_owned h (.inr (.inl hout)) hzero)
  · rw [free_counted hzero]
    exact .of_counts (t.drop_outside a) (h.drop_outside hout (Nat.pos_of_ne_zero hzero))

/-- The `BIO` of a file, if the pointer to the file is given up for it. -/
theorem wrap_file_counted {f : Option Nat} {references' : Nat → Nat} (free : t.pointers p = none)
    (there : t.pointers ptr = some ⟨.file, f⟩)
    (hnew : (t.counted_by references).new_function made = .ok (t.counted_by references')) :
    (t.counted_by references).wrap_file p ptr made =
      .ok ((((if made.isSome then f.elim t t.add_outside else t).set p (some ⟨.bio, made⟩)).set ptr
        (some ⟨.file, none⟩)).counted_by references') := by
  have hfree (a : Nat) : (t.add_outside a).pointers p = none := free
  rw [System.wrap_file, pointer_counted there]
  simp only [bind, Except.bind, System.require, decide_true, if_true, hnew]
  cases made with
  | none =>
    simp only [Option.isSome_none, Bool.false_eq_true, if_false, construct_counted free]
    rfl
  | some a =>
    cases f with
    | none =>
      simp only [Option.isSome_some, if_true, Option.elim_none, construct_counted free]
      rfl
    | some f =>
      have hconstruct :
          ((t.counted_by references').add_outside f).construct p ⟨.bio, some a⟩ =
            .ok (((t.add_outside f).set p (some ⟨.bio, some a⟩)).counted_by references') :=
        construct_counted (t := t.add_outside f) (hfree f) _
      simp only [Option.isSome_some, if_true, Option.elim_some, hconstruct]
      rfl

theorem wrap_null_file_follows (h : Counts t references) (free : t.pointers p = none)
    (there : t.pointers ptr = some ⟨.file, none⟩) (unused : t.Unused made) :
    Follows t.raw references (t.set p (some ⟨.bio, made⟩))
      ((t.counted_by references).wrap_file p ptr made) := by
  obtain ⟨references', hnew, hcounts⟩ := counts_new h (own_of_free free) unused .bio
  rw [wrap_file_counted free there hnew]
  have hsame : (t.set p (some ⟨.bio, made⟩)).pointers ptr = some ⟨.file, none⟩ := by
    rw [← there]
    exact update_of_ne (ne_of_free free there) _ _
  have hstep : (if made.isSome then (none : Option Nat).elim t t.add_outside else t) = t := by
    cases made <;> rfl
  rw [hstep, set_self hsame]
  exact .ok hcounts

theorem wrap_file_follows {f : Nat} (h : Counts t references) (free : t.pointers p = none)
    (there : t.pointers ptr = some ⟨.file, some f⟩) (unused : ¬ t.Owned a) :
    Follows t.raw references
      (((t.set p (some ⟨.bio, some a⟩)).set ptr (some ⟨.file, none⟩)).add_outside f)
      ((t.counted_by references).wrap_file p ptr (some a)) := by
  have hzero := references_of_unused h unused
  rw [wrap_file_counted free there (new_counted hzero)]
  have hshared := h.share (own_of_free free) a
  have hptr : update t.own p (some a) ptr = some f := by
    rw [update_of_ne (ne_of_free free there)]
    exact own_of_there there
  -- The reference to the file goes from the pointer to the `BIO`.
  have hadopted := (hshared.give_up hptr).adopt f
  have hraw : update (update t.raw f (t.raw f + 1)) f (update t.raw f (t.raw f + 1) f - 1) =
      t.raw := by
    rw [update_self, update_idem, Int.add_sub_cancel, update_eq_self]
  rw [hraw, ← own_set t p ⟨.bio, some a⟩, ← own_set _ ptr ⟨.file, none⟩] at hadopted
  exact .of_counts (((t.set p (some ⟨.bio, some a⟩)).set ptr (some ⟨.file, none⟩)).add_outside f)
    hadopted

theorem wrap_fails_follows {f : Nat} (h : Counts t references) (free : t.pointers p = none)
    (there : t.pointers ptr = some ⟨.file, some f⟩) :
    Follows t.raw references
      (((t.set p (some ⟨.bio, none⟩)).set ptr (some ⟨.file, none⟩)).add_raw f)
      ((t.counted_by references).wrap_file p ptr none) := by
  rw [wrap_file_counted free there rfl]
  have hgiven := h.give_up (own_of_there there)
  have hown : ((t.set p (some ⟨.bio, none⟩)).set ptr (some ⟨.file, none⟩)).own =
      update t.own ptr none := by
    rw [own_set, own_set_null (own_of_free free)]
  rw [← hown] at hgiven
  exact .of_counts (((t.set p (some ⟨.bio, none⟩)).set ptr (some ⟨.file, none⟩)).add_raw f) hgiven

/-! ## Programs -/

theorem step_follows {e : Event} (h : Counts t references) (hstep : Step t e t') :
    Follows t.raw references t' ((t.counted_by references).step e) := by
  cases hstep with
  | construct free type => exact construct_follows h free
  | in_place free type unused => exact in_place_follows h free unused
  | wrap_null free type => exact construct_follows h free
  | wrap_unique free type a => exact wrap_unique_follows h free a
  | reference free counted owned => exact reference_follows h free counted owned
  | copy_construct free there counted => exact copy_construct_follows h free there counted
  | copy_assign assigned there type counted =>
    exact copy_assign_follows h assigned there type counted
  | move_construct free there => exact move_construct_follows h free there
  | move_assign assigned there type => exact move_assign_follows h assigned there type
  | increment there counted some_ => exact increment_follows h there counted some_
  | open_null there opens null unused => exact open_null_follows h there opens null unused
  | open_some there opens some_ unused => exact open_some_follows h there opens some_ unused
  | wrap_null_file free there unused => exact wrap_null_file_follows h free there unused
  | wrap_file free there unused => exact wrap_file_follows h free there unused
  | wrap_fails free there => exact wrap_fails_follows h free there
  | destroy there => exact destroy_follows h there
  | @give a unused =>
    have hnew := new_counted (t := t) (references_of_unused h unused)
    rw [System.step, hnew]
    exact .of_counts (t.add_raw a) (h.add_raw a)
  | @get a owned =>
    rw [System.step]
    by_cases hzero : references a = 0
    · rw [increment_gone hzero]
      exact .error hzero (short_of_owned h owned hzero)
    · rw [increment_counted hzero]
      exact .of_counts (t.add_raw a) (h.add_raw a)
  | @make a unused =>
    have hnew := new_counted (t := t) (references_of_unused h unused)
    rw [System.step, hnew]
    exact .of_counts (t.add_outside a) (h.add_outside a)
  | share there some_ => exact share_follows h there some_
  | adopt there some_ => exact adopt_follows h there some_
  | drop outside => exact drop_follows h outside

theorem System.run_cons (s : System) (e : Event) (es : List Event) :
    s.run (e :: es) = (s.step e).bind fun s => s.run es := rfl

theorem System.run_append (s : System) (es es' : List Event) :
    s.run (es ++ es') = (s.run es).bind fun s => s.run es' := by
  rw [System.run, List.foldlM_append]
  rfl

/-- No reference is spent that is not there. -/
def NotShort (t : Shares) : Prop := ∀ a, 0 ≤ t.raw a

theorem NotShort.add_raw (h : NotShort t) (a : Nat) : NotShort (t.add_raw a) := by
  intro b
  have hb := h b
  show 0 ≤ update t.raw a (t.raw a + 1) b
  rw [update_apply]
  split
  · rename_i heq
    subst heq
    omega
  · exact hb

/-- A run on shared objects is a run on counted ones as long as no reference is spent that is not
there. -/
theorem run_follows {es : List Event} (h : Counts t references) (hrun : Run NotShort t es t') :
    ∃ references', (t.counted_by references).run es = .ok (t'.counted_by references') ∧
      Counts t' references' ∧ NotShort t' := by
  induction hrun generalizing references with
  | nil hraw => exact ⟨references, rfl, h, hraw⟩
  | cons hraw hstep _ ih =>
    have hfollows := step_follows h hstep
    rw [System.run_cons]
    generalize System.step _ _ = r at hfollows ⊢
    cases hfollows with
    | ok h => exact ih h
    | error _ short => exact absurd (hraw _) (Int.not_le.mpr short)

/-- If no function fails, the counts agree with the pointers, whatever references are spent. -/
theorem counts_of_run {es : List Event} {s : System} (h : Counts t references)
    (hrun : Run (fun _ => True) t es t') (hs : (t.counted_by references).run es = .ok s) :
    ∃ references', s = t'.counted_by references' ∧ Counts t' references' := by
  induction hrun generalizing references with
  | nil _ =>
    obtain rfl := Except.ok.inj hs
    exact ⟨references, rfl, h⟩
  | cons _ hstep _ ih =>
    have hfollows := step_follows h hstep
    rw [System.run_cons] at hs
    generalize System.step _ _ = r at hfollows hs
    cases hfollows with
    | ok h => exact ih h hs
    | error _ _ => cases hs

theorem counts_new_system : Counts Shares.new fun _ => 0 := counted_nothing

/-- What no pointer and nobody else owns is counted by hand only. -/
theorem references_of_released {references : Nat → Nat} (hcounts : Counts t references)
    (hpointers : ∀ p, t.pointers p = none) (hout : ∀ a, t.outside a = 0) (a : Nat) :
    (references a : Int) = t.raw a := by
  have hholders : holders t.own a = 0 := by
    refine holders_eq_zero fun p hp => ?_
    rw [own_of_free (hpointers p)] at hp
    cases hp
  have hcount := hcounts.counts a
  rw [hholders, hout a] at hcount
  simpa using hcount

/-- A program that spends no reference that it does not have never uses an object that is gone, and
each object is there exactly as long as somebody owns it. -/
theorem objects_live_while_they_are_owned {es : List Event} (h : Run NotShort .new es t) :
    ∃ s, System.new.run es = .ok s ∧ s.pointers = t.pointers ∧ s.outside = t.outside ∧
      (∀ a, 0 < s.references a ↔ t.Owned a) ∧
      ((∀ p, s.pointers p = none) → (∀ a, s.outside a = 0) →
        ∀ a, (s.references a : Int) = t.raw a) := by
  obtain ⟨references, hrun, hcounts, hraw⟩ := run_follows counts_new_system h
  refine ⟨_, hrun, rfl, rfl, fun a => owned_iff hcounts (hraw a), ?_⟩
  exact references_of_released hcounts

theorem not_owned_new (a : Nat) : ¬ Shares.new.Owned a := by
  rintro (⟨p, hp⟩ | hout | hraw)
  · cases hp
  · exact Nat.lt_irrefl 0 hout
  · exact Int.lt_irrefl 0 hraw

/-- A certificate that is read and copied is freed with the last of its pointers. -/
theorem a_copied_certificate_is_freed :
    ∃ s, System.new.run [.give 1, .wrap_unique 0 .x509 (some 1), .copy_construct 2 0, .destroy 0,
        .destroy 2] = .ok s ∧ ∀ a, s.references a = 0 := by
  have hnew : NotShort .new := fun _ => le_refl _
  have htaken : NotShort ((((Shares.new.add_raw 1).set 0 (some ⟨.x509, some 1⟩)).spend_raw 1)) := by
    intro a
    simp [Shares.spend_raw, Shares.set, Shares.add_raw, Shares.new]
  have hrun : Run NotShort .new [.give 1, .wrap_unique 0 .x509 (some 1), .copy_construct 2 0,
      .destroy 0, .destroy 2] (((((Shares.new.add_raw 1).set 0 (some ⟨.x509, some 1⟩)).spend_raw
        1).set 2 (some ⟨.x509, some 1⟩)).set 0 none |>.set 2 none) :=
    .cons hnew (.give (not_owned_new 1)) (.cons (hnew.add_raw 1) (.wrap_unique rfl .x509 1)
      (.cons htaken (.copy_construct rfl rfl rfl) (.cons htaken (.destroy rfl)
        (.cons htaken (.destroy rfl) (.nil htaken)))))
  obtain ⟨s, hs, hpointers, hout, -, hraw⟩ := objects_live_while_they_are_owned hrun
  refine ⟨s, hs, fun a => ?_⟩
  have hnone : ∀ p, s.pointers p = none := by
    intro p
    rw [hpointers]
    simp only [Shares.set, Shares.spend_raw, Shares.add_raw, Shares.new, update_apply]
    split <;> simp_all
  have hleft := hraw hnone (fun a => by rw [hout]; rfl) a
  simpa [Shares.spend_raw, Shares.set, Shares.add_raw, Shares.new] using hleft

end openssl.ptrs
