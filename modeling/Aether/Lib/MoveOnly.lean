-- Places that hold a value or nothing, from which values are moved and never copied, and
-- the blocks of a heap that such places own. Nothing here is about the proxy.
import Mathlib.Logic.Function.Basic
import Mathlib.Tactic.Common

open Function

namespace lib.move_only

variable {ι α β : Type} [DecidableEq ι]

/-! ## Values -/

/-- What is at each place: no object, an empty one, or a value. -/
abbrev Slots (ι α : Type) := ι → Option (Option α)

variable (s : Slots ι α) (i j t : ι)

def create (v : Option α) : Option (Slots ι α) :=
  if (s i).isNone then some (update s i (some v)) else none

def put (v : Option α) : Option (Slots ι α) := (s i).map fun _ => update s i (some v)

/-- The value of `j` goes to `i`, and `j` is empty then. From itself a value is lost. -/
def move : Option (Slots ι α) :=
  (s j).bind fun v => (s i).map fun _ => update (update s i (some v)) j (some none)

def drop : Option (Slots ι α) := (s i).map fun _ => update s i none

def exchange : Option (Slots ι α) :=
  (s i).bind fun v => (s j).map fun w => update (update s i (some w)) j (some v)

variable {s i j t}

theorem move_of_some {u v : Option α} (hi : s i = some u) (hj : s j = some v) :
    move s i j = some (update (update s i (some v)) j (some none)) := by
  rw [move, hj, Option.bind_some, hi, Option.map_some]

theorem drop_of_some {u : Option α} (hi : s i = some u) : drop s i = some (update s i none) := by
  rw [drop, hi, Option.map_some]

theorem put_of_some {u v : Option α} (hi : s i = some u) :
    put s i v = some (update s i (some v)) := by
  rw [put, hi, Option.map_some]

/-- What a value is moved to may be emptied first. -/
theorem move_eq_put_move : move s i j = (put s i none).bind fun s => move s i j := by
  cases hi : s i with
  | none =>
    rw [put, hi]
    cases hj : s j <;> simp [move, hi, hj]
  | some u =>
    rw [put_of_some hi, Option.bind_some]
    by_cases hij : j = i
    · subst hij
      rw [move_of_some hi hi, move_of_some (update_self _ _ _) (update_self _ _ _)]
      simp only [update_idem]
    · cases hj : s j with
      | none => simp [move, hj, hij]
      | some v =>
        rw [move_of_some hi hj, move_of_some (u := none) (v := v) (update_self _ _ _)
          (by rw [update_of_ne hij, hj]), update_idem]

/-- An exchange is three moves through another place. -/
theorem exchange_eq_moves (ht : s t = none) (hi : t ≠ i) (hj : t ≠ j) :
    exchange s i j = (create s t none).bind fun s => (move s t i).bind fun s =>
      (move s i j).bind fun s => (move s j t).bind fun s => drop s t := by
  have hcreate : create s t none = some (update s t (some none)) := by simp [create, ht]
  rw [hcreate, Option.bind_some]
  cases hsi : s i with
  | none => simp [exchange, move, hsi, hi.symm]
  | some v =>
    have htmp : update s t (some none) t = some none := update_self _ _ _
    have hv : update s t (some none) i = some v := by rw [update_of_ne hi.symm, hsi]
    rw [move_of_some htmp hv, Option.bind_some, update_idem]
    cases hsj : s j with
    | none =>
      have hij : j ≠ i := by
        rintro rfl
        rw [hsi] at hsj
        cases hsj
      simp [exchange, move, hsi, hsj, hj.symm, hij]
    | some w =>
      -- If the places are one, the value waits in the other place while it is moved from itself.
      by_cases hij : j = i
      · subst hij
        rw [hsi] at hsj
        obtain rfl := Option.some.inj hsj
        rw [move_of_some (u := none) (v := none) (by simp) (by simp), Option.bind_some,
          move_of_some (u := none) (v := v) (by simp) (by simp [hi]), Option.bind_some,
          drop_of_some (u := none) (by simp), exchange, hsi]
        refine congrArg some (funext fun k => ?_)
        by_cases hk : k = t
        · subst hk
          simp [hi, ht]
        · simp only [update_apply, hk, if_false]
          by_cases hkj : k = j
          · simp [hkj]
          · simp [hkj]
      · rw [move_of_some (u := none) (v := w) (by simp) (by simp [hj.symm, hij, hsj]),
          Option.bind_some,
          move_of_some (u := none) (v := v) (by simp) (by simp [hi, hj]), Option.bind_some,
          drop_of_some (u := none) (by simp), exchange, hsi, Option.bind_some, hsj]
        refine congrArg some (funext fun k => ?_)
        by_cases hk : k = t
        · subst hk
          simp [hi, hj, ht]
        · simp only [update_apply, hk, if_false]
          by_cases hkj : k = j
          · simp [hkj]
          · rw [if_neg hkj, if_neg hkj, if_neg hkj]
            split <;> rfl

/-- A value is assigned by a move from a place that is made for it. -/
theorem put_eq_move {v : Option α} (ht : s t = none) (hi : t ≠ i) :
    put s i v = (create s t v).bind fun s => (move s i t).bind fun s => drop s t := by
  have hcreate : create s t v = some (update s t (some v)) := by simp [create, ht]
  rw [hcreate, Option.bind_some]
  cases hsi : s i with
  | none => simp [put, move, hsi, hi.symm]
  | some u =>
    rw [move_of_some (u := u) (v := v) (by rw [update_of_ne hi.symm, hsi]) (update_self _ _ _),
      Option.bind_some, drop_of_some (update_self _ _ _), put, hsi]
    refine congrArg some (funext fun k => ?_)
    by_cases hk : k = t
    · subst hk
      simp [hi, ht]
    · simp [update_apply, hk]

/-! The other places stay as they are. -/

variable {s' : Slots ι α} {k : ι}

theorem create_frame {v : Option α} (h : create s i v = some s') (hk : k ≠ i) : s' k = s k := by
  obtain ⟨-, h⟩ := Option.ite_none_right_eq_some.mp h
  obtain rfl := Option.some.inj h
  exact update_of_ne hk _ _

theorem put_frame {v : Option α} (h : put s i v = some s') (hk : k ≠ i) : s' k = s k := by
  obtain ⟨u, -, rfl⟩ := Option.map_eq_some_iff.mp h
  exact update_of_ne hk _ _

theorem drop_frame (h : drop s i = some s') (hk : k ≠ i) : s' k = s k := by
  obtain ⟨u, -, rfl⟩ := Option.map_eq_some_iff.mp h
  exact update_of_ne hk _ _

theorem move_frame (h : move s i j = some s') (hi : k ≠ i) (hj : k ≠ j) : s' k = s k := by
  obtain ⟨v, -, h⟩ := Option.bind_eq_some_iff.mp h
  obtain ⟨u, -, rfl⟩ := Option.map_eq_some_iff.mp h
  rw [update_of_ne hj, update_of_ne hi]

theorem exchange_frame (h : exchange s i j = some s') (hi : k ≠ i) (hj : k ≠ j) : s' k = s k := by
  obtain ⟨v, -, h⟩ := Option.bind_eq_some_iff.mp h
  obtain ⟨w, -, rfl⟩ := Option.map_eq_some_iff.mp h
  rw [update_of_ne hj, update_of_ne hi]

/-! ## Blocks -/

omit [DecidableEq ι]

variable {own : ι → Option α} {blocks : α → Option β} {a : α} {b : β}

/-- Each block is owned by one place, and a place owns no block that is not there. -/
structure Owned (own : ι → Option α) (blocks : α → Option β) : Prop where
  one : ∀ i j a, own i = some a → own j = some a → i = j
  there : ∀ a, (blocks a).isSome ↔ ∃ i, own i = some a

theorem owned_nothing : Owned (fun _ : ι => none) (fun _ : α => (none : Option β)) where
  one _ _ _ h := nomatch h
  there a := by simp

theorem Owned.not_there (h : Owned own blocks) (ha : blocks a = none) (i : ι) : own i ≠ some a := by
  intro hi
  have hthere := (h.there a).mpr ⟨i, hi⟩
  rw [ha] at hthere
  cases hthere

variable [DecidableEq ι]

theorem Owned.move (h : Owned own blocks) (hi : own i = none) :
    Owned (update (update own i (own j)) j none) blocks := by
  have hmoved (k : ι) (a : α) : update (update own i (own j)) j none k = some a ↔
      (k = i ∧ k ≠ j ∧ own j = some a) ∨ (k ≠ i ∧ k ≠ j ∧ own k = some a) := by
    simp only [update_apply]
    split
    · simp_all
    · split <;> simp_all
  refine ⟨?_, ?_⟩
  · intro k l a hk hl
    rw [hmoved] at hk hl
    rcases hk with ⟨rfl, -, hk⟩ | ⟨-, hkj, hk⟩
    · rcases hl with ⟨rfl, -, -⟩ | ⟨-, hlj, hl⟩
      · rfl
      · exact absurd (h.one _ _ _ hl hk) hlj
    · rcases hl with ⟨-, -, hl⟩ | ⟨-, -, hl⟩
      · exact absurd (h.one _ _ _ hk hl) hkj
      · exact h.one _ _ _ hk hl
  · intro a
    rw [h.there]
    constructor
    · rintro ⟨k, hk⟩
      have hki : k ≠ i := by
        rintro rfl
        rw [hi] at hk
        cases hk
      by_cases hkj : k = j
      · subst hkj
        exact ⟨i, (hmoved i a).mpr (.inl ⟨rfl, hki.symm, hk⟩)⟩
      · exact ⟨k, (hmoved k a).mpr (.inr ⟨hki, hkj, hk⟩)⟩
    · rintro ⟨k, hk⟩
      rcases (hmoved k a).mp hk with ⟨-, -, hk⟩ | ⟨-, -, hk⟩
      · exact ⟨j, hk⟩
      · exact ⟨k, hk⟩

variable [DecidableEq α]

theorem Owned.allocate (h : Owned own blocks) (hi : own i = none) (ha : blocks a = none) :
    Owned (update own i (some a)) (update blocks a (some b)) := by
  refine ⟨?_, ?_⟩
  · intro k l c hk hl
    simp only [update_apply] at hk hl
    split at hk
    · obtain rfl := Option.some.inj hk
      split at hl
      · rename_i hki hli
        rw [hki, hli]
      · exact absurd hl (h.not_there ha l)
    · split at hl
      · obtain rfl := Option.some.inj hl
        exact absurd hk (h.not_there ha k)
      · exact h.one _ _ _ hk hl
  · intro c
    by_cases hc : c = a
    · subst hc
      simp only [update_self, Option.isSome_some, true_iff]
      exact ⟨i, update_self _ _ _⟩
    · rw [update_of_ne hc, h.there]
      constructor
      · rintro ⟨k, hk⟩
        have hki : k ≠ i := by
          rintro rfl
          rw [hi] at hk
          cases hk
        exact ⟨k, by rw [update_of_ne hki, hk]⟩
      · rintro ⟨k, hk⟩
        simp only [update_apply] at hk
        split at hk
        · exact absurd (Option.some.inj hk).symm hc
        · exact ⟨k, hk⟩

theorem Owned.free (h : Owned own blocks) (hi : own i = some a) :
    Owned (update own i none) (update blocks a none) := by
  have hleft (k : ι) (c : α) : update own i none k = some c ↔ k ≠ i ∧ own k = some c := by
    simp only [update_apply]
    split <;> simp_all
  refine ⟨?_, ?_⟩
  · intro k l c hk hl
    exact h.one _ _ _ ((hleft k c).mp hk).2 ((hleft l c).mp hl).2
  · intro c
    simp only [hleft]
    by_cases hc : c = a
    · subst hc
      simp only [update_self, Option.isSome_none, Bool.false_eq_true, false_iff, not_exists]
      rintro k ⟨hki, hk⟩
      exact hki (h.one _ _ _ hk hi)
    · rw [update_of_ne hc, h.there]
      constructor
      · rintro ⟨k, hk⟩
        refine ⟨k, ?_, hk⟩
        rintro rfl
        rw [hi] at hk
        exact hc (Option.some.inj hk).symm
      · rintro ⟨k, -, hk⟩
        exact ⟨k, hk⟩

end lib.move_only
