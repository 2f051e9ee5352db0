-- What a wrapper of a function is for: a place that holds a function or none, and gives it away
-- when it is moved from. The programs over the memory are programs over such places.
import Aether.Lib.MoveOnly
import Aether.Util.AnyInvocable
import Mathlib.Data.Option.Basic

open Function lib.move_only

namespace util.any_invocable

variable {F : Type}

/-! ## Cells -/

/-- A function, and whether it was called as an rvalue. -/
structure Held (F : Type) where
  function : F
  spent : Bool

structure Cells (F : Type) where
  slots : Slots Place (Held F)
  calls : List F

namespace Cells

def new : Cells F := ⟨fun _ => none, []⟩

/-- An operation on the slots. -/
def set (c : Cells F) : Option (Slots Place (Held F)) → Except Fault (Cells F)
  | some slots => .ok { c with slots := slots }
  | none => .error .ill_formed

def call (c : Cells F) (p : Place) (rvalue : Bool) : Except Fault (Cells F) :=
  match c.slots p with
  | none => .error .ill_formed
  | some none => .error .terminated
  | some (some held) =>
    if held.spent then .error .terminated
    else .ok {
      slots := update c.slots p (some (some { held with spent := rvalue }))
      calls := c.calls ++ [held.function] }

def fresh (target : Target F) : Held F := ⟨target.function, false⟩

def step (c : Cells F) : Event F → Except Fault (Cells F)
  | .construct n target => c.set (create c.slots (.named n) (target.map fresh))
  | .move_construct n other =>
    if n = other then .error .ill_formed
    else c.set ((create c.slots (.named n) none).bind fun s => move s (.named n) (.named other))
  | .move_assign n other => c.set (move c.slots (.named n) (.named other))
  | .assign_null n => c.set (put c.slots (.named n) none)
  | .assign n target => c.set (put c.slots (.named n) (some (fresh target)))
  | .swap n other => c.set (exchange c.slots (.named n) (.named other))
  | .call n rvalue => c.call (.named n) rvalue
  | .destroy n => c.set (drop c.slots (.named n))

theorem set_bind (c : Cells F) (r : Option (Slots Place (Held F)))
    (g : Slots Place (Held F) → Option (Slots Place (Held F))) :
    c.set (r.bind g) = (c.set r).bind fun c => c.set (g c.slots) := by
  cases r <;> rfl

theorem set_eq_ok {c c' : Cells F} {r : Option (Slots Place (Held F))} (h : c.set r = .ok c') :
    ∃ slots, r = some slots ∧ c' = { c with slots := slots } := by
  cases r with
  | none => cases h
  | some slots => exact ⟨slots, rfl, (Except.ok.inj h).symm⟩

end Cells

/-! ## Agreement -/

/-- Two programs come to the same: to states that are related, or to one fault. -/
inductive Agree {σ τ : Type} (R : σ → τ → Prop) : Except Fault σ → Except Fault τ → Prop
  | ok {s : σ} {c : τ} (h : R s c) : Agree R (.ok s) (.ok c)
  | error (fault : Fault) : Agree R (.error fault) (.error fault)

theorem Agree.bind {σ τ σ' τ' : Type} {R : σ → τ → Prop} {R' : σ' → τ' → Prop}
    {r : Except Fault σ} {r' : Except Fault τ} {g : σ → Except Fault σ'} {g' : τ → Except Fault τ'}
    (h : Agree R r r') (hg : ∀ s c, R s c → Agree R' (g s) (g' c)) :
    Agree R' (r.bind g) (r'.bind g') := by
  cases h with
  | ok h => exact hg _ _ h
  | error fault => exact .error fault

theorem Agree.mono {σ τ : Type} {R R' : σ → τ → Prop} {r : Except Fault σ} {r' : Except Fault τ}
    (h : Agree R r r') (hr : ∀ s c, R s c → R' s c) : Agree R' r r' := by
  cases h with
  | ok h => exact .ok (hr _ _ h)
  | error fault => exact .error fault

theorem Agree.and {σ τ : Type} {R : σ → τ → Prop} {P : τ → Prop} {r : Except Fault σ}
    {r' : Except Fault τ} (h : Agree R r r') (hp : ∀ c, r' = .ok c → P c) :
    Agree (fun s c => R s c ∧ P c) r r' := by
  cases h with
  | ok h => exact .ok ⟨h, hp _ rfl⟩
  | error fault => exact .error fault

/-! ## Representation -/

/-- The target is where its type asks for, and the manager is the one of the type. -/
inductive Stores (heap : Heap F) (target : Target F) : TypeErasedState F → Manager → Prop
  | local_trivial (place : is_stored_locally target.type = true)
      (copy : target.type.is_trivially_copyable = true) :
      Stores heap target (.storage target) .local_manager_trivial
  | local_nontrivial (place : is_stored_locally target.type = true) :
      Stores heap target (.storage target) (.local_manager_nontrivial target.type)
  | remote_trivial {a : Nat} (place : is_stored_locally target.type = false)
      (destroy : target.type.is_trivially_destructible = true)
      (block : heap.blocks a = some ⟨target.type.sizeof, target⟩) :
      Stores heap target (.remote a (some target.type.sizeof)) .remote_manager_trivial
  | remote_nontrivial {a : Nat} {size : Option Nat} (place : is_stored_locally target.type = false)
      (block : heap.blocks a = some ⟨target.type.sizeof, target⟩) :
      Stores heap target (.remote a size) (.remote_manager_nontrivial target.type)

def invoker_of (T : TargetType) : Invoker :=
  if is_stored_locally T then .local_invoker T else .remote_invoker T

inductive Holds (heap : Heap F) : AnyInvocable F → Option (Held F) → Prop
  | empty {state : TypeErasedState F} (free : state.release = .ok ()) :
      Holds heap ⟨state, .empty_manager, none⟩ none
  | full {target : Target F} {state : TypeErasedState F} {manager : Manager} (spent : Bool)
      (stores : Stores heap target state manager) :
      Holds heap ⟨state, manager, some (if spent then .use_after_move else invoker_of target.type)⟩
        (some ⟨target.function, spent⟩)

/-- The block that a wrapper has to give back. -/
def AnyInvocable.address (f : AnyInvocable F) : Option Nat :=
  match f.manager_, f.state_ with
  | .remote_manager_trivial, .remote a _ => some a
  | .remote_manager_nontrivial _, .remote a _ => some a
  | _, _ => none

def Store.own (s : Store F) : Place → Option Nat :=
  (fun f => f.bind AnyInvocable.address) ∘ s.places

structure Represents (s : Store F) (c : Cells F) : Prop where
  calls : s.calls = c.calls
  places : ∀ p, Option.Rel (Holds s.heap) (s.places p) (c.slots p)
  owned : Owned s.own s.heap.blocks
  unused : ∀ a, s.heap.next ≤ a → s.heap.blocks a = none

variable {heap heap' : Heap F} {target : Target F} {state : TypeErasedState F} {manager : Manager}
  {s : Store F} {c : Cells F} {p : Place} {f : AnyInvocable F} {x : Option (Held F)}

/-- A wrapper is not touched by what happens to other blocks. -/
theorem Holds.mono (h : Holds heap f x)
    (hsame : ∀ a, f.address = some a → heap'.blocks a = heap.blocks a) : Holds heap' f x := by
  cases h with
  | empty free => exact .empty free
  | full spent stores =>
    refine .full spent ?_
    cases stores with
    | local_trivial place copy => exact .local_trivial place copy
    | local_nontrivial place => exact .local_nontrivial place
    | remote_trivial place destroy block =>
      exact .remote_trivial place destroy ((hsame _ rfl).trans block)
    | remote_nontrivial place block => exact .remote_nontrivial place ((hsame _ rfl).trans block)

/-! ## Managers -/

/-- To dispose of a target frees its block, if it has one, and its storage can be used again. -/
theorem Stores.dispose {invoker : Option Invoker} (h : Stores heap target state manager) :
    ∃ heap' state', manager.dispose heap state = .ok (heap', state') ∧
      state'.release = .ok () ∧ heap'.next = heap.next ∧
      heap'.blocks = match AnyInvocable.address ⟨state, manager, invoker⟩ with
        | some a => update heap.blocks a none
        | none => heap.blocks := by
  cases h with
  | local_trivial place copy =>
    refine ⟨heap, .storage target, rfl, ?_, rfl, rfl⟩
    rw [TypeErasedState.release, if_pos (target.type.copyable copy)]
  | local_nontrivial place =>
    exact ⟨heap, .uninitialized, if_pos rfl, rfl, rfl, rfl⟩
  | @remote_trivial a place destroy block =>
    refine ⟨{ heap with blocks := update heap.blocks a none },
      .remote a (some target.type.sizeof), ?_, rfl, rfl, rfl⟩
    simp only [Manager.dispose, Heap.operator_delete, block, if_true, if_pos destroy]
    rfl
  | @remote_nontrivial a size place block =>
    refine ⟨{ heap with blocks := update heap.blocks a none }, .remote a size, ?_, rfl, rfl, rfl⟩
    simp only [Manager.dispose, Heap.delete, block, if_true]
    rfl

/-- A target that is relocated is stored at the new place, and the old one is free. -/
theorem Stores.relocate {dest : TypeErasedState F} {invoker : Option Invoker}
    (h : Stores heap target state manager) (hfree : dest.release = .ok ()) :
    ∃ source' dest', manager.relocate state dest = .ok (source', dest') ∧
      source'.release = .ok () ∧ Stores heap target dest' manager ∧
      AnyInvocable.address ⟨dest', manager, invoker⟩ =
        AnyInvocable.address ⟨state, manager, invoker⟩ := by
  cases h with
  | local_trivial place copy =>
    refine ⟨.storage target, .storage target, ?_, ?_, .local_trivial place copy, rfl⟩
    · simp only [Manager.relocate, hfree]
      rfl
    · rw [TypeErasedState.release, if_pos (target.type.copyable copy)]
  | local_nontrivial place =>
    refine ⟨.uninitialized, .storage target, ?_, rfl, .local_nontrivial place, rfl⟩
    simp only [Manager.relocate, if_true, hfree]
    rfl
  | @remote_trivial a place destroy block =>
    refine ⟨.remote a (some target.type.sizeof), .remote a (some target.type.sizeof), ?_, rfl,
      .remote_trivial place destroy block, rfl⟩
    simp only [Manager.relocate, hfree]
    rfl
  | @remote_nontrivial a size place block =>
    refine ⟨.remote a size, .remote a none, ?_, rfl, .remote_nontrivial place block, rfl⟩
    simp only [Manager.relocate, hfree]
    rfl

/-- The constructors store the target, in a new block if it needs one. -/
theorem initialize_storage_spec (heap : Heap F) (target : Target F) :
    ∃ heap' f, AnyInvocable.initialize_storage heap target = (heap', f) ∧
      Holds heap' f (some (Cells.fresh target)) ∧
      (heap' = heap ∧ f.address = none ∨
        heap' = (heap.allocate ⟨target.type.sizeof, target⟩).2 ∧ f.address = some heap.next) := by
  have hblock : (heap.allocate ⟨target.type.sizeof, target⟩).2.blocks heap.next =
      some ⟨target.type.sizeof, target⟩ := update_self _ _ _
  unfold AnyInvocable.initialize_storage
  by_cases hplace : is_stored_locally target.type = true
  · have hinvoker : invoker_of target.type = .local_invoker target.type := if_pos hplace
    simp only [if_pos hplace, ← hinvoker]
    by_cases hcopy : target.type.is_trivially_copyable = true
    · simp only [if_pos hcopy]
      exact ⟨_, _, rfl, .full false (.local_trivial hplace hcopy), .inl ⟨rfl, rfl⟩⟩
    · simp only [if_neg hcopy]
      exact ⟨_, _, rfl, .full false (.local_nontrivial hplace), .inl ⟨rfl, rfl⟩⟩
  · have hinvoker : invoker_of target.type = .remote_invoker target.type := if_neg hplace
    rw [Bool.not_eq_true] at hplace
    simp only [hplace, Bool.false_eq_true, if_false, ← hinvoker]
    by_cases htrivial : has_trivial_remote_storage target.type = true
    · have hdestroy := (Bool.and_eq_true_iff.mp htrivial).1
      simp only [if_pos htrivial]
      exact ⟨_, _, rfl, .full false (.remote_trivial hplace hdestroy hblock), .inr ⟨rfl, rfl⟩⟩
    · simp only [if_neg htrivial]
      exact ⟨_, _, rfl, .full false (.remote_nontrivial hplace hblock), .inr ⟨rfl, rfl⟩⟩

theorem Stores.invoke (h : Stores heap target state manager) :
    (invoker_of target.type).invoke heap state = .ok target.function := by
  cases h with
  | local_trivial place copy => simp [invoker_of, place, Invoker.invoke]
  | local_nontrivial place => simp [invoker_of, place, Invoker.invoke]
  | remote_trivial place destroy block => simp [invoker_of, place, Invoker.invoke, block]
  | remote_nontrivial place block => simp [invoker_of, place, Invoker.invoke, block]

theorem Holds.dispose (h : Holds heap f x) :
    ∃ heap' state', f.manager_.dispose heap f.state_ = .ok (heap', state') ∧
      state'.release = .ok () ∧ heap'.next = heap.next ∧
      heap'.blocks = match f.address with
        | some a => update heap.blocks a none
        | none => heap.blocks := by
  cases h with
  | empty free => exact ⟨heap, _, rfl, free, rfl, rfl⟩
  | full spent stores => exact stores.dispose

theorem Holds.relocate {dest : TypeErasedState F} (h : Holds heap f x)
    (hfree : dest.release = .ok ()) :
    ∃ source' dest', f.manager_.relocate f.state_ dest = .ok (source', dest') ∧
      source'.release = .ok () ∧ Holds heap ⟨dest', f.manager_, f.invoker_⟩ x ∧
      AnyInvocable.address ⟨dest', f.manager_, f.invoker_⟩ = f.address := by
  cases h with
  | empty free => exact ⟨_, dest, rfl, free, .empty hfree, rfl⟩
  | full spent stores =>
    obtain ⟨source', dest', hrelocate, hsource, hstores, haddress⟩ := stores.relocate hfree
    exact ⟨source', dest', hrelocate, hsource, .full spent hstores, haddress⟩

/-! ## Operations -/

theorem own_update (q : Option (AnyInvocable F)) (heap : Heap F) (calls : List F) :
    Store.own ⟨update s.places p q, heap, calls⟩ = update s.own p (q.bind AnyInvocable.address) :=
  comp_update _ _ _ _

variable {q : Option (AnyInvocable F)} {y : Option (Option (Held F))}

/-- A place is given something else, and the blocks of the other places stay. -/
theorem Represents.change (h : Represents s c) (hrel : Option.Rel (Holds heap') q y)
    (hothers : ∀ p' a, p' ≠ p → s.own p' = some a → heap'.blocks a = s.heap.blocks a)
    (howned : Owned (update s.own p (q.bind AnyInvocable.address)) heap'.blocks)
    (hunused : ∀ a, heap'.next ≤ a → heap'.blocks a = none) :
    Represents ⟨update s.places p q, heap', s.calls⟩ { c with slots := update c.slots p y } := by
  refine ⟨h.calls, ?_, ?_, hunused⟩
  · intro p'
    show Option.Rel (Holds heap') (update s.places p q p') (update c.slots p y p')
    by_cases hp : p' = p
    · subst hp
      rw [update_self, update_self]
      exact hrel
    · rw [update_of_ne hp, update_of_ne hp]
      have hplace := h.places p'
      have hown : s.own p' = (s.places p').bind AnyInvocable.address := rfl
      generalize s.places p' = g at hplace hown
      generalize c.slots p' = z at hplace
      cases hplace with
      | none => exact .none
      | some hholds => exact .some (hholds.mono fun a ha => hothers p' a hp (hown.trans ha))
  · rw [own_update]
    exact howned

theorem Represents.holds (h : Represents s c) (hp : s.places p = some f) :
    ∃ x, c.slots p = some x ∧ Holds s.heap f x := by
  have hplace := h.places p
  rw [hp] at hplace
  generalize c.slots p = z at hplace
  cases hplace with
  | some hholds => exact ⟨_, rfl, hholds⟩

theorem Represents.nothing (h : Represents s c) (hp : s.places p = none) :
    c.slots p = none := by
  have hplace := h.places p
  rw [hp] at hplace
  generalize c.slots p = z at hplace
  cases hplace
  rfl

/-- What a place holds is disposed of. -/
theorem Represents.dispose (h : Represents s c) (hp : s.places p = some f) :
    ∃ heap' state', f.manager_.dispose s.heap f.state_ = .ok (heap', state') ∧
      state'.release = .ok () ∧
      ∀ q y, Option.Rel (Holds heap') q y → q.bind AnyInvocable.address = none →
        Represents ⟨update s.places p q, heap', s.calls⟩
          { c with slots := update c.slots p y } := by
  have hown : s.own p = f.address := by rw [Store.own, comp_apply, hp, Option.bind_some]
  obtain ⟨x, -, hholds⟩ := h.holds hp
  obtain ⟨heap', state', hdispose, hrelease, hnext, hblocks⟩ := hholds.dispose
  refine ⟨heap', state', hdispose, hrelease, ?_⟩
  intro q y hrel hq
  cases haddress : f.address with
  | none =>
    rw [haddress] at hblocks hown
    refine h.change hrel (fun _ a _ _ => by rw [hblocks]) ?_ ?_
    · rw [hq, ← hown, update_eq_self, hblocks]
      exact h.owned
    · rw [hnext, hblocks]
      exact h.unused
  | some a =>
    rw [haddress] at hblocks hown
    simp only at hblocks
    refine h.change hrel ?_ ?_ ?_
    · intro p' b hne hb
      have hba : b ≠ a := by
        rintro rfl
        exact hne (h.owned.one _ _ _ hb hown)
      rw [hblocks, update_of_ne hba]
    · rw [hq, hblocks]
      exact h.owned.free hown
    · intro b hb
      rw [hnext] at hb
      rw [hblocks, update_apply, h.unused b hb, ite_self]

theorem construct_agrees (h : Represents s c) (p : Place) (target : Option (Target F)) :
    Agree Represents (s.construct p target)
      (c.set (create c.slots p (target.map Cells.fresh))) := by
  unfold Store.construct create
  cases hp : s.places p with
  | some f =>
    obtain ⟨x, hx, -⟩ := h.holds hp
    rw [hx]
    exact .error _
  | none =>
    rw [h.nothing hp]
    have hown : s.own p = none := by rw [Store.own, comp_apply, hp, Option.bind_none]
    cases target with
    | none =>
      refine .ok (h.change (.some (.empty rfl)) (fun _ _ _ _ => rfl) ?_ h.unused)
      show Owned (update s.own p none) s.heap.blocks
      rw [← hown, update_eq_self]
      exact h.owned
    | some target =>
      obtain ⟨heap', f, hinit, hholds, hheap⟩ := initialize_storage_spec s.heap target
      have hnew : s.heap.blocks s.heap.next = none := h.unused _ (Nat.le_refl _)
      simp only [hinit]
      refine .ok (h.change (.some hholds) ?_ ?_ ?_)
      · intro p' a _ ha
        rcases hheap with ⟨rfl, -⟩ | ⟨rfl, -⟩
        · rfl
        · have hne : a ≠ s.heap.next := by
            rintro rfl
            exact h.owned.not_there hnew p' ha
          exact update_of_ne hne _ _
      · rw [Option.bind_some]
        rcases hheap with ⟨rfl, haddress⟩ | ⟨rfl, haddress⟩
        · rw [haddress, ← hown, update_eq_self]
          exact h.owned
        · rw [haddress]
          exact h.owned.allocate hown hnew
      · intro a ha
        rcases hheap with ⟨rfl, -⟩ | ⟨rfl, -⟩
        · exact h.unused a ha
        · have hlt : s.heap.next < a := ha
          exact (update_of_ne (Nat.ne_of_gt hlt) _ _).trans (h.unused a (Nat.le_of_lt hlt))

theorem clear_agrees (h : Represents s c) (p : Place) :
    Agree (fun s c => Represents s c ∧ c.slots p = some none) (s.clear p)
      (c.set (put c.slots p none)) := by
  unfold Store.clear put
  cases hp : s.places p with
  | none =>
    rw [h.nothing hp]
    exact .error _
  | some f =>
    obtain ⟨x, hx, -⟩ := h.holds hp
    obtain ⟨heap', state', hdispose, hrelease, hleft⟩ := h.dispose hp
    simp only [hdispose, hx]
    exact .ok ⟨hleft _ _ (.some (.empty hrelease)) rfl, update_self _ _ _⟩

theorem destroy_agrees (h : Represents s c) (p : Place) :
    Agree Represents (s.destroy p) (c.set (drop c.slots p)) := by
  unfold Store.destroy drop
  cases hp : s.places p with
  | none =>
    rw [h.nothing hp]
    exact .error _
  | some f =>
    obtain ⟨x, hx, -⟩ := h.holds hp
    obtain ⟨heap', state', hdispose, hrelease, hleft⟩ := h.dispose hp
    have hdone : (state'.release >>= fun _ => Except.ok
        (⟨update s.places p none, heap', s.calls⟩ : Store F)) = Except.ok
        (⟨update s.places p none, heap', s.calls⟩ : Store F) := by rw [hrelease]; rfl
    rw [hx]
    show Agree Represents (f.manager_.dispose s.heap f.state_ >>= _) _
    rw [hdispose]
    show Agree Represents (state'.release >>= _) _
    rw [hdone]
    exact .ok (hleft _ _ .none rfl)

/-- What the place to move to had was disposed of before. -/
theorem relocate_agrees (h : Represents s c) (hempty : c.slots p = some none) (other : Place) :
    Agree Represents (s.relocate p other) (c.set (move c.slots p other)) := by
  cases hp : s.places p with
  | none =>
    rw [h.nothing hp] at hempty
    cases hempty
  | some f =>
    obtain ⟨y, hy, hf⟩ := h.holds hp
    rw [hempty] at hy
    obtain rfl := Option.some.inj hy
    have hown : s.own p = none ∧ f.state_.release = .ok () := by
      rw [Store.own, comp_apply, hp]
      cases hf with
      | empty free => exact ⟨rfl, free⟩
    cases hother : s.places other with
    | none =>
      have hmove : move c.slots p other = none := by rw [move, h.nothing hother, Option.bind_none]
      rw [Store.relocate, hp, hother, hmove]
      exact .error _
    | some g =>
      obtain ⟨x, hx, hg⟩ := h.holds hother
      obtain ⟨source', dest', hrelocate, hsource, hdest, haddress⟩ := hg.relocate hown.2
      rw [move_of_some hempty hx, Store.relocate, hp, hother]
      simp only [hrelocate]
      refine .ok ⟨h.calls, ?_, ?_, h.unused⟩
      · intro q
        show Option.Rel (Holds s.heap)
          (update (update s.places p (some ⟨dest', g.manager_, g.invoker_⟩)) other
            (some ⟨source', .empty_manager, none⟩) q)
          (update (update c.slots p (some x)) other (some none) q)
        by_cases hq : q = other
        · subst hq
          rw [update_self, update_self]
          exact .some (.empty hsource)
        · rw [update_of_ne hq, update_of_ne hq]
          by_cases hqp : q = p
          · subst hqp
            rw [update_self, update_self]
            exact .some hdest
          · rw [update_of_ne hqp, update_of_ne hqp]
            exact h.places q
      · have hmoved : (some (⟨dest', g.manager_, g.invoker_⟩ : AnyInvocable F)).bind
            AnyInvocable.address = s.own other := by
          rw [Store.own, comp_apply, hother]
          exact haddress
        show Owned (_ ∘ update (update s.places p _) other _) s.heap.blocks
        rw [comp_update, comp_update, hmoved]
        exact h.owned.move hown.1

theorem call_agrees (h : Represents s c) (p : Place) (rvalue : Bool) :
    Agree Represents (s.call p rvalue) (c.call p rvalue) := by
  unfold Store.call Cells.call
  cases hp : s.places p with
  | none =>
    rw [h.nothing hp]
    exact .error _
  | some f =>
    obtain ⟨x, hx, hf⟩ := h.holds hp
    rw [hx]
    cases hf with
    | empty free => exact .error _
    | @full target state manager spent stores =>
      cases spent with
      | true => exact .error _
      | false =>
        have hholds : Holds s.heap ⟨state, manager,
            some (if rvalue then .use_after_move else invoker_of target.type)⟩
            (some ⟨target.function, rvalue⟩) := .full rvalue stores
        have hown : s.own p = AnyInvocable.address ⟨state, manager, none⟩ := by
          rw [Store.own, comp_apply, hp]
          rfl
        have howned : Owned (update s.own p (AnyInvocable.address ⟨state, manager, none⟩))
            s.heap.blocks := by
          rw [← hown, update_eq_self]
          exact h.owned
        have hchange := h.change (.some hholds) (fun _ _ _ _ => rfl) howned h.unused
        simp only [Bool.false_eq_true, if_false, stores.invoke]
        exact .ok ⟨congrArg (· ++ [target.function]) h.calls, hchange.places, hchange.owned,
          hchange.unused⟩

theorem move_construct_agrees {other : Place} (h : Represents s c) (hne : p ≠ other) :
    Agree Represents (s.move_construct p other)
      (c.set ((create c.slots p none).bind fun s => move s p other)) := by
  rw [Store.move_construct, if_neg hne, Cells.set_bind]
  have hcreate : Agree (fun s c => Represents s c ∧ c.slots p = some none) (s.construct p none)
      (c.set (create c.slots p none)) := by
    refine (construct_agrees h p none).and fun c' hc' => ?_
    unfold create at hc'
    split at hc'
    · obtain rfl := Except.ok.inj hc'
      exact update_self _ _ _
    · cases hc'
  exact hcreate.bind fun s c h => relocate_agrees h.1 h.2 other

theorem move_assign_agrees (h : Represents s c) (p other : Place) :
    Agree Represents (s.move_assign p other) (c.set (move c.slots p other)) := by
  rw [move_eq_put_move, Cells.set_bind]
  exact (clear_agrees h p).bind fun s c h => relocate_agrees h.1 h.2 other

theorem assign_agrees (h : Represents s c) (ht : c.slots .temporary = none)
    (hp : Place.temporary ≠ p) (target : Target F) :
    Agree Represents (s.assign p target)
      (c.set (put c.slots p (some (Cells.fresh target)))) := by
  rw [put_eq_move ht hp, Cells.set_bind]
  refine (construct_agrees h .temporary (some target)).bind fun s c h => ?_
  rw [Cells.set_bind]
  exact (move_assign_agrees h p .temporary).bind fun s c h => destroy_agrees h .temporary

theorem swap_agrees {other : Place} (h : Represents s c) (ht : c.slots .temporary = none)
    (hp : Place.temporary ≠ p) (hother : Place.temporary ≠ other) :
    Agree Represents (s.swap p other) (c.set (exchange c.slots p other)) := by
  rw [exchange_eq_moves ht hp hother, ← Option.bind_assoc, Cells.set_bind]
  refine (move_construct_agrees h hp).bind fun s c h => ?_
  rw [Cells.set_bind]
  refine (move_assign_agrees h p other).bind fun s c h => ?_
  rw [Cells.set_bind]
  exact (move_assign_agrees h other .temporary).bind fun s c h => destroy_agrees h .temporary

/-! ## Runs -/

/-- The variable of the functions of the wrapper is there in no state between two events. -/
theorem Cells.step_temporary {c' : Cells F} {e : Event F} (ht : c.slots .temporary = none)
    (hs : c.step e = .ok c') : c'.slots .temporary = none := by
  have hnamed (n : Nat) : Place.temporary ≠ .named n := by simp
  rw [← ht]
  cases e with
  | construct n target =>
    obtain ⟨slots, hslots, rfl⟩ := Cells.set_eq_ok hs
    exact create_frame hslots (hnamed n)
  | move_construct n other =>
    simp only [Cells.step] at hs
    split at hs
    · cases hs
    · obtain ⟨slots, hslots, rfl⟩ := Cells.set_eq_ok hs
      obtain ⟨slots', hcreate, hmove⟩ := Option.bind_eq_some_iff.mp hslots
      exact (move_frame hmove (hnamed n) (hnamed other)).trans (create_frame hcreate (hnamed n))
  | move_assign n other =>
    obtain ⟨slots, hslots, rfl⟩ := Cells.set_eq_ok hs
    exact move_frame hslots (hnamed n) (hnamed other)
  | assign_null n =>
    obtain ⟨slots, hslots, rfl⟩ := Cells.set_eq_ok hs
    exact put_frame hslots (hnamed n)
  | assign n target =>
    obtain ⟨slots, hslots, rfl⟩ := Cells.set_eq_ok hs
    exact put_frame hslots (hnamed n)
  | swap n other =>
    obtain ⟨slots, hslots, rfl⟩ := Cells.set_eq_ok hs
    exact exchange_frame hslots (hnamed n) (hnamed other)
  | call n rvalue =>
    simp only [Cells.step, Cells.call] at hs
    split at hs
    · cases hs
    · cases hs
    · split at hs
      · cases hs
      · obtain rfl := Except.ok.inj hs
        simp
  | destroy n =>
    obtain ⟨slots, hslots, rfl⟩ := Cells.set_eq_ok hs
    exact drop_frame hslots (hnamed n)

theorem step_agrees (h : Represents s c) (ht : c.slots .temporary = none) (e : Event F) :
    Agree Represents (s.step e) (c.step e) := by
  have hnamed (n : Nat) : Place.temporary ≠ .named n := by simp
  cases e with
  | construct n target => exact construct_agrees h _ target
  | move_construct n other =>
    by_cases hne : n = other
    · subst hne
      simp only [Store.step, Store.move_construct, Cells.step, if_true]
      exact .error _
    · simp only [Store.step, Cells.step, if_neg hne]
      exact move_construct_agrees h (by simpa using hne)
  | move_assign n other => exact move_assign_agrees h _ _
  | assign_null n => exact (clear_agrees h _).mono fun _ _ h => h.1
  | assign n target => exact assign_agrees h ht (hnamed n) target
  | swap n other => exact swap_agrees h ht (hnamed n) (hnamed other)
  | call n rvalue => exact call_agrees h _ rvalue
  | destroy n => exact destroy_agrees h _

def Store.run (s : Store F) (es : List (Event F)) : Except Fault (Store F) := es.foldlM step s

def Cells.run (c : Cells F) (es : List (Event F)) : Except Fault (Cells F) := es.foldlM step c

theorem run_agrees (h : Represents s c) (ht : c.slots .temporary = none) (es : List (Event F)) :
    Agree Represents (s.run es) (c.run es) := by
  induction es generalizing s c with
  | nil => exact .ok h
  | cons e es ih =>
    have hstep := (step_agrees h ht e).and fun c' hc' => Cells.step_temporary ht hc'
    exact hstep.bind fun s c h => ih h.1 h.2

theorem represents_new : Represents (.new : Store F) .new where
  calls := rfl
  places _ := .none
  owned := owned_nothing
  unused _ _ := rfl

/-- What a program can see of its wrappers: what it called, and which of them have a target. -/
def Looks (s : Store F) (c : Cells F) : Prop :=
  s.calls = c.calls ∧
    ∀ p, (s.places p).map AnyInvocable.has_value = (c.slots p).map Option.isSome

theorem Represents.looks (h : Represents s c) : Looks s c := by
  refine ⟨h.calls, fun p => ?_⟩
  cases hp : s.places p with
  | none =>
    rw [h.nothing hp]
    rfl
  | some f =>
    obtain ⟨x, hx, hf⟩ := h.holds hp
    rw [hx]
    cases hf <;> rfl

/-- Wherever the wrappers keep their targets, a program with them calls what one with places that
give their values away calls, and ends with the same fault if it ends with one. -/
theorem programs_see_places_that_give_away (es : List (Event F)) :
    Agree Looks ((.new : Store F).run es) ((.new : Cells F).run es) :=
  (run_agrees represents_new rfl es).mono fun _ _ h => h.looks

theorem Cells.set_faults {r : Option (Slots Place (Held F))} {fault : Fault}
    (h : c.set r = .error fault) : fault = .ill_formed := by
  cases r with
  | none => exact (Except.error.inj h).symm
  | some slots => cases h

theorem Cells.step_faults {e : Event F} {fault : Fault} (h : c.step e = .error fault) :
    fault = .ill_formed ∨ fault = .terminated := by
  cases e with
  | call n rvalue =>
    simp only [Cells.step, Cells.call] at h
    split at h
    · exact .inl (Except.error.inj h).symm
    · exact .inr (Except.error.inj h).symm
    · split at h
      · exact .inr (Except.error.inj h).symm
      · cases h
  | move_construct n other =>
    simp only [Cells.step] at h
    split at h
    · exact .inl (Except.error.inj h).symm
    · exact .inl (Cells.set_faults h)
  | _ => exact .inl (Cells.set_faults h)

theorem Cells.run_faults {es : List (Event F)} {fault : Fault} (h : c.run es = .error fault) :
    fault = .ill_formed ∨ fault = .terminated := by
  induction es generalizing c with
  | nil => cases h
  | cons e es ih =>
    have hrun : c.run (e :: es) = (c.step e).bind fun c => c.run es := rfl
    rw [hrun] at h
    cases he : c.step e with
    | error fault' =>
      rw [he] at h
      rw [← Except.error.inj h]
      exact Cells.step_faults he
    | ok c' =>
      rw [he] at h
      exact ih h

/-- Each block is owned by one wrapper. -/
theorem Represents.block_iff (h : Represents s c) (a : Nat) :
    (s.heap.blocks a).isSome ↔ ∃! p, s.own p = some a := by
  rw [h.owned.there]
  constructor
  · rintro ⟨p, hp⟩
    exact ⟨p, hp, fun p' hp' => h.owned.one _ _ _ hp' hp⟩
  · rintro ⟨p, hp, -⟩
    exact ⟨p, hp⟩

/-- In no program is a target destroyed twice, used when it is gone, or left behind: each block of
the heap is owned by one wrapper, so there is none when no wrapper is left. -/
theorem no_target_is_lost (es : List (Event F)) :
    (∃ s, (.new : Store F).run es = .ok s ∧
        (∀ a, (s.heap.blocks a).isSome ↔ ∃! p, s.own p = some a) ∧
        ((∀ p, s.places p = none) → ∀ a, s.heap.blocks a = none)) ∨
      (.new : Store F).run es = .error .ill_formed ∨
      (.new : Store F).run es = .error .terminated := by
  have hagree := run_agrees (F := F) represents_new rfl es
  generalize hs : (.new : Store F).run es = r at hagree
  generalize hc : (.new : Cells F).run es = r' at hagree
  cases hagree with
  | @ok s c h =>
    refine .inl ⟨s, rfl, h.block_iff, ?_⟩
    intro hgone a
    rw [← Option.not_isSome_iff_eq_none, h.block_iff]
    rintro ⟨p, hp, -⟩
    rw [Store.own, comp_apply, hgone p] at hp
    cases hp
  | error fault =>
    rcases Cells.run_faults hc with rfl | rfl
    · exact .inr (.inl rfl)
    · exact .inr (.inr rfl)

end util.any_invocable
