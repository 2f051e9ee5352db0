-- The move-only wrapper of a function, `util/any_invocable.hpp`: where it keeps its target, and
-- the managers that move and dispose of it.
--
-- The sizes are those of a target of 64 bits. A block of the heap has an address of its own.
-- What a constructor throws, a target that is an `any_invocable` of another signature, and a
-- target that reaches the wrapper it is called from are left out.
import Mathlib.Logic.Function.Basic

open Function

namespace util.any_invocable

/-! ## Targets -/

/-- What the wrapper asks of the type of a target. -/
structure TargetType where
  sizeof : Nat
  alignof : Nat
  is_nothrow_move_constructible : Bool
  is_trivially_copyable : Bool
  is_trivially_destructible : Bool
  /-- There is no other destructor of what is trivially copyable. -/
  copyable : is_trivially_copyable = true → is_trivially_destructible = true
  deriving DecidableEq

/-- `small_object_storage_property::align`. -/
def small_object_storage_align : Nat := 16

/-- `small_object_storage_property::size`. -/
def small_object_storage_size : Nat := 16

/-- `__STDCPP_DEFAULT_NEW_ALIGNMENT__`. -/
def default_new_alignment : Nat := 16

/-- `is_stored_locally_v`. -/
def is_stored_locally (T : TargetType) : Bool :=
  T.sizeof ≤ small_object_storage_size && T.alignof ≤ small_object_storage_align &&
    small_object_storage_align % T.alignof = 0 && T.is_nothrow_move_constructible

/-- `has_trivial_remote_storage_v`. -/
def has_trivial_remote_storage (T : TargetType) : Bool :=
  T.is_trivially_destructible && decide (T.alignof ≤ default_new_alignment)

structure Target (F : Type) where
  type : TargetType
  function : F

/-- How a program ends, or what it does wrong. -/
inductive Fault where
  /-- There is no such object, or there is one already. No program is written so. -/
  | ill_formed
  /-- An assertion ends the program. -/
  | terminated
  /-- Behaviour that the language does not define. -/
  | undefined
  /-- The storage of an object is used again, or given up, and its destructor did not run. -/
  | leaked
  deriving DecidableEq, Repr

variable {F : Type}

/-! ## Memory -/

/-- What `operator new` gave, with the object that was constructed there. -/
structure Block (F : Type) where
  size : Nat
  object : Target F

structure Heap (F : Type) where
  blocks : Nat → Option (Block F)
  /-- The address of the next block. -/
  next : Nat

namespace Heap

def allocate (heap : Heap F) (block : Block F) : Nat × Heap F :=
  (heap.next, ⟨update heap.blocks heap.next (some block), heap.next + 1⟩)

/-- `::operator delete`, with a size. No destructor runs. -/
def operator_delete (heap : Heap F) (target size : Nat) : Except Fault (Heap F) :=
  match heap.blocks target with
  | none => .error .undefined
  | some block =>
    if block.size = size then
      if block.object.type.is_trivially_destructible then
        .ok { heap with blocks := update heap.blocks target none }
      else .error .leaked
    else .error .undefined

/-- `delete` of a pointer to a `T`. -/
def delete (heap : Heap F) (T : TargetType) (target : Nat) : Except Fault (Heap F) :=
  match heap.blocks target with
  | none => .error .undefined
  | some block =>
    if block.object.type = T then .ok { heap with blocks := update heap.blocks target none }
    else .error .undefined

end Heap

/-- The union `type_erased_state`. -/
inductive TypeErasedState (F : Type) where
  | uninitialized
  | storage (object : Target F)
  /-- The size may be uninitialized. -/
  | remote (target : Nat) (size : Option Nat)

/-- The storage is used for something else, or given up. -/
def TypeErasedState.release : TypeErasedState F → Except Fault Unit
  | .storage object => if object.type.is_trivially_destructible then .ok () else .error .leaked
  | _ => .ok ()

/-! ## Managers -/

/-- The functions that `manager_` may point to. -/
inductive Manager where
  | empty_manager
  | local_manager_trivial
  | local_manager_nontrivial (T : TargetType)
  | remote_manager_trivial
  | remote_manager_nontrivial (T : TargetType)

namespace Manager

/-- With `relocate_from_to`, what is in `from` and `to` then. -/
def relocate (manager : Manager) (source dest : TypeErasedState F) :
    Except Fault (TypeErasedState F × TypeErasedState F) :=
  match manager with
  | .empty_manager => .ok (source, dest)
  | .local_manager_trivial => dest.release.map fun _ => (source, source)
  | .local_manager_nontrivial T =>
    match source with
    | .storage object =>
      if object.type = T then dest.release.map fun _ => (.uninitialized, .storage object)
      else .error .undefined
    | _ => .error .undefined
  | .remote_manager_trivial =>
    match source with
    | .remote target size => dest.release.map fun _ => (source, .remote target size)
    | _ => .error .undefined
  | .remote_manager_nontrivial _ =>
    match source with
    | .remote target _ => dest.release.map fun _ => (source, .remote target none)
    | _ => .error .undefined

/-- With `dispose`. -/
def dispose (manager : Manager) (heap : Heap F) (state : TypeErasedState F) :
    Except Fault (Heap F × TypeErasedState F) :=
  match manager with
  | .empty_manager => .ok (heap, state)
  -- The state is copied to itself.
  | .local_manager_trivial => .ok (heap, state)
  | .local_manager_nontrivial T =>
    match state with
    | .storage object =>
      if object.type = T then .ok (heap, .uninitialized) else .error .undefined
    | _ => .error .undefined
  | .remote_manager_trivial =>
    match state with
    | .remote target (some size) => (heap.operator_delete target size).map fun heap => (heap, state)
    | _ => .error .undefined
  | .remote_manager_nontrivial T =>
    match state with
    | .remote target _ => (heap.delete T target).map fun heap => (heap, state)
    | _ => .error .undefined

end Manager

/-- The functions that `invoker_` may point to. -/
inductive Invoker where
  | local_invoker (T : TargetType)
  | remote_invoker (T : TargetType)
  /-- That of a wrapper that was called as an rvalue. -/
  | use_after_move

/-- The function that is called. -/
def Invoker.invoke (invoker : Invoker) (heap : Heap F) (state : TypeErasedState F) :
    Except Fault F :=
  match invoker with
  | .local_invoker T =>
    match state with
    | .storage object => if object.type = T then .ok object.function else .error .undefined
    | _ => .error .undefined
  | .remote_invoker T =>
    match state with
    | .remote target _ =>
      match heap.blocks target with
      | some block =>
        if block.object.type = T then .ok block.object.function else .error .undefined
      | none => .error .undefined
    | _ => .error .undefined
  | .use_after_move => .error .terminated

/-! ## The wrapper -/

structure AnyInvocable (F : Type) where
  state_ : TypeErasedState F
  manager_ : Manager
  invoker_ : Option Invoker

namespace AnyInvocable

def empty : AnyInvocable F := ⟨.uninitialized, .empty_manager, none⟩

def has_value (f : AnyInvocable F) : Bool := f.invoker_.isSome

def initialize_storage (heap : Heap F) (target : Target F) : Heap F × AnyInvocable F :=
  if is_stored_locally target.type then
    (heap, {
      state_ := .storage target
      manager_ :=
        if target.type.is_trivially_copyable then .local_manager_trivial
        else .local_manager_nontrivial target.type
      invoker_ := some (.local_invoker target.type) })
  else
    let (address, heap) := heap.allocate ⟨target.type.sizeof, target⟩
    (heap, {
      state_ :=
        if has_trivial_remote_storage target.type then .remote address (some target.type.sizeof)
        else .remote address none
      manager_ :=
        if has_trivial_remote_storage target.type then .remote_manager_trivial
        else .remote_manager_nontrivial target.type
      invoker_ := some (.remote_invoker target.type) })

end AnyInvocable

/-! ## Programs -/

/-- A variable of a program, or the one that a function of the wrapper declares. -/
inductive Place where
  | named (n : Nat)
  | temporary
  deriving DecidableEq, Repr

/-- The wrappers of a program, and the functions that were called through them. -/
structure Store (F : Type) where
  places : Place → Option (AnyInvocable F)
  heap : Heap F
  calls : List F

namespace Store

def new : Store F := ⟨fun _ => none, ⟨fun _ => none, 0⟩, []⟩

/-- The constructors from a function, or from a null pointer. -/
def construct (s : Store F) (p : Place) (target : Option (Target F)) : Except Fault (Store F) :=
  if (s.places p).isSome then .error .ill_formed
  else
    match target with
    | none => .ok { s with places := update s.places p (some .empty) }
    | some target =>
      let (heap, f) := AnyInvocable.initialize_storage s.heap target
      .ok { s with places := update s.places p (some f), heap := heap }

/-- What the move constructor and the move assignment have in common. -/
def relocate (s : Store F) (p other : Place) : Except Fault (Store F) :=
  match s.places p, s.places other with
  | some f, some g => do
    let (source, dest) ← g.manager_.relocate g.state_ f.state_
    .ok { s with
      places := update (update s.places p (some ⟨dest, g.manager_, g.invoker_⟩)) other
        (some ⟨source, .empty_manager, none⟩) }
  | _, _ => .error .ill_formed

/-- A wrapper that is made from itself would read its manager before it has one. -/
def move_construct (s : Store F) (p other : Place) : Except Fault (Store F) :=
  if p = other then .error .ill_formed
  else do
    let s ← s.construct p none
    s.relocate p other

/-- `clear`. -/
def clear (s : Store F) (p : Place) : Except Fault (Store F) :=
  match s.places p with
  | none => .error .ill_formed
  | some f => do
    let (heap, state) ← f.manager_.dispose s.heap f.state_
    .ok { s with places := update s.places p (some ⟨state, .empty_manager, none⟩), heap := heap }

def move_assign (s : Store F) (p other : Place) : Except Fault (Store F) := do
  let s ← s.clear p
  s.relocate p other

/-- The destructor. -/
def destroy (s : Store F) (p : Place) : Except Fault (Store F) :=
  match s.places p with
  | none => .error .ill_formed
  | some f => do
    let (heap, state) ← f.manager_.dispose s.heap f.state_
    state.release
    .ok { s with places := update s.places p none, heap := heap }

/-- The assignment of a function. -/
def assign (s : Store F) (p : Place) (target : Target F) : Except Fault (Store F) := do
  let s ← s.construct .temporary (some target)
  let s ← s.move_assign p .temporary
  s.destroy .temporary

/-- `std::swap`. -/
def swap (s : Store F) (p other : Place) : Except Fault (Store F) := do
  let s ← s.move_construct .temporary p
  let s ← s.move_assign p other
  let s ← s.move_assign other .temporary
  s.destroy .temporary

/-- `operator()`. With a signature for rvalues the wrapper cannot be called again. -/
def call (s : Store F) (p : Place) (rvalue : Bool) : Except Fault (Store F) :=
  match s.places p with
  | none => .error .ill_formed
  | some f =>
    match f.invoker_ with
    | none => .error .terminated
    | some invoker => do
      let function ← invoker.invoke s.heap f.state_
      let extracted := if rvalue then .use_after_move else invoker
      .ok { s with
        places := update s.places p (some { f with invoker_ := some extracted })
        calls := s.calls ++ [function] }

end Store

/-- What a program does with its variables. -/
inductive Event (F : Type) where
  | construct (n : Nat) (target : Option (Target F))
  | move_construct (n other : Nat)
  | move_assign (n other : Nat)
  | assign_null (n : Nat)
  | assign (n : Nat) (target : Target F)
  | swap (n other : Nat)
  | call (n : Nat) (rvalue : Bool)
  | destroy (n : Nat)

def Store.step (s : Store F) : Event F → Except Fault (Store F)
  | .construct n target => s.construct (.named n) target
  | .move_construct n other => s.move_construct (.named n) (.named other)
  | .move_assign n other => s.move_assign (.named n) (.named other)
  | .assign_null n => s.clear (.named n)
  | .assign n target => s.assign (.named n) target
  | .swap n other => s.swap (.named n) (.named other)
  | .call n rvalue => s.call (.named n) rvalue
  | .destroy n => s.destroy (.named n)

end util.any_invocable
