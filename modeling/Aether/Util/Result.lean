-- The block of memory of a `result`, `util/result.hpp`: one object or another is in it, and a flag
-- tells which of them.
--
-- A constructor and an assignment of the stored types may throw, their moves do not. A result
-- without a value, which is an optional error, is left out.
import Aether.Error
import Mathlib.Logic.Function.Basic

open Function
open proxy (bind_eq_ok)

namespace util.result

variable {V E : Type}

/-- An object of the value type or of the error type. -/
inductive Object (V E : Type) where
  | ok (value : V)
  | err (error : E)
  deriving DecidableEq, Repr

def Object.is_err : Object V E → Bool
  | .ok _ => false
  | .err _ => true

/-- What a program does wrong. -/
inductive Fault where
  /-- There is no such result, or there is one already. No program is written so. -/
  | ill_formed
  /-- An object is used or destroyed that is not alive, or as one of the other type. -/
  | undefined
  /-- An object is constructed over another one, whose destructor did not run. -/
  | leaked
  deriving DecidableEq, Repr

/-! ## One result -/

structure ResultBase (V E : Type) where
  error_ : Bool
  /-- The object that is alive in the memory. -/
  storage_ : Option (Object V E)
  deriving DecidableEq

namespace ResultBase

/-- The memory before the constructor. -/
def raw : ResultBase V E := ⟨false, none⟩

def is_ok (r : ResultBase V E) : Bool := !r.error_

def get_ok_impl (r : ResultBase V E) : Except Fault V :=
  match r.storage_ with
  | some (.ok value) => .ok value
  | _ => .error .undefined

def get_err_impl (r : ResultBase V E) : Except Fault E :=
  match r.storage_ with
  | some (.err error) => .ok error
  | _ => .error .undefined

/-- What the flag says is there. -/
def get_impl (r : ResultBase V E) : Except Fault (Object V E) :=
  if r.is_ok then .ok <$> r.get_ok_impl else .err <$> r.get_err_impl

def construct (r : ResultBase V E) (object : Object V E) : Except Fault (ResultBase V E) :=
  match r.storage_ with
  | some _ => .error .leaked
  | none => .ok ⟨object.is_err, some object⟩

def destroy (r : ResultBase V E) : Except Fault (ResultBase V E) :=
  if r.is_ok then do
    let _ ← r.get_ok_impl
    .ok { r with storage_ := none }
  else do
    let _ ← r.get_err_impl
    .ok { r with storage_ := none }

/-- The object is assigned another one of its type, or its assignment throws. -/
def assign_value (r : ResultBase V E) (object : Object V E) (throws : Bool) :
    Except Fault (ResultBase V E) :=
  match object with
  | .ok _ => do
    let _ ← r.get_ok_impl
    .ok (if throws then r else ⟨false, some object⟩)
  | .err _ => do
    let _ ← r.get_err_impl
    .ok (if throws then r else ⟨true, some object⟩)

/-- `construct` behind `destroy`, where the constructor may throw. -/
def replace (r : ResultBase V E) (object : Object V E) (throws : Bool) :
    Except Fault (ResultBase V E) := do
  let r ← r.destroy
  if throws then .ok r else r.construct object

def assign (r rhs : ResultBase V E) (throws : Bool) : Except Fault (ResultBase V E) := do
  let object ← rhs.get_impl
  if r.is_ok then
    if rhs.is_ok then r.assign_value object throws else r.replace object throws
  else if rhs.is_ok then r.replace object throws
  else r.assign_value object throws

/-- `emplace_assign`. -/
def emplace (r : ResultBase V E) (object : Object V E) (throws : Bool) :
    Except Fault (ResultBase V E) :=
  r.replace object throws

end ResultBase

/-! ## Programs -/

/-- What a program does with its results, and if a constructor or an assignment throws. -/
inductive Event (V E : Type) where
  | construct (n : Nat) (object : Object V E) (throws : Bool)
  | copy_construct (n rhs : Nat) (throws : Bool)
  | move_construct (n rhs : Nat)
  | copy_assign (n rhs : Nat) (throws : Bool)
  | move_assign (n rhs : Nat)
  | emplace (n : Nat) (object : Object V E) (throws : Bool)
  | destroy (n : Nat)

abbrev Store (V E : Type) := Nat → Option (ResultBase V E)

section
-- What a move leaves of an object.
variable (moved_value : V → V) (moved_error : E → E)

def moved : Object V E → Object V E
  | .ok value => .ok (moved_value value)
  | .err error => .err (moved_error error)

namespace Store

def get (s : Store V E) (n : Nat) : Except Fault (ResultBase V E) :=
  match s n with
  | none => .error .ill_formed
  | some r => .ok r

/-- A constructor. The object is not there if it throws. -/
def construct (s : Store V E) (n : Nat) (object : Object V E) (throws : Bool) :
    Except Fault (Store V E) :=
  if (s n).isSome then .error .ill_formed
  else if throws then .ok s
  else do
    let r ← ResultBase.raw.construct object
    .ok (update s n (some r))

/-- The object of the result is moved from. -/
def move_from (s : Store V E) (n : Nat) : Except Fault (Store V E) := do
  let r ← s.get n
  let object ← r.get_impl
  .ok (update s n (some { r with storage_ := some (moved moved_value moved_error object) }))

def step (s : Store V E) : Event V E → Except Fault (Store V E)
  | .construct n object throws => s.construct n object throws
  | .copy_construct n rhs throws => do
    let r ← s.get rhs
    let object ← r.get_impl
    s.construct n object throws
  | .move_construct n rhs => do
    let r ← s.get rhs
    let object ← r.get_impl
    let s ← s.construct n object false
    s.move_from moved_value moved_error rhs
  | .copy_assign n rhs throws => do
    let r ← s.get n
    let other ← s.get rhs
    let r ← r.assign other throws
    .ok (update s n (some r))
  | .move_assign n rhs => do
    let r ← s.get n
    let other ← s.get rhs
    let r ← r.assign other false
    let s : Store V E := update s n (some r)
    s.move_from moved_value moved_error rhs
  | .emplace n object throws => do
    let r ← s.get n
    let r ← r.emplace object throws
    .ok (update s n (some r))
  | .destroy n => do
    let r ← s.get n
    let _ ← r.destroy
    .ok (update s n none)

def run (s : Store V E) (es : List (Event V E)) : Except Fault (Store V E) :=
  es.foldlM (step moved_value moved_error) s

end Store

/-! ## Values -/

/-- A result is a variable that has a value or an error. An assignment that throws has done
nothing. -/
abbrev Cells (V E : Type) := Nat → Option (Object V E)

namespace Cells

def put (c : Cells V E) (n : Nat) (object : Object V E) (throws : Bool) : Cells V E :=
  if throws then c else update c n (some object)

def step (c : Cells V E) : Event V E → Option (Cells V E)
  | .construct n object throws => if (c n).isSome then none else some (c.put n object throws)
  | .copy_construct n rhs throws =>
    (c rhs).bind fun object => if (c n).isSome then none else some (c.put n object throws)
  | .move_construct n rhs =>
    (c rhs).bind fun object =>
      if (c n).isSome then none
      else some (update (update c n (some object)) rhs
        (some (moved moved_value moved_error object)))
  | .copy_assign n rhs throws =>
    (c n).bind fun _ => (c rhs).map fun object => c.put n object throws
  | .move_assign n rhs =>
    (c n).bind fun _ => (c rhs).map fun object =>
      update (update c n (some object)) rhs (some (moved moved_value moved_error object))
  | .emplace n object throws => (c n).map fun _ => c.put n object throws
  | .destroy n => (c n).map fun _ => update c n none

def run (c : Cells V E) (es : List (Event V E)) : Option (Cells V E) :=
  es.foldlM (step moved_value moved_error) c

/-- The event throws where the old object is destroyed already. -/
def Slips (c : Cells V E) : Event V E → Prop
  | .copy_assign n rhs true =>
    ∃ old ∈ c n, ∃ object ∈ c rhs, old.is_err ≠ object.is_err
  | .emplace _ _ true => True
  | _ => False

/-- No event of the program slips. -/
def Careful (c : Cells V E) : List (Event V E) → Prop
  | [] => True
  | e :: es => ¬ c.Slips e ∧ ∀ c' ∈ c.step moved_value moved_error e, Careful c' es

end Cells

/-- The memory that holds an object. -/
def ResultBase.of (object : Object V E) : ResultBase V E := ⟨object.is_err, some object⟩

/-- The memory of results that are as they should be. -/
def Cells.store (c : Cells V E) : Store V E := fun n => (c n).map .of

variable {moved_value moved_error} {c c' : Cells V E} {n : Nat} {object old : Object V E}
  {throws : Bool}

@[simp] theorem store_update (c : Cells V E) (n : Nat) (x : Option (Object V E)) :
    Cells.store (update c n x) = update c.store n (x.map .of) := by
  funext k
  by_cases hk : k = n
  · subst hk
    simp [Cells.store]
  · simp [Cells.store, hk]

theorem get_of_some (h : c n = some object) : c.store.get n = .ok (.of object) := by
  simp [Store.get, Cells.store, h]

namespace ResultBase

@[simp] theorem of_get_impl (object : Object V E) : (of object).get_impl = .ok object := by
  cases object <;> rfl

@[simp] theorem of_destroy (object : Object V E) :
    (of object).destroy = .ok ⟨object.is_err, none⟩ := by
  cases object <;> rfl

@[simp] theorem raw_construct (object : Object V E) : raw.construct object = .ok (of object) := rfl

theorem of_replace (old object : Object V E) (throws : Bool) : (of old).replace object throws =
    .ok (if throws then ⟨old.is_err, none⟩ else of object) := by
  unfold replace
  rw [of_destroy]
  cases throws <;> rfl

/-- An assignment that does not throw, or leaves the type as it is. -/
theorem of_assign (h : throws = true → old.is_err = object.is_err) :
    (of old).assign (of object) throws = .ok (if throws then of old else of object) := by
  cases throws with
  | false => cases old <;> cases object <;> rfl
  | true => cases old <;> cases object <;> first | rfl | exact Bool.noConfusion (h rfl)

/-- An assignment of the other type that throws leaves no object. -/
theorem of_assign_throws (h : old.is_err ≠ object.is_err) :
    (of old).assign (of object) true = .ok ⟨old.is_err, none⟩ := by
  cases old <;> cases object <;> first | rfl | exact absurd rfl h

end ResultBase

theorem store_put (c : Cells V E) (n : Nat) (object : Object V E) (throws : Bool) :
    (c.put n object throws).store =
      if throws then c.store else update c.store n (some (.of object)) := by
  cases throws
  · exact store_update c n _
  · rfl

theorem construct_store (h : (c n).isSome = false) :
    c.store.construct n object throws = .ok (c.put n object throws).store := by
  have hnone : (c.store n).isSome = false := by simpa [Cells.store] using h
  rw [Store.construct, hnone, store_put]
  cases throws <;> rfl

theorem move_from_store (h : c n = some object) :
    Store.move_from moved_value moved_error c.store n =
      .ok (Cells.store (update c n (some (moved moved_value moved_error object)))) := by
  have hof : ResultBase.of (moved moved_value moved_error object) =
      { ResultBase.of object with storage_ := some (moved moved_value moved_error object) } := by
    cases object <;> rfl
  rw [Store.move_from, get_of_some h, store_update, Option.map_some, hof]
  show ((ResultBase.of object).get_impl >>= _) = _
  rw [ResultBase.of_get_impl]
  rfl

theorem step_store {e : Event V E} (h : c.step moved_value moved_error e = some c')
    (hslips : ¬ c.Slips e) : c.store.step moved_value moved_error e = .ok c'.store := by
  cases e with
  | construct n object throws =>
    obtain ⟨hn, h⟩ := Option.ite_none_left_eq_some.mp h
    obtain rfl := Option.some.inj h
    exact construct_store (Bool.eq_false_iff.mpr hn)
  | copy_construct n rhs throws =>
    obtain ⟨object, hrhs, h⟩ := Option.bind_eq_some_iff.mp h
    obtain ⟨hn, h⟩ := Option.ite_none_left_eq_some.mp h
    obtain rfl := Option.some.inj h
    show (c.store.get rhs >>= _) = _
    rw [get_of_some hrhs]
    show ((ResultBase.of object).get_impl >>= _) = _
    rw [ResultBase.of_get_impl]
    exact construct_store (Bool.eq_false_iff.mpr hn)
  | move_construct n rhs =>
    obtain ⟨object, hrhs, h⟩ := Option.bind_eq_some_iff.mp h
    obtain ⟨hn, h⟩ := Option.ite_none_left_eq_some.mp h
    obtain rfl := Option.some.inj h
    have hne : rhs ≠ n := by
      rintro rfl
      rw [hrhs] at hn
      exact hn rfl
    have hrhs' : (c.put n object false) rhs = some object := by
      rw [Cells.put, if_neg Bool.false_ne_true, update_of_ne hne, hrhs]
    show (c.store.get rhs >>= _) = _
    rw [get_of_some hrhs]
    show ((ResultBase.of object).get_impl >>= _) = _
    rw [ResultBase.of_get_impl]
    show (c.store.construct n object false >>= _) = _
    rw [construct_store (Bool.eq_false_iff.mpr hn)]
    exact move_from_store hrhs'
  | copy_assign n rhs throws =>
    obtain ⟨old, hn, h⟩ := Option.bind_eq_some_iff.mp h
    obtain ⟨object, hrhs, rfl⟩ := Option.map_eq_some_iff.mp h
    have hkind : throws = true → old.is_err = object.is_err := by
      rintro rfl
      by_contra hne
      exact hslips ⟨old, hn, object, hrhs, hne⟩
    show (c.store.get n >>= _) = _
    rw [get_of_some hn]
    show (c.store.get rhs >>= _) = _
    rw [get_of_some hrhs]
    show ((ResultBase.of old).assign (.of object) throws >>= _) = _
    rw [ResultBase.of_assign hkind, store_put]
    cases throws with
    | false => rfl
    | true =>
      have hsame : c.store n = some (.of old) := by simp [Cells.store, hn]
      exact congrArg Except.ok (by rw [if_pos rfl, ← hsame]; exact update_eq_self n c.store)
  | move_assign n rhs =>
    obtain ⟨old, hn, h⟩ := Option.bind_eq_some_iff.mp h
    obtain ⟨object, hrhs, rfl⟩ := Option.map_eq_some_iff.mp h
    have hrhs' : (c.put n object false) rhs = some object := by
      rw [Cells.put, if_neg Bool.false_ne_true]
      by_cases hne : rhs = n
      · rw [hne, update_self]
      · rw [update_of_ne hne, hrhs]
    show (c.store.get n >>= _) = _
    rw [get_of_some hn]
    show (c.store.get rhs >>= _) = _
    rw [get_of_some hrhs]
    show ((ResultBase.of old).assign (.of object) false >>= _) = _
    rw [ResultBase.of_assign (fun h => Bool.noConfusion h)]
    show Store.move_from moved_value moved_error (update c.store n (some (.of object))) rhs = _
    rw [← Option.map_some, ← store_update]
    exact move_from_store hrhs'
  | emplace n object throws =>
    obtain ⟨old, hn, rfl⟩ := Option.map_eq_some_iff.mp h
    cases throws with
    | true => exact absurd trivial hslips
    | false =>
      show (c.store.get n >>= _) = _
      rw [get_of_some hn]
      show ((ResultBase.of old).replace object false >>= _) = _
      rw [ResultBase.of_replace, store_put]
      rfl
  | destroy n =>
    obtain ⟨old, hn, rfl⟩ := Option.map_eq_some_iff.mp h
    show (c.store.get n >>= _) = _
    rw [get_of_some hn]
    show ((ResultBase.of old).destroy >>= _) = _
    rw [ResultBase.of_destroy, store_update]
    rfl

/-! ## Runs -/

variable {es : List (Event V E)}

theorem run_store (h : c.run moved_value moved_error es = some c')
    (hcareful : c.Careful moved_value moved_error es) :
    c.store.run moved_value moved_error es = .ok c'.store := by
  induction es generalizing c with
  | nil =>
    obtain rfl := Option.some.inj h
    rfl
  | cons e es ih =>
    obtain ⟨c₁, hstep, hrest⟩ := Option.bind_eq_some_iff.mp h
    show (c.store.step moved_value moved_error e >>= _) = _
    rw [step_store hstep hcareful.1]
    exact ih hrest (hcareful.2 c₁ hstep)

/-- A result whose object is destroyed and not followed by another one. -/
def Dead (s : Store V E) (n : Nat) : Prop := ∃ flag, s n = some ⟨flag, none⟩

variable {s s' : Store V E} {e : Event V E}

theorem get_eq_ok {r : ResultBase V E} (h : s.get n = .ok r) : s n = some r := by
  unfold Store.get at h
  split at h
  · cases h
  · rename_i r' hn
    rw [hn, Except.ok.inj h]

theorem construct_eq_ok (h : s.construct n object throws = .ok s') :
    s n = none ∧ ∀ k ≠ n, s' k = s k := by
  unfold Store.construct at h
  split at h
  · cases h
  · rename_i hn
    refine ⟨by simpa using hn, fun k hk => ?_⟩
    split at h
    · rw [← Except.ok.inj h]
    · obtain ⟨r, -, h⟩ := bind_eq_ok.mp h
      rw [← Except.ok.inj h, update_of_ne hk]

theorem move_from_eq_ok (h : s.move_from moved_value moved_error n = .ok s') :
    ∃ r object, s n = some r ∧ r.get_impl = .ok object ∧ ∀ k ≠ n, s' k = s k := by
  obtain ⟨r, hr, h⟩ := bind_eq_ok.mp h
  obtain ⟨object, hobject, h⟩ := bind_eq_ok.mp h
  refine ⟨r, object, get_eq_ok hr, hobject, fun k hk => ?_⟩
  rw [← Except.ok.inj h, update_of_ne hk]

/-! An object that is not alive can neither be read, nor be destroyed, nor be assigned to. -/

theorem dead_get {flag : Bool} : ¬ ∃ object : Object V E, ResultBase.get_impl ⟨flag, none⟩ =
    .ok object := by
  rintro ⟨object, h⟩
  cases flag <;> cases h

theorem dead_destroy {flag : Bool} : ¬ ∃ r : ResultBase V E, ResultBase.destroy ⟨flag, none⟩ =
    .ok r := by
  rintro ⟨r, h⟩
  cases flag <;> cases h

theorem dead_assign {flag : Bool} {rhs : ResultBase V E} : ¬ ∃ r,
    ResultBase.assign ⟨flag, none⟩ rhs throws = .ok r := by
  rintro ⟨r, h⟩
  rcases rhs with ⟨flag', storage⟩
  rcases storage with - | (value | error) <;> cases flag' <;> cases flag <;> cases h

theorem Dead.ne_of_none {k : Nat} (hdead : Dead s n) (hk : s k = none) : n ≠ k := by
  rintro rfl
  obtain ⟨flag, hn⟩ := hdead
  rw [hk] at hn
  cases hn

theorem Dead.ne_of_get {k : Nat} {r : ResultBase V E} {x : Object V E} (hdead : Dead s n)
    (hr : s k = some r) (hx : r.get_impl = .ok x) : n ≠ k := by
  rintro rfl
  obtain ⟨flag, hn⟩ := hdead
  rw [hr] at hn
  obtain rfl := Option.some.inj hn
  exact dead_get ⟨x, hx⟩

theorem Dead.ne_of_destroy {k : Nat} {r r' : ResultBase V E} (hdead : Dead s n)
    (hr : s k = some r) (hr' : r.destroy = .ok r') : n ≠ k := by
  rintro rfl
  obtain ⟨flag, hn⟩ := hdead
  rw [hr] at hn
  obtain rfl := Option.some.inj hn
  exact dead_destroy ⟨r', hr'⟩

theorem Dead.ne_of_assign {k : Nat} {r other r' : ResultBase V E} (hdead : Dead s n)
    (hr : s k = some r) (hr' : r.assign other throws = .ok r') : n ≠ k := by
  rintro rfl
  obtain ⟨flag, hn⟩ := hdead
  rw [hr] at hn
  obtain rfl := Option.some.inj hn
  exact dead_assign ⟨r', hr'⟩

theorem Dead.of_eq (hdead : Dead s n) (h : s' n = s n) : Dead s' n := by
  obtain ⟨flag, hn⟩ := hdead
  exact ⟨flag, h.trans hn⟩

/-- Whatever is done with a dead result is a fault, also its destructor. -/
theorem dead_step (hdead : Dead s n) (h : s.step moved_value moved_error e = .ok s') :
    Dead s' n ∧ e ≠ .destroy n := by
  cases e with
  | construct m object throws =>
    obtain ⟨hm, hframe⟩ := construct_eq_ok h
    exact ⟨hdead.of_eq (hframe n (hdead.ne_of_none hm)), by rintro ⟨⟩⟩
  | copy_construct m rhs throws =>
    obtain ⟨r, -, h⟩ := bind_eq_ok.mp h
    obtain ⟨object, -, h⟩ := bind_eq_ok.mp h
    obtain ⟨hm, hframe⟩ := construct_eq_ok h
    exact ⟨hdead.of_eq (hframe n (hdead.ne_of_none hm)), by rintro ⟨⟩⟩
  | move_construct m rhs =>
    obtain ⟨r, hr, h⟩ := bind_eq_ok.mp h
    obtain ⟨object, hobject, h⟩ := bind_eq_ok.mp h
    obtain ⟨s₁, hconstruct, h⟩ := bind_eq_ok.mp h
    obtain ⟨hm, hframe⟩ := construct_eq_ok hconstruct
    obtain ⟨-, -, -, -, hframe'⟩ := move_from_eq_ok h
    have hrhs := hdead.ne_of_get (get_eq_ok hr) hobject
    exact ⟨hdead.of_eq ((hframe' n hrhs).trans (hframe n (hdead.ne_of_none hm))), by rintro ⟨⟩⟩
  | copy_assign m rhs throws =>
    obtain ⟨r, hr, h⟩ := bind_eq_ok.mp h
    obtain ⟨other, -, h⟩ := bind_eq_ok.mp h
    obtain ⟨r', hassign, h⟩ := bind_eq_ok.mp h
    have hm := hdead.ne_of_assign (get_eq_ok hr) hassign
    exact ⟨hdead.of_eq (by rw [← Except.ok.inj h, update_of_ne hm]), by rintro ⟨⟩⟩
  | move_assign m rhs =>
    obtain ⟨r, hr, h⟩ := bind_eq_ok.mp h
    obtain ⟨other, hother, h⟩ := bind_eq_ok.mp h
    obtain ⟨r', hassign, h⟩ := bind_eq_ok.mp h
    have hm := hdead.ne_of_assign (get_eq_ok hr) hassign
    have hmid : Dead (update s m (some r')) n := hdead.of_eq (update_of_ne hm _ _)
    obtain ⟨r₁, object, hr₁, hobject, hframe⟩ := move_from_eq_ok h
    exact ⟨hmid.of_eq (hframe n (hmid.ne_of_get hr₁ hobject)), by rintro ⟨⟩⟩
  | emplace m object throws =>
    obtain ⟨r, hr, h⟩ := bind_eq_ok.mp h
    obtain ⟨r', hreplace, h⟩ := bind_eq_ok.mp h
    obtain ⟨r₁, hdestroy, -⟩ := bind_eq_ok.mp hreplace
    have hm := hdead.ne_of_destroy (get_eq_ok hr) hdestroy
    exact ⟨hdead.of_eq (by rw [← Except.ok.inj h, update_of_ne hm]), by rintro ⟨⟩⟩
  | destroy m =>
    obtain ⟨r, hr, h⟩ := bind_eq_ok.mp h
    obtain ⟨r', hdestroy, h⟩ := bind_eq_ok.mp h
    have hm := hdead.ne_of_destroy (get_eq_ok hr) hdestroy
    refine ⟨hdead.of_eq (by rw [← Except.ok.inj h, update_of_ne hm]), ?_⟩
    rintro ⟨⟩
    exact hm rfl

theorem update_isSome (hn : (c n).isSome = true) (m : Nat) :
    (update c m (some object) n).isSome = true := by
  rw [update_apply]
  split
  · rfl
  · exact hn

theorem put_isSome (hn : (c n).isSome = true) (m : Nat) :
    (c.put m object throws n).isSome = true := by
  cases throws
  · exact update_isSome hn m
  · exact hn

/-- A result is only gone with its destructor. -/
theorem cells_keep (h : c.step moved_value moved_error e = some c') (hn : (c n).isSome = true)
    (he : e ≠ .destroy n) : (c' n).isSome = true := by
  cases e with
  | construct m object throws =>
    obtain ⟨-, h⟩ := Option.ite_none_left_eq_some.mp h
    rw [← Option.some.inj h]
    exact put_isSome hn m
  | copy_construct m rhs throws =>
    obtain ⟨object, -, h⟩ := Option.bind_eq_some_iff.mp h
    obtain ⟨-, h⟩ := Option.ite_none_left_eq_some.mp h
    rw [← Option.some.inj h]
    exact put_isSome hn m
  | move_construct m rhs =>
    obtain ⟨object, -, h⟩ := Option.bind_eq_some_iff.mp h
    obtain ⟨-, h⟩ := Option.ite_none_left_eq_some.mp h
    rw [← Option.some.inj h]
    exact update_isSome (update_isSome hn m) rhs
  | copy_assign m rhs throws =>
    obtain ⟨old, -, h⟩ := Option.bind_eq_some_iff.mp h
    obtain ⟨object, -, rfl⟩ := Option.map_eq_some_iff.mp h
    exact put_isSome hn m
  | move_assign m rhs =>
    obtain ⟨old, -, h⟩ := Option.bind_eq_some_iff.mp h
    obtain ⟨object, -, rfl⟩ := Option.map_eq_some_iff.mp h
    exact update_isSome (update_isSome hn m) rhs
  | emplace m object throws =>
    obtain ⟨old, -, rfl⟩ := Option.map_eq_some_iff.mp h
    exact put_isSome hn m
  | destroy m =>
    obtain ⟨old, -, rfl⟩ := Option.map_eq_some_iff.mp h
    have hne : n ≠ m := by
      rintro rfl
      exact he rfl
    rw [update_of_ne hne]
    exact hn

theorem dead_run (hdead : Dead s n) (hs : s.run moved_value moved_error es = .ok s')
    (hc : c.run moved_value moved_error es = some c') (hn : (c n).isSome = true) :
    (c' n).isSome = true := by
  induction es generalizing s c with
  | nil =>
    rw [← Option.some.inj hc]
    exact hn
  | cons e es ih =>
    obtain ⟨s₁, hstep, hs⟩ := bind_eq_ok.mp hs
    obtain ⟨c₁, hcstep, hc⟩ := Option.bind_eq_some_iff.mp hc
    obtain ⟨hdead, he⟩ := dead_step hdead hstep
    exact ih hdead hs hc (cells_keep hcstep hn he)

/-- An event that slips leaves a dead result. -/
theorem slips_dead (hslips : c.Slips e) (hc : c.step moved_value moved_error e = some c')
    (hs : c.store.step moved_value moved_error e = .ok s') :
    ∃ n, Dead s' n ∧ (c' n).isSome = true := by
  cases e with
  | copy_assign n rhs throws =>
    cases throws with
    | false => exact hslips.elim
    | true =>
      obtain ⟨old, hold, object, hobject, hkind⟩ := hslips
      obtain ⟨r, hr, hs⟩ := bind_eq_ok.mp hs
      obtain ⟨other, hother, hs⟩ := bind_eq_ok.mp hs
      obtain ⟨r', hassign, hs⟩ := bind_eq_ok.mp hs
      rw [get_of_some hold] at hr
      rw [get_of_some hobject] at hother
      rw [← Except.ok.inj hr, ← Except.ok.inj hother, ResultBase.of_assign_throws hkind] at hassign
      refine ⟨n, ⟨old.is_err, ?_⟩, cells_keep hc (by rw [hold]; rfl) (by rintro ⟨⟩)⟩
      rw [← Except.ok.inj hs, ← Except.ok.inj hassign, update_self]
  | emplace n object throws =>
    cases throws with
    | false => exact hslips.elim
    | true =>
      obtain ⟨old, hold, -⟩ := Option.map_eq_some_iff.mp hc
      obtain ⟨r, hr, hs⟩ := bind_eq_ok.mp hs
      obtain ⟨r', hreplace, hs⟩ := bind_eq_ok.mp hs
      rw [get_of_some hold] at hr
      rw [← Except.ok.inj hr, ResultBase.emplace, ResultBase.of_replace] at hreplace
      refine ⟨n, ⟨old.is_err, ?_⟩, cells_keep hc (by rw [hold]; rfl) (by rintro ⟨⟩)⟩
      rw [← Except.ok.inj hs, ← Except.ok.inj hreplace, update_self, if_pos rfl]
  | construct n object throws => exact hslips.elim
  | copy_construct n rhs throws => exact hslips.elim
  | move_construct n rhs => exact hslips.elim
  | move_assign n rhs => exact hslips.elim
  | destroy n => exact hslips.elim

theorem careful_of_closed (hc : c.run moved_value moved_error es = some c')
    (hclosed : ∀ n, c' n = none) (hs : ∃ s, c.store.run moved_value moved_error es = .ok s) :
    c.Careful moved_value moved_error es := by
  induction es generalizing c with
  | nil => trivial
  | cons e es ih =>
    obtain ⟨c₁, hcstep, hc⟩ := Option.bind_eq_some_iff.mp hc
    obtain ⟨s', hs⟩ := hs
    obtain ⟨s₁, hstep, hs⟩ := bind_eq_ok.mp hs
    have hslips : ¬ c.Slips e := by
      intro hslips
      obtain ⟨n, hdead, hn⟩ := slips_dead hslips hcstep hstep
      have hlast := dead_run hdead hs hc hn
      rw [hclosed n] at hlast
      cases hlast
    refine ⟨hslips, fun c₂ hc₂ => ?_⟩
    obtain rfl := Option.some.inj (hcstep.symm.trans hc₂)
    rw [step_store hcstep hslips] at hstep
    rw [← Except.ok.inj hstep] at hs
    exact ih hc ⟨s', hs⟩

end

section
variable (moved_value : V → V) (moved_error : E → E) (es : List (Event V E)) (c : Cells V E)

/-- A careful program has results that are values or errors: the memory of each has the one object
that is read from it, and the flag tells which it is. -/
theorem careful_programs_see_values (h : Cells.run moved_value moved_error (fun _ => none) es =
    some c) (hcareful : Cells.Careful moved_value moved_error (fun _ => none) es) :
    ∃ s, Store.run moved_value moved_error (fun _ => none) es = .ok s ∧
      ∀ n, (s n).map (fun r => (r.is_ok, r.get_impl)) =
        (c n).map fun object => (!object.is_err, .ok object) := by
  refine ⟨c.store, run_store h hcareful, fun n => ?_⟩
  rw [Cells.store, Option.map_map]
  exact congrArg (fun f => (c n).map f)
    (funext fun object => Prod.ext rfl (ResultBase.of_get_impl object))

theorem an_assigned_error_is_seen : ∃ s, Store.run id id (fun _ => none)
      [.construct 0 (.ok 5) false, .construct 1 (.err true) false, .copy_assign 0 1 false] = .ok s ∧
    ∀ n, (s n).map (fun r => (r.is_ok, r.get_impl)) =
      (update (update (fun _ => none) 1 (some (.err true))) 0 (some (.err true)) n).map
        fun object : Object Nat Bool => (!object.is_err, .ok object) := by
  refine careful_programs_see_values id id _ _ ?_ ?_
  · simp [Cells.run, Cells.step, Cells.put, update_comm]
  · simp [Cells.Careful, Cells.Slips]

/-- In a program at whose end no result is left, each object is destroyed once and used only
before, just when no constructor throws in an `emplace` or in an assignment of the other type: the
old object is destroyed before the new one is there. -/
theorem objects_are_destroyed_once_iff (h : Cells.run moved_value moved_error (fun _ => none) es =
    some c) (hclosed : ∀ n, c n = none) :
    (∃ s, Store.run moved_value moved_error (fun _ => none) es = .ok s) ↔
      Cells.Careful moved_value moved_error (fun _ => none) es :=
  ⟨careful_of_closed h hclosed, fun hcareful => ⟨c.store, run_store h hcareful⟩⟩

end

theorem an_emplace_that_throws_destroys_twice : ¬ ∃ s, Store.run id id (fun _ => none)
    [.construct 0 (.ok 5) false, .emplace 0 (.err true) true, .destroy 0] = .ok s := by
  have hiff := objects_are_destroyed_once_iff id id
    [.construct 0 (.ok 5) false, .emplace 0 (.err true) true, .destroy 0]
    (update (update (fun _ => none) 0 (some (.ok 5))) 0 none) rfl fun n => by simp [update_apply]
  rw [hiff]
  intro hcareful
  exact (hcareful.2 _ rfl).1 trivial

end util.result
