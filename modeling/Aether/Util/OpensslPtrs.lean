-- The smart pointers of OpenSSL objects, `util/openssl_ptrs.hpp`, over the counts of references
-- that OpenSSL keeps.
--
-- An object is an address with a count, and it is gone with its last reference. What the objects
-- of OpenSSL hold themselves is outside of the pointers: a certificate in a context, the file of a
-- `BIO`. A function that makes an object may fail, and then gives a null pointer.
import Aether.Lib.SharedObjects

open Function

namespace openssl.ptrs

/-! ## Pointers -/

/-- What a pointer points to. The types without a count are one, but for files and `BIO`s. -/
inductive NativeType where
  | x509
  | evp_pkey
  | uncounted
  | file
  | bio
  deriving DecidableEq, Repr

/-- The pointers to these types are an `openssl_scoped_ptr`. -/
def NativeType.counted : NativeType → Bool
  | .x509 | .evp_pkey => true
  | _ => false

/-- The types with an `open` of their own. -/
def NativeType.opens : NativeType → Bool
  | .file | .bio => true
  | _ => false

/-- `openssl_base_ptr`. -/
structure Pointer where
  type : NativeType
  native_ : Option Nat
  deriving DecidableEq, Repr

/-- What goes wrong in a program. -/
inductive Fault where
  /-- There is no such pointer, or one of another type. No program is written so. -/
  | ill_formed
  /-- OpenSSL is given a null pointer to count. -/
  | null
  /-- The object is gone already. -/
  | freed
  deriving DecidableEq, Repr

structure System where
  pointers : Nat → Option Pointer
  /-- The count of each object. Without a reference there is no object. -/
  references : Nat → Nat
  /-- The references that the objects of OpenSSL are to give back. -/
  outside : Nat → Nat

namespace System

def new : System := ⟨fun _ => none, fun _ => 0, fun _ => 0⟩

def pointer (s : System) (p : Nat) : Except Fault Pointer :=
  match s.pointers p with
  | some x => .ok x
  | none => .error .ill_formed

def set (s : System) (p : Nat) (x : Option Pointer) : System :=
  { s with pointers := update s.pointers p x }

def require (c : Bool) : Except Fault Unit := if c then .ok () else .error .ill_formed

/-! ## OpenSSL -/

/-- `NewFunction`, and each other function that makes an object, at an address that is not used. -/
def new_function (s : System) : Option Nat → Except Fault System
  | none => .ok s
  | some a =>
    if s.references a = 0 then .ok { s with references := update s.references a 1 }
    else .error .ill_formed

def increment_function (s : System) : Option Nat → Except Fault System
  | none => .error .null
  | some a =>
    if s.references a = 0 then .error .freed
    else .ok { s with references := update s.references a (s.references a + 1) }

def free_function (s : System) (a : Nat) : Except Fault System :=
  if s.references a = 0 then .error .freed
  else .ok { s with references := update s.references a (s.references a - 1) }

/-- What is freed if the pointer is not null. -/
def free_native (s : System) : Option Nat → Except Fault System
  | none => .ok s
  | some a => s.free_function a

def add_outside (s : System) (a : Nat) : System :=
  { s with outside := update s.outside a (s.outside a + 1) }

/-- A function that is given the object, and keeps a reference that it counts:
`SSL_CTX_use_certificate`, `SSL_CTX_use_PrivateKey`. -/
def share (s : System) (p : Nat) : Except Fault System := do
  match (← s.pointer p).native_ with
  | none => .error .ill_formed
  | some a => return (← s.increment_function (some a)).add_outside a

/-- A function that keeps the reference of its caller: `SSL_CTX_add_extra_chain_cert`,
`SSL_CTX_set0_tmp_dh_pkey`. -/
def adopt (s : System) (p : Nat) : Except Fault System := do
  match (← s.pointer p).native_ with
  | none => .error .ill_formed
  | some a => return s.add_outside a

/-- An object of OpenSSL gives a reference back. -/
def drop (s : System) (a : Nat) : Except Fault System := do
  require (0 < s.outside a)
  let s ← s.free_function a
  return { s with outside := update s.outside a (s.outside a - 1) }

/-! ## The functions of the pointers -/

def construct (s : System) (p : Nat) (x : Pointer) : Except Fault System := do
  require (s.pointers p).isNone
  return s.set p (some x)

def in_place (s : System) (p : Nat) (type : NativeType) (made : Option Nat) :
    Except Fault System := do
  (← s.new_function made).construct p ⟨type, made⟩

def wrap_unique (s : System) (p : Nat) (type : NativeType) (ptr : Option Nat) :
    Except Fault System :=
  s.construct p ⟨type, ptr⟩

def reference (s : System) (p : Nat) (type : NativeType) (ptr : Option Nat) :
    Except Fault System := do
  require type.counted
  (← s.wrap_unique p type ptr).increment_function ptr

/-- `openssl_base_ptr::operator=`, which exchanges what the pointers have. -/
def move_assign (s : System) (p ptr : Nat) : Except Fault System := do
  let x ← s.pointer p
  let y ← s.pointer ptr
  require (x.type = y.type)
  if x.native_ ≠ y.native_ then
    return (s.set p (some { x with native_ := y.native_ })).set ptr
      (some { y with native_ := x.native_ })
  else return s

def move_construct (s : System) (p ptr : Nat) : Except Fault System := do
  let y ← s.pointer ptr
  (← s.construct p ⟨y.type, none⟩).move_assign p ptr

def copy_assign (s : System) (p ptr : Nat) : Except Fault System := do
  let x ← s.pointer p
  let y ← s.pointer ptr
  require (x.type = y.type && x.type.counted)
  if x.native_ ≠ y.native_ then
    let s ← s.free_native x.native_
    let s := s.set p (some { x with native_ := y.native_ })
    if y.native_.isSome then s.increment_function y.native_ else return s
  else return s

def copy_construct (s : System) (p ptr : Nat) : Except Fault System := do
  let y ← s.pointer ptr
  (← s.construct p ⟨y.type, none⟩).copy_assign p ptr

def increment (s : System) (p : Nat) : Except Fault System := do
  let x ← s.pointer p
  require x.type.counted
  s.increment_function x.native_

/-- `open` of a file or a `BIO`. What the pointer had is not freed. -/
def open_ (s : System) (p : Nat) (made : Option Nat) : Except Fault System := do
  let x ← s.pointer p
  require x.type.opens
  return (← s.new_function made).set p (some { x with native_ := made })

/-- The `BIO` of a file that is moved to it. It keeps the file, if it is made. -/
def wrap_file (s : System) (p file : Nat) (made : Option Nat) : Except Fault System := do
  let y ← s.pointer file
  require (y.type = .file)
  let s ← s.new_function made
  let s := if made.isSome then y.native_.elim s s.add_outside else s
  let s ← s.construct p ⟨.bio, made⟩
  return s.set file (some { y with native_ := none })

def destroy (s : System) (p : Nat) : Except Fault System := do
  let x ← s.pointer p
  return (← s.free_native x.native_).set p none

end System

/-! ## Programs -/

inductive Event where
  | construct (p : Nat) (type : NativeType)
  | in_place (p : Nat) (type : NativeType) (made : Option Nat)
  | wrap_unique (p : Nat) (type : NativeType) (ptr : Option Nat)
  | reference (p : Nat) (type : NativeType) (ptr : Option Nat)
  | copy_construct (p ptr : Nat)
  | copy_assign (p ptr : Nat)
  | move_construct (p ptr : Nat)
  | move_assign (p ptr : Nat)
  | increment (p : Nat)
  | open_ (p : Nat) (made : Option Nat)
  | wrap_file (p file : Nat) (made : Option Nat)
  | destroy (p : Nat)
  /-- OpenSSL makes an object, and gives its reference to the program. -/
  | give (a : Nat)
  /-- OpenSSL gives one more reference to the program: `SSL_get_peer_certificate`. -/
  | get (a : Nat)
  /-- OpenSSL makes an object that it keeps. -/
  | make (a : Nat)
  | share (p : Nat)
  | adopt (p : Nat)
  | drop (a : Nat)
  deriving DecidableEq, Repr

namespace System

def step (s : System) : Event → Except Fault System
  | .construct p type => s.construct p ⟨type, none⟩
  | .in_place p type made => s.in_place p type made
  | .wrap_unique p type ptr => s.wrap_unique p type ptr
  | .reference p type ptr => s.reference p type ptr
  | .copy_construct p ptr => s.copy_construct p ptr
  | .copy_assign p ptr => s.copy_assign p ptr
  | .move_construct p ptr => s.move_construct p ptr
  | .move_assign p ptr => s.move_assign p ptr
  | .increment p => s.increment p
  | .open_ p made => s.open_ p made
  | .wrap_file p file made => s.wrap_file p file made
  | .destroy p => s.destroy p
  | .give a => s.new_function (some a)
  | .get a => s.increment_function (some a)
  | .make a => (s.new_function (some a)).map fun s => s.add_outside a
  | .share p => s.share p
  | .adopt p => s.adopt p
  | .drop a => s.drop a

def run (s : System) (es : List Event) : Except Fault System := es.foldlM step s

end System

end openssl.ptrs
