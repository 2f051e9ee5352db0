-- The Client Hello of TLS: its vectors, its extensions, and their encoding.
-- Nothing here is about the proxy.
import Aether.Lib.BigEndian

open lib.big_endian

namespace lib.tls

/-! ## Vectors -/

/-- A vector of opaque bytes, with a length of `k` bytes. -/
def vector (k : Nat) (bs : List UInt8) : List UInt8 := bigEndian k bs.length ++ bs

@[simp] theorem length_vector (k : Nat) (bs : List UInt8) :
    (vector k bs).length = k + bs.length := by
  simp [vector]

/-- Numbers of `k` bytes that come first are told from what follows. -/
theorem bigEndian_append_inj {k v v' : Nat} {bs bs' : List UInt8} (h : v < 256 ^ k)
    (h' : v' < 256 ^ k) (heq : bigEndian k v ++ bs = bigEndian k v' ++ bs') :
    v = v' ∧ bs = bs' := by
  obtain ⟨hv, hbs⟩ := List.append_inj heq (by simp)
  refine ⟨?_, hbs⟩
  rw [← ofBigEndian_bigEndian h, hv, ofBigEndian_bigEndian h']

/-- And so are vectors. -/
theorem vector_append_inj {k : Nat} {bs bs' rest rest' : List UInt8} (h : bs.length < 256 ^ k)
    (h' : bs'.length < 256 ^ k) (heq : vector k bs ++ rest = vector k bs' ++ rest') :
    bs = bs' ∧ rest = rest' := by
  unfold vector at heq
  rw [List.append_assoc, List.append_assoc] at heq
  obtain ⟨hlength, heq⟩ := bigEndian_append_inj h h' heq
  exact List.append_inj heq hlength

theorem vector_one_ne_nil (bs : List UInt8) : vector 1 bs ≠ [] := by
  intro h
  have hlength := congrArg List.length h
  rw [length_vector, List.length_nil] at hlength
  omega

/-- Items of which none is empty and each tells its own end make up the same bytes only when they
are the same. -/
theorem flatMap_inj {α β : Type} {bytes : α → List β} {V : α → Prop}
    (hne : ∀ x, bytes x ≠ [])
    (hinj : ∀ x y rest rest', V x → V y → bytes x ++ rest = bytes y ++ rest' →
      x = y ∧ rest = rest')
    {xs ys : List α} (hxs : ∀ x ∈ xs, V x) (hys : ∀ y ∈ ys, V y)
    (h : xs.flatMap bytes = ys.flatMap bytes) : xs = ys := by
  induction xs generalizing ys with
  | nil =>
    cases ys with
    | nil => rfl
    | cons y ys => exact absurd (List.append_eq_nil_iff.mp h.symm).1 (hne y)
  | cons x xs ih =>
    cases ys with
    | nil => exact absurd (List.append_eq_nil_iff.mp h).1 (hne x)
    | cons y ys =>
      obtain ⟨hx, hxs'⟩ := List.forall_mem_cons.mp hxs
      obtain ⟨hy, hys'⟩ := List.forall_mem_cons.mp hys
      obtain ⟨hxy, hrest⟩ := hinj x y _ _ hx hy h
      rw [hxy, ih hxs' hys' hrest]

/-! ## The message -/

structure ServerName where
  name_type : UInt8
  name : List UInt8
  deriving DecidableEq, Repr

def ServerName.encode (n : ServerName) : List UInt8 := n.name_type :: vector 2 n.name

/-- The extensions that have a form of their own, and all others. -/
inductive HelloExtension where
  | server_name (names : List ServerName)
  | alpn (protocols : List (List UInt8))
  | other (type : Nat) (data : List UInt8)
  deriving DecidableEq, Repr

namespace HelloExtension

def type : HelloExtension → Nat
  | server_name _ => 0
  | alpn _ => 16
  | other type _ => type

def data : HelloExtension → List UInt8
  | server_name names => vector 2 (names.flatMap ServerName.encode)
  | alpn protocols => vector 2 (protocols.flatMap (vector 1))
  | other _ data => data

def encode (e : HelloExtension) : List UInt8 := bigEndian 2 e.type ++ vector 2 e.data

/-- The lengths are those that the vectors may have. A list of server names may have any number of
them. -/
def WellFormed : HelloExtension → Prop
  | e@(server_name names) => e.data.length < 65536 ∧ ∀ n ∈ names, n.name ≠ []
  | e@(alpn protocols) => e.data.length < 65536 ∧ protocols ≠ [] ∧
      ∀ p ∈ protocols, p ≠ [] ∧ p.length < 256
  | e@(other type _) => e.data.length < 65536 ∧ type < 65536 ∧ type ≠ 0 ∧ type ≠ 16

theorem WellFormed.length {e : HelloExtension} (h : e.WellFormed) : e.data.length < 65536 := by
  cases e with
  | server_name names => exact h.1
  | alpn protocols => exact h.1
  | other type data => exact h.1

theorem WellFormed.type_lt {e : HelloExtension} (h : e.WellFormed) : e.type < 65536 := by
  cases e with
  | server_name names => exact (by decide : 0 < 65536)
  | alpn protocols => exact (by decide : 16 < 65536)
  | other type data => exact h.2.1

end HelloExtension

/-- A Client Hello. The block of extensions may be missing. -/
structure ClientHello where
  version : List UInt8
  random : List UInt8
  session_id : List UInt8
  cipher_suites : List Nat
  compression_methods : List UInt8
  extensions : Option (List HelloExtension)
  deriving DecidableEq, Repr

namespace ClientHello

/-- The block of the extensions, with its length. -/
def block (m : ClientHello) : List UInt8 :=
  match m.extensions with
  | none => []
  | some es => vector 2 (es.flatMap HelloExtension.encode)

def body (m : ClientHello) : List UInt8 :=
  m.version ++ (m.random ++ (vector 1 m.session_id ++
    (vector 2 (m.cipher_suites.flatMap (bigEndian 2)) ++
      (vector 1 m.compression_methods ++ m.block))))

/-- The handshake message: its type, and a body with its length. -/
def encode (m : ClientHello) : List UInt8 := 1 :: vector 3 m.body

/-- A message with the lengths that its vectors may have, and with extensions of distinct types. -/
structure WellFormed (m : ClientHello) : Prop where
  version : m.version.length = 2
  random : m.random.length = 32
  session_id : m.session_id.length ≤ 32
  cipher_suites : m.cipher_suites ≠ [] ∧ 2 * m.cipher_suites.length < 65536
  suites : ∀ s ∈ m.cipher_suites, s < 65536
  compression_methods : m.compression_methods ≠ [] ∧ m.compression_methods.length < 256
  extensions : ∀ es, m.extensions = some es → (∀ e ∈ es, e.WellFormed) ∧
    (es.map HelloExtension.type).Nodup ∧ (es.flatMap HelloExtension.encode).length < 65536

theorem length_suites (suites : List Nat) :
    (suites.flatMap (bigEndian 2)).length = 2 * suites.length := by
  induction suites with
  | nil => rfl
  | cons s suites ih =>
    rw [List.flatMap_cons, List.length_append, ih, length_bigEndian, List.length_cons]
    omega

/-- The body of a well-formed message has a length that fits. -/
theorem WellFormed.body_lt {m : ClientHello} (h : m.WellFormed) : m.body.length < 256 ^ 3 := by
  have hblock : m.block.length < 65538 := by
    unfold block
    cases hes : m.extensions with
    | none => simp
    | some es =>
      have hlength := (h.extensions es hes).2.2
      rw [length_vector]
      omega
  have hversion := h.version
  have hrandom := h.random
  have hsession := h.session_id
  have hsuites := h.cipher_suites.2
  have hmethods := h.compression_methods.2
  unfold body
  simp only [List.length_append, length_vector, length_suites]
  omega

end ClientHello

end lib.tls
