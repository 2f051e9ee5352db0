-- The headers of RFC 6455 as their bytes stand on the wire, legal or not, and
-- the rules of sections 5.2 to 5.5 for them. Nothing here is about the proxy.
import Aether.Lib.Rfc6455

open lib.big_endian

namespace lib.rfc6455

/-- The bytes of a header: the first two, those of a longer length, and those of a masking key. -/
structure Head where
  b0 : UInt8
  b1 : UInt8
  extended : List UInt8
  key : List UInt8
  deriving DecidableEq, Repr

/-- How many bytes a 7-bit length calls for after the first two. -/
def extendedSize (length7 : Nat) : Nat :=
  if length7 = 126 then 2 else if length7 = 127 then 8 else 0

namespace Head

def fin (h : Head) : Bool := decide (128 ≤ h.b0.toNat)

def rsv1 (h : Head) : Bool := decide (h.b0.toNat / 64 % 2 = 1)

def rsv2 (h : Head) : Bool := decide (h.b0.toNat / 32 % 2 = 1)

def rsv3 (h : Head) : Bool := decide (h.b0.toNat / 16 % 2 = 1)

def opcode (h : Head) : Fin 16 := ⟨h.b0.toNat % 16, Nat.mod_lt _ (by decide)⟩

def isControl (h : Head) : Bool := decide (8 ≤ h.opcode.val)

def masked (h : Head) : Bool := decide (128 ≤ h.b1.toNat)

def length7 (h : Head) : Nat := h.b1.toNat % 128

def bytes (h : Head) : List UInt8 := h.b0 :: h.b1 :: (h.extended ++ h.key)

/-- The key that the payload is masked with. -/
def maskKey (h : Head) : Option MaskKey :=
  match h.key with
  | [k0, k1, k2, k3] => some ⟨k0, k1, k2, k3⟩
  | _ => none

/-- There are as many bytes as the first two call for. -/
structure Shaped (h : Head) : Prop where
  extended : h.extended.length = extendedSize h.length7
  key : h.key.length = if h.masked then 4 else 0

theorem Shaped.maskKey_none {h : Head} (hs : h.Shaped) (hm : h.masked = false) :
    h.key = [] ∧ h.maskKey = none := by
  have hk := hs.key
  rw [hm] at hk
  have hnil : h.key = [] := List.length_eq_zero_iff.mp hk
  exact ⟨hnil, by rw [maskKey, hnil]⟩

theorem Shaped.maskKey_some {h : Head} (hs : h.Shaped) (hm : h.masked = true) :
    ∃ k : MaskKey, h.key = k.toList ∧ h.maskKey = some k := by
  have hk := hs.key
  rw [hm] at hk
  match hkey : h.key, hk with
  | [k0, k1, k2, k3], _ => exact ⟨⟨k0, k1, k2, k3⟩, rfl, by rw [maskKey, hkey]⟩

/-- A header that is legal where it stands: towards a server or a client, and inside of a fragmented
message or outside of one. -/
structure Legal (toServer inMessage : Bool) (h : Head) : Prop where
  opcode : h.opcode.val ∈ [0, 1, 2, 8, 9, 10]
  reserved : h.rsv1 = false ∧ h.rsv2 = false ∧ h.rsv3 = false
  control : h.isControl = true → h.fin = true ∧ h.length7 ≤ 125
  minimal : (h.length7 = 126 → 125 < ofBigEndian h.extended) ∧
    (h.length7 = 127 → 65535 < ofBigEndian h.extended)
  msb : h.length7 = 127 → ofBigEndian h.extended < 2 ^ 63
  masked : h.masked = toServer
  continuation : h.opcode = 0 → inMessage = true
  first : h.opcode = 1 ∨ h.opcode = 2 → inMessage = false

/-- Whether a fragmented message is in progress after the frame of a header. -/
def inMessageAfter (inMessage : Bool) (h : Head) : Bool :=
  if h.isControl then inMessage else !h.fin

end Head

/-! ## The header of a frame that is encoded -/

def Frame.head (f : Frame) : Head where
  b0 := firstByte f
  b1 := UInt8.ofNat (f.maskKey.isSome.toNat * 128 + (lengthField f.payload.length).1)
  extended := (lengthField f.payload.length).2
  key := (f.maskKey.map MaskKey.toList).getD []

namespace Frame

variable (f : Frame)

theorem encode_eq_head : encode f = f.head.bytes ++ wirePayload f := by
  simp [encode, header, Head.bytes, head]

theorem toNat_head_b1 :
    f.head.b1.toNat = f.maskKey.isSome.toNat * 128 + (lengthField f.payload.length).1 := by
  have hlen := lengthField_le f.payload.length
  have hkey := f.maskKey.isSome.toNat_le
  rw [head, UInt8.toNat_ofNat', Nat.mod_eq_of_lt (by omega)]

@[simp] theorem head_masked : f.head.masked = f.maskKey.isSome := by
  have hlen := lengthField_le f.payload.length
  rw [Head.masked, toNat_head_b1]
  cases f.maskKey.isSome
  · simp; omega
  · simp

@[simp] theorem head_length7 : f.head.length7 = (lengthField f.payload.length).1 := by
  have hlen := lengthField_le f.payload.length
  rw [Head.length7, toNat_head_b1]
  omega

@[simp] theorem head_extended : f.head.extended = (lengthField f.payload.length).2 := rfl

@[simp] theorem head_fin : f.head.fin = f.fin := by
  have h1 := f.rsv1.toNat_le
  have h2 := f.rsv2.toNat_le
  have h3 := f.rsv3.toNat_le
  have h4 := f.opcode.isLt
  rw [Head.fin, head, toNat_firstByte]
  cases f.fin
  · simp; omega
  · simp; omega

@[simp] theorem head_rsv1 : f.head.rsv1 = f.rsv1 := by
  have h2 := f.rsv2.toNat_le
  have h3 := f.rsv3.toNat_le
  have h4 := f.opcode.isLt
  have h1 := f.rsv1.toNat_le
  rw [Head.rsv1, head, toNat_firstByte]
  exact decide_bit f.rsv1 _ (by omega)

@[simp] theorem head_rsv2 : f.head.rsv2 = f.rsv2 := by
  have h2 := f.rsv2.toNat_le
  have h3 := f.rsv3.toNat_le
  have h4 := f.opcode.isLt
  rw [Head.rsv2, head, toNat_firstByte]
  exact decide_bit f.rsv2 _ (by omega)

@[simp] theorem head_rsv3 : f.head.rsv3 = f.rsv3 := by
  have h3 := f.rsv3.toNat_le
  have h4 := f.opcode.isLt
  rw [Head.rsv3, head, toNat_firstByte]
  exact decide_bit f.rsv3 _ (by omega)

@[simp] theorem head_opcode : f.head.opcode = f.opcode := by
  have h4 := f.opcode.isLt
  apply Fin.ext
  simp only [Head.opcode, head, toNat_firstByte]
  omega

@[simp] theorem head_isControl : f.head.isControl = f.isControl := by
  rw [Head.isControl, head_opcode, Frame.isControl]

@[simp] theorem head_maskKey : f.head.maskKey = f.maskKey := by
  unfold Head.maskKey head
  cases f.maskKey <;> rfl

theorem shaped_head : f.head.Shaped := by
  constructor
  · rw [head_length7, head_extended]
    unfold lengthField extendedSize
    split_ifs <;> simp_all
  · rw [head_masked]
    unfold head
    cases f.maskKey <;> rfl

end Frame

/-- A header whose first two bytes are known takes as many bytes as any other with these two. -/
theorem Head.bytes_append_inj {h g : Head} {xs ys : List UInt8} (hs : h.Shaped) (gs : g.Shaped)
    (heq : h.bytes ++ xs = g.bytes ++ ys) : h = g ∧ xs = ys := by
  simp only [bytes, List.cons_append, List.cons.injEq, List.append_assoc] at heq
  obtain ⟨h0, h1, hrest⟩ := heq
  have hmasked : h.masked = g.masked := by rw [masked, masked, h1]
  have hlength7 : h.length7 = g.length7 := by rw [length7, length7, h1]
  have hextended : h.extended.length = g.extended.length := by
    rw [hs.extended, gs.extended, hlength7]
  have hkey : h.key.length = g.key.length := by rw [hs.key, gs.key, hmasked]
  obtain ⟨hext, hrest⟩ := List.append_inj hrest hextended
  obtain ⟨hk, hpayload⟩ := List.append_inj hrest hkey
  cases h
  cases g
  simp only at h0 h1 hext hk
  subst h0 h1 hext hk
  exact ⟨rfl, hpayload⟩

/-- A frame is known by its bytes. -/
theorem encode_injective {f g : Frame} (h : encode f = encode g) : f = g := by
  rw [f.encode_eq_head, g.encode_eq_head] at h
  obtain ⟨hhead, hwire⟩ := Head.bytes_append_inj f.shaped_head g.shaped_head h
  have hkey : f.maskKey = g.maskKey := by rw [← f.head_maskKey, ← g.head_maskKey, hhead]
  have hpayload : f.payload = g.payload := by
    rw [← unmask_wirePayload f, ← unmask_wirePayload g, hwire, hkey]
  have hfin : f.fin = g.fin := by rw [← f.head_fin, ← g.head_fin, hhead]
  have hrsv1 : f.rsv1 = g.rsv1 := by rw [← f.head_rsv1, ← g.head_rsv1, hhead]
  have hrsv2 : f.rsv2 = g.rsv2 := by rw [← f.head_rsv2, ← g.head_rsv2, hhead]
  have hrsv3 : f.rsv3 = g.rsv3 := by rw [← f.head_rsv3, ← g.head_rsv3, hhead]
  have hopcode : f.opcode = g.opcode := by rw [← f.head_opcode, ← g.head_opcode, hhead]
  cases f
  cases g
  simp only at hkey hpayload hfin hrsv1 hrsv2 hrsv3 hopcode
  subst hkey hpayload hfin hrsv1 hrsv2 hrsv3 hopcode
  rfl

end lib.rfc6455
