-- UUIDs as RFC 4122 has them: the string of sixteen octets, its order, and the octets that
-- are made of a hash. Nothing here is about the proxy.
import Aether.Lib.Comparisons
import Aether.Lib.Numerals

open lib.big_endian lib.comparisons lib.numerals

namespace lib.rfc4122

def hexDigit (d : Nat) : UInt8 := UInt8.ofNat (if d < 10 then 48 + d else 87 + d)

def nibbles (b : UInt8) : List Nat := [b.toNat / 16, b.toNat % 16]

/-- An octet as `hexOctet`, two digits. -/
def hexOctet (b : UInt8) : List UInt8 := (nibbles b).map hexDigit

def hexOctets (octets : List UInt8) : List UInt8 := octets.flatMap hexOctet

/-- The string representation of section 3. -/
def string (octets : List UInt8) : List UInt8 :=
  hexOctets (octets.take 4) ++ 45 :: (hexOctets ((octets.drop 4).take 2) ++
    45 :: (hexOctets ((octets.drop 6).take 2) ++ 45 :: (hexOctets ((octets.drop 8).take 2) ++
      45 :: hexOctets (octets.drop 10))))

/-- The octets of section 4.3 with these of a hash: the version has the four high bits of octet 6,
and the variant the two high bits of octet 8. -/
def stamped (version : UInt8) (hash : List UInt8) : List UInt8 :=
  (hash.modify 6 fun b => version <<< 4 ||| b &&& 0x0F).modify 8 fun b => 0x80 ||| b &&& 0x3F

/-! ## The order of the strings -/

theorem hexOctets_eq (octets : List UInt8) :
    hexOctets octets = (octets.flatMap nibbles).map hexDigit := by
  rw [hexOctets, List.map_flatMap]
  rfl

@[simp] theorem length_nibbles (octets : List UInt8) :
    (octets.flatMap nibbles).length = 2 * octets.length := by
  induction octets with
  | nil => rfl
  | cons b octets ih =>
    rw [List.flatMap_cons, List.length_append, ih, List.length_cons, Nat.mul_succ, Nat.add_comm]
    rfl

@[simp] theorem length_hexOctets (octets : List UInt8) :
    (hexOctets octets).length = 2 * octets.length := by
  rw [hexOctets_eq, List.length_map, length_nibbles]

theorem compare_hexDigit {d e : Nat} (hd : d < 16) (he : e < 16) :
    compare (hexDigit d) (hexDigit e) = compare d e := by
  have hall : ∀ d : Fin 16, ∀ e : Fin 16,
      compare (hexDigit d) (hexDigit e) = compare d.val e.val := by decide
  exact hall ⟨d, hd⟩ ⟨e, he⟩

theorem compare_hexOctet (b c : UInt8) : compare (hexOctet b) (hexOctet c) = compare b c := by
  have hb : b.toNat / 16 < 16 := Nat.div_lt_of_lt_mul b.toNat_lt
  have hc : c.toNat / 16 < 16 := Nat.div_lt_of_lt_mul c.toNat_lt
  have hb' : b.toNat % 16 < 16 := Nat.mod_lt _ (by decide)
  have hc' : c.toNat % 16 < 16 := Nat.mod_lt _ (by decide)
  have hnumber := compare_mul_add (m := b.toNat / 16) (n := c.toNat / 16) hb' hc'
  rw [Nat.div_add_mod, Nat.div_add_mod, compare_toNat] at hnumber
  simp only [hexOctet, nibbles, List.map_cons, List.map_nil, List.compare_cons_cons,
    List.compare_nil_nil, Ordering.then_eq, compare_hexDigit hb hc, compare_hexDigit hb' hc']
  exact hnumber.symm

theorem compare_hexOctets {a b : List UInt8} (h : a.length = b.length) :
    compare (hexOctets a) (hexOctets b) = compare a b :=
  compare_flatMap h (fun _ _ _ _ => rfl) fun b _ c _ => compare_hexOctet b c

/-- A part of the string with what comes after its hyphen. -/
theorem compare_part {a b s t : List UInt8} (h : a.length = b.length) :
    compare (hexOctets a ++ 45 :: s) (hexOctets b ++ 45 :: t) =
      (compare a b).then (compare s t) := by
  rw [compare_append (by simp [h]), compare_hexOctets h, List.compare_cons_cons]
  rfl

/-- A list of octets is compared by its parts. -/
theorem compare_split (n : Nat) {a b : List UInt8} (h : a.length = b.length) : compare a b =
    (compare (a.take n) (b.take n)).then (compare (a.drop n) (b.drop n)) := by
  conv => lhs; rw [← List.take_append_drop n a, ← List.take_append_drop n b]
  exact compare_append (by simp [h])

/-- The strings are in the order of the octets. -/
theorem compare_string {a b : List UInt8} (h : a.length = b.length) :
    compare (string a) (string b) = compare a b := by
  have hdrop (n : Nat) : (a.drop n).length = (b.drop n).length := by simp [h]
  rw [string, string, compare_part (by simp [h]), compare_part (by simp [h]),
    compare_part (by simp [h]), compare_part (by simp [h]), compare_hexOctets (hdrop 10),
    compare_split 4 h, compare_split 2 (hdrop 4), List.drop_drop, List.drop_drop,
    compare_split 2 (hdrop 6), List.drop_drop, List.drop_drop, compare_split 2 (hdrop 8),
    List.drop_drop, List.drop_drop]

theorem string_inj {a b : List UInt8} (h : a.length = b.length) : string a = string b ↔ a = b := by
  rw [← Std.compare_eq_iff_eq (a := string a), compare_string h, Std.compare_eq_iff_eq]

/-! ## Numbers in the strings -/

theorem nibbles_lt {octets : List UInt8} {d : Nat} (h : d ∈ octets.flatMap nibbles) : d < 16 := by
  obtain ⟨b, -, hd⟩ := List.mem_flatMap.mp h
  have hb := b.toNat_lt
  rw [nibbles, List.mem_cons, List.mem_singleton] at hd
  omega

theorem value_nibbles (octets : List UInt8) :
    value 16 (octets.flatMap nibbles) = ofBigEndian octets := by
  induction octets using List.reverseRecOn with
  | nil => rfl
  | append_singleton octets b ih =>
    have hbyte : 16 * (b.toNat / 16) + b.toNat % 16 = b.toNat := Nat.div_add_mod _ _
    have hlast : ofBigEndian (octets ++ [b]) = ofBigEndian octets * 256 + b.toNat := by
      simp [ofBigEndian, List.foldl_append]
    rw [List.flatMap_append, List.flatMap_singleton, nibbles, List.append_cons,
      value_append_singleton, value_append_singleton, ih, hlast]
    omega

/-- A number that is written with zeros in front, two characters for each of its octets. -/
theorem hexOctets_bigEndian {n v : Nat} (hn : 0 < n) (hv : v < 256 ^ n) :
    hexOctets (bigEndian n v) =
      List.replicate (2 * n - ((numeral 16 v).map hexDigit).length) 48 ++
        (numeral 16 v).map hexDigit := by
  have hlength : ((bigEndian n v).flatMap nibbles).length = 2 * n := by
    rw [length_nibbles, length_bigEndian]
  have hdigits := zeros_numeral (b := 16) (by decide)
    (List.ne_nil_of_length_pos (by omega : 0 < ((bigEndian n v).flatMap nibbles).length))
    (fun d hd => nibbles_lt hd)
  rw [value_nibbles, ofBigEndian_bigEndian hv, hlength] at hdigits
  rw [hexOctets_eq, ← hdigits, List.map_append, List.map_replicate, List.length_map]
  rfl

end lib.rfc4122
