-- The strings of UUIDs and their order, `util/uuid.cpp`, and the UUIDs that are made of names
-- and of random bytes.
--
-- The digests are functions, and that one fails is left out. Numbers are in memory with the least
-- significant byte first.
import Mathlib.Tactic.IntervalCases
import Aether.Lib.Rfc4122
import Aether.Util.Text
import Aether.Util.UuidUniqueness

open lib.big_endian lib.comparisons lib.numerals lib.rfc4122 util.string

namespace util

/-- `out << std::hex << std::setfill('0') << std::setw(width) << n`. -/
def setw (width n : Nat) : Text :=
  List.replicate (width - (hexadecimal n).length) 48 ++ hexadecimal n

def hyphen : UInt8 := 45

namespace Uuid

def to_string (u : Uuid) : Text :=
  setw 8 u.time_low ++ hyphen :: (setw 4 u.time_mid ++ hyphen :: (setw 4 u.time_hi_and_version ++
    hyphen :: (setw 2 u.clock_seq_hi_and_reserved ++ setw 2 u.clock_seq_low ++
      hyphen :: u.node.toList.flatMap fun b => setw 2 b.toNat)))

/-- The loop of the comparison. -/
def compare_nodes : List UInt8 → List UInt8 → Ordering
  | b :: node, b' :: node' =>
    let ret := Ord.compare b b'
    if ret ≠ .eq then ret else compare_nodes node node'
  | _, _ => .eq

/-- `operator<=>`. -/
def compare (u v : Uuid) : Ordering :=
  let ret := (Ord.compare u.time_low v.time_low).then <|
    (Ord.compare u.time_mid v.time_mid).then <|
    (Ord.compare u.time_hi_and_version v.time_hi_and_version).then <|
    (Ord.compare u.clock_seq_hi_and_reserved v.clock_seq_hi_and_reserved).then <|
    Ord.compare u.clock_seq_low v.clock_seq_low
  if ret ≠ .eq then ret else compare_nodes u.node.toList v.node.toList

/-- The memory of the UUID whose numbers are in network byte order. -/
def net_bytes (u : Uuid) : List UInt8 :=
  bigEndian 4 u.time_low ++ (bigEndian 2 u.time_mid ++ (bigEndian 2 u.time_hi_and_version ++
    (UInt8.ofNat u.clock_seq_hi_and_reserved :: UInt8.ofNat u.clock_seq_low :: u.node.toList)))

/-- The numbers are those of the types that they have. -/
structure Fits (u : Uuid) : Prop where
  time_low : u.time_low < 2 ^ 32
  time_mid : u.time_mid < 2 ^ 16
  time_hi_and_version : u.time_hi_and_version < 2 ^ 16
  clock_seq_hi_and_reserved : u.clock_seq_hi_and_reserved < 2 ^ 8
  clock_seq_low : u.clock_seq_low < 2 ^ 8

end Uuid

namespace uuid_ns

def dns : Uuid := ⟨0x6ba7b810, 0x9dad, 0x11d1, 0x80, 0xb4, #v[0x00, 0xc0, 0x4f, 0xd4, 0x30, 0xc8]⟩

def url : Uuid := { dns with time_low := 0x6ba7b811 }

theorem dns_fits : dns.Fits := ⟨by decide, by decide, by decide, by decide, by decide⟩

theorem url_fits : url.Fits := ⟨by decide, by decide, by decide, by decide, by decide⟩

end uuid_ns

namespace UuidFactory

abbrev RawUuid := Vector UInt8 16

def put_bits (uuid : Uuid) (version : UInt8) : Uuid :=
  { uuid with
    time_hi_and_version :=
      ((uuid.time_hi_and_version &&& 0x0FFF) ||| version.toNat <<< 12) % 2 ^ 16
    clock_seq_hi_and_reserved := (uuid.clock_seq_hi_and_reserved &&& 0x3F) ||| 0x80 }

def format_uuid_v3or5 (hash : RawUuid) (version : UInt8) : Uuid :=
  put_bits
    { time_low := ofBigEndian [hash[0], hash[1], hash[2], hash[3]]
      time_mid := ofBigEndian [hash[4], hash[5]]
      time_hi_and_version := ofBigEndian [hash[6], hash[7]]
      clock_seq_hi_and_reserved := hash[8].toNat
      clock_seq_low := hash[9].toNat
      node := hash.drop 10 } version

def create_md5_from_name (md5 : List UInt8 → Vector UInt8 16) (namespace_id : Uuid)
    (name : Text) : Uuid :=
  format_uuid_v3or5 (md5 (namespace_id.net_bytes ++ name)) 3

/-- We only use 16 bytes of the 20-byte hash. -/
def create_sha1_from_name (sha1 : List UInt8 → Vector UInt8 20) (namespace_id : Uuid)
    (name : Text) : Uuid :=
  format_uuid_v3or5 ((sha1 (namespace_id.net_bytes ++ name)).take 16) 5

def create_random (bytes : RawUuid) : Uuid :=
  put_bits
    { time_low := ofBigEndian [bytes[3], bytes[2], bytes[1], bytes[0]]
      time_mid := ofBigEndian [bytes[5], bytes[4]]
      time_hi_and_version := ofBigEndian [bytes[7], bytes[6]]
      clock_seq_hi_and_reserved := bytes[8].toNat
      clock_seq_low := bytes[9].toNat
      node := bytes.drop 10 } 4

end UuidFactory

/-! ## The strings -/

namespace Uuid

variable {u v : Uuid}

@[simp] theorem length_net_bytes (u : Uuid) : u.net_bytes.length = 16 := by
  simp [net_bytes]

theorem setw_eq {n k : Nat} (hk : 0 < k) (hn : n < 256 ^ k) :
    setw (2 * k) n = hexOctets (bigEndian k n) :=
  (hexOctets_bigEndian hk hn).symm

theorem setw_octet (b : UInt8) : setw 2 b.toNat = hexOctet b := by
  have hoctet := setw_eq (n := b.toNat) (k := 1) (by decide) b.toNat_lt
  rw [hoctet, bigEndian, bigEndian, Nat.pow_zero, Nat.div_one, UInt8.ofNat_toNat]
  exact List.flatMap_singleton hexOctet b

theorem setw_of_lt {n : Nat} (h : n < 2 ^ 8) : setw 2 n = hexOctet (UInt8.ofNat n) := by
  have hn : (UInt8.ofNat n).toNat = n := by
    rw [UInt8.toNat_ofNat', Nat.mod_eq_of_lt h]
  rw [← setw_octet, hn]

/-- The string of a UUID is the one of its octets. -/
theorem to_string_eq (h : u.Fits) : u.to_string = string u.net_bytes := by
  have hlow : setw 8 u.time_low = hexOctets (bigEndian 4 u.time_low) :=
    setw_eq (k := 4) (by decide) h.time_low
  have hmid : setw 4 u.time_mid = hexOctets (bigEndian 2 u.time_mid) :=
    setw_eq (k := 2) (by decide) h.time_mid
  have hhigh : setw 4 u.time_hi_and_version = hexOctets (bigEndian 2 u.time_hi_and_version) :=
    setw_eq (k := 2) (by decide) h.time_hi_and_version
  have hnode : (fun b : UInt8 => setw 2 b.toNat) = hexOctet := funext setw_octet
  rw [to_string, hlow, hmid, hhigh, setw_of_lt h.clock_seq_hi_and_reserved,
    setw_of_lt h.clock_seq_low, hnode]
  rfl

theorem ret_then (ret rest : Ordering) : (if ret ≠ .eq then ret else rest) = ret.then rest := by
  cases ret <;> rfl

theorem compare_nodes_eq {a b : List UInt8} (h : a.length = b.length) :
    compare_nodes a b = Ord.compare a b := by
  induction a generalizing b with
  | nil =>
    rw [List.length_nil, eq_comm, List.length_eq_zero_iff] at h
    subst h
    rfl
  | cons x a ih =>
    cases b with
    | nil => cases h
    | cons y b =>
      rw [compare_nodes, ih (Nat.succ_inj.mp h), List.compare_cons_cons, ret_then]

theorem compare_eq (hu : u.Fits) (hv : v.Fits) :
    u.compare v = Ord.compare u.net_bytes v.net_bytes := by
  have hoctet {m n : Nat} (hm : m < 2 ^ 8) (hn : n < 2 ^ 8) :
      Ord.compare (UInt8.ofNat m) (UInt8.ofNat n) = Ord.compare m n := by
    rw [← compare_toNat, UInt8.toNat_ofNat', UInt8.toNat_ofNat', Nat.mod_eq_of_lt hm,
      Nat.mod_eq_of_lt hn]
  rw [compare, ret_then, compare_nodes_eq (by simp), net_bytes, net_bytes, compare_append (by simp),
    compare_append (by simp), compare_append (by simp), compare_bigEndian hu.time_low hv.time_low,
    compare_bigEndian hu.time_mid hv.time_mid,
    compare_bigEndian hu.time_hi_and_version hv.time_hi_and_version, List.compare_cons_cons,
    List.compare_cons_cons, hoctet hu.clock_seq_hi_and_reserved hv.clock_seq_hi_and_reserved,
    hoctet hu.clock_seq_low hv.clock_seq_low]
  simp only [Ordering.then_assoc]

theorem compare_eq_eq : u.compare v = .eq ↔ u = v := by
  constructor
  · intro h
    rw [compare, ret_then, compare_nodes_eq (by simp)] at h
    simp only [Ordering.then_eq_eq, Std.compare_eq_iff_eq, Vector.toList_inj] at h
    obtain ⟨⟨hlow, hmid, hhigh, hseq, hseq'⟩, hnode⟩ := h
    exact Uuid.mk.injEq .. |>.mpr ⟨hlow, hmid, hhigh, hseq, hseq', hnode⟩
  · rintro rfl
    rw [compare, ret_then, compare_nodes_eq rfl]
    simp

/-- UUIDs are in the order of their strings, and two of them are the same just when their strings
are. -/
theorem uuids_are_ordered_as_strings (u v : Uuid) (hu : u.Fits) (hv : v.Fits) :
    u.compare v = Ord.compare u.to_string v.to_string ∧ (u.compare v = .eq ↔ u = v) := by
  refine ⟨?_, compare_eq_eq⟩
  rw [to_string_eq hu, to_string_eq hv, compare_string (by simp), compare_eq hu hv]

theorem name_spaces_are_ordered_as_strings :
    uuid_ns.dns.compare uuid_ns.url =
        Ord.compare uuid_ns.dns.to_string uuid_ns.url.to_string ∧
      (uuid_ns.dns.compare uuid_ns.url = .eq ↔ uuid_ns.dns = uuid_ns.url) :=
  uuids_are_ordered_as_strings _ _ uuid_ns.dns_fits uuid_ns.url_fits

end Uuid

/-! ## Names -/

namespace UuidFactory

theorem put_version (n version : Nat) : ((n &&& 0x0FFF) ||| version <<< 12) % 2 ^ 16 =
    version % 16 * 2 ^ 12 + n % 2 ^ 12 := by
  have hlow : n &&& 0x0FFF = n % 2 ^ 12 := Nat.and_two_pow_sub_one_eq_mod n 12
  have hhigh : version <<< 12 % 2 ^ 16 = 2 ^ 12 * (version % 16) := by
    rw [Nat.shiftLeft_eq]
    omega
  have hsmall : n % 2 ^ 12 % 2 ^ 16 = n % 2 ^ 12 := by omega
  rw [hlow, Nat.or_mod_two_pow, hhigh, hsmall, Nat.or_comm,
    ← Nat.two_pow_add_eq_or_of_lt (Nat.mod_lt n (Nat.two_pow_pos 12)), Nat.mul_comm]

theorem put_variant (n : Nat) : (n &&& 0x3F) ||| 0x80 = 2 ^ 7 + n % 2 ^ 6 := by
  have hlow : n &&& 0x3F = n % 2 ^ 6 := Nat.and_two_pow_sub_one_eq_mod n 6
  have hlt : n % 2 ^ 6 < 2 ^ 7 := by omega
  rw [hlow]
  exact or_two_pow hlt

theorem stamped_version (version b : UInt8) :
    (version <<< 4 ||| b &&& 0x0F).toNat = version.toNat % 16 * 16 + b.toNat % 16 := by
  have hlow : b.toNat &&& 15 = b.toNat % 2 ^ 4 := Nat.and_two_pow_sub_one_eq_mod _ 4
  have hhigh : version.toNat <<< 4 % 2 ^ 8 = 2 ^ 4 * (version.toNat % 16) := by
    rw [Nat.shiftLeft_eq]
    omega
  have hor := Nat.two_pow_add_eq_or_of_lt (Nat.mod_lt b.toNat (Nat.two_pow_pos 4))
    (version.toNat % 16)
  rw [UInt8.toNat_or, UInt8.toNat_and, UInt8.toNat_shiftLeft]
  show version.toNat <<< 4 % 2 ^ 8 ||| b.toNat &&& 15 = _
  rw [hlow, hhigh, ← hor, Nat.mul_comm]

theorem stamped_variant (b : UInt8) : (0x80 ||| b &&& 0x3F).toNat = 2 ^ 7 + b.toNat % 2 ^ 6 := by
  rw [← put_variant, UInt8.toNat_or, UInt8.toNat_and, Nat.or_comm]
  rfl

/-- With the bits a UUID is still one, whatever its fields were before. -/
theorem put_bits_fits {uuid : Uuid} (version : UInt8) (hlow : uuid.time_low < 2 ^ 32)
    (hmid : uuid.time_mid < 2 ^ 16) (hseq : uuid.clock_seq_low < 2 ^ 8) :
    (put_bits uuid version).Fits := by
  refine ⟨hlow, hmid, Nat.mod_lt _ (Nat.two_pow_pos 16), ?_, hseq⟩
  show (uuid.clock_seq_hi_and_reserved &&& 0x3F) ||| 0x80 < 2 ^ 8
  rw [put_variant]
  omega

theorem format_uuid_v3or5_fits (hash : RawUuid) (version : UInt8) :
    (format_uuid_v3or5 hash version).Fits := by
  have hlow : ofBigEndian [hash[0], hash[1], hash[2], hash[3]] < 2 ^ 32 :=
    Nat.lt_of_lt_of_eq (ofBigEndian_lt _) (by norm_num)
  have hmid : ofBigEndian [hash[4], hash[5]] < 2 ^ 16 :=
    Nat.lt_of_lt_of_eq (ofBigEndian_lt _) (by norm_num)
  exact put_bits_fits version hlow hmid hash[9].toNat_lt

theorem create_random_fits (bytes : RawUuid) : (create_random bytes).Fits := by
  have hlow : ofBigEndian [bytes[3], bytes[2], bytes[1], bytes[0]] < 2 ^ 32 :=
    Nat.lt_of_lt_of_eq (ofBigEndian_lt _) (by norm_num)
  have hmid : ofBigEndian [bytes[5], bytes[4]] < 2 ^ 16 :=
    Nat.lt_of_lt_of_eq (ofBigEndian_lt _) (by norm_num)
  exact put_bits_fits 4 hlow hmid bytes[9].toNat_lt

theorem toList_raw (hash : RawUuid) : hash.toList =
    [hash[0], hash[1], hash[2], hash[3], hash[4], hash[5], hash[6], hash[7], hash[8], hash[9],
      hash[10], hash[11], hash[12], hash[13], hash[14], hash[15]] := by
  refine List.ext_getElem (by simp) fun place h _ => ?_
  rw [Vector.length_toList] at h
  interval_cases place <;> rfl

/-- The octets of a UUID of a hash are those of the hash with the version and the variant. -/
theorem net_bytes_format (hash : RawUuid) (version : UInt8) :
    (format_uuid_v3or5 hash version).net_bytes = stamped version hash.toList := by
  have hversion : bigEndian 2 (((ofBigEndian [hash[6], hash[7]] &&& 0x0FFF) |||
      version.toNat <<< 12) % 2 ^ 16) = [version <<< 4 ||| hash[6] &&& 0x0F, hash[7]] := by
    have hnumber : ((ofBigEndian [hash[6], hash[7]] &&& 0x0FFF) ||| version.toNat <<< 12) %
        2 ^ 16 = ofBigEndian [version <<< 4 ||| hash[6] &&& 0x0F, hash[7]] := by
      have hlow := hash[7].toNat_lt
      rw [put_version, ofBigEndian_cons, ofBigEndian_cons, ofBigEndian_cons, ofBigEndian_nil,
        ofBigEndian_cons, ofBigEndian_nil, stamped_version]
      simp only [List.length_cons, List.length_nil]
      omega
    rw [hnumber]
    exact bigEndian_ofBigEndian [version <<< 4 ||| hash[6] &&& 0x0F, hash[7]]
  have hvariant : UInt8.ofNat ((hash[8].toNat &&& 0x3F) ||| 0x80) =
      (0x80 : UInt8) ||| hash[8] &&& 0x3F := by
    rw [put_variant, ← stamped_variant, UInt8.ofNat_toNat]
  have hlow : bigEndian 4 (ofBigEndian [hash[0], hash[1], hash[2], hash[3]]) =
      [hash[0], hash[1], hash[2], hash[3]] :=
    bigEndian_ofBigEndian [hash[0], hash[1], hash[2], hash[3]]
  have hmid : bigEndian 2 (ofBigEndian [hash[4], hash[5]]) = [hash[4], hash[5]] :=
    bigEndian_ofBigEndian [hash[4], hash[5]]
  have hnode : (hash.drop 10).toList = hash.toList.drop 10 := Vector.toList_drop
  unfold Uuid.net_bytes format_uuid_v3or5 put_bits
  rw [hversion, hvariant, hlow, hmid, hnode, UInt8.ofNat_toNat, stamped, toList_raw]
  rfl

/-- UUIDs of names are those of the RFC: the octets of the name space, as its string has them, and
those of the name are hashed, and the string of the hash with the version and the variant is the
one of the UUID. -/
theorem uuids_of_names_are_stamped_hashes (md5 : List UInt8 → Vector UInt8 16)
    (sha1 : List UInt8 → Vector UInt8 20) (namespace_id : Uuid) (name : Text)
    (octets : List UInt8) (hfits : namespace_id.Fits) (hlength : octets.length = 16)
    (hnamespace : namespace_id.to_string = string octets) :
    (create_md5_from_name md5 namespace_id name).to_string =
        string (stamped 3 (md5 (octets ++ name)).toList) ∧
      (create_sha1_from_name sha1 namespace_id name).to_string =
        string (stamped 5 ((sha1 (octets ++ name)).toList.take 16)) := by
  have hoctets : namespace_id.net_bytes = octets := by
    rw [Uuid.to_string_eq hfits, string_inj (by rw [Uuid.length_net_bytes, hlength])] at hnamespace
    exact hnamespace
  constructor
  · rw [create_md5_from_name, hoctets, Uuid.to_string_eq (format_uuid_v3or5_fits _ _),
      net_bytes_format]
  · rw [create_sha1_from_name, hoctets, Uuid.to_string_eq (format_uuid_v3or5_fits _ _),
      net_bytes_format]
    exact congrArg (fun hash => string (stamped 5 hash)) Vector.toList_take

theorem a_name_gives_a_stamped_hash :
    (create_md5_from_name (fun bytes => .replicate 16 (.ofNat bytes.length)) uuid_ns.dns
          [97]).to_string = string (stamped 3 (List.replicate 16 17)) ∧
      (create_sha1_from_name (fun bytes => .replicate 20 (.ofNat bytes.length)) uuid_ns.dns
          [97]).to_string = string (stamped 5 (List.replicate 16 17)) :=
  uuids_of_names_are_stamped_hashes _ _ uuid_ns.dns [97] [0x6b, 0xa7, 0xb8, 0x10, 0x9d, 0xad, 0x11,
    0xd1, 0x80, 0xb4, 0x00, 0xc0, 0x4f, 0xd4, 0x30, 0xc8] uuid_ns.dns_fits rfl (by decide)

/-! ## Versions -/

/-- A UUID that the factory makes, with its version. -/
inductive Created : UInt8 → Uuid → Prop
  | v1 (state : UuidState) : Created 1 (format_uuid_v1 state)
  | v3 (md5 : List UInt8 → Vector UInt8 16) (namespace_id : Uuid) (name : Text) :
    Created 3 (create_md5_from_name md5 namespace_id name)
  | v4 (bytes : RawUuid) : Created 4 (create_random bytes)
  | v5 (sha1 : List UInt8 → Vector UInt8 20) (namespace_id : Uuid) (name : Text) :
    Created 5 (create_sha1_from_name sha1 namespace_id name)

/-- The fields that show how a UUID was made. -/
structure Marked (version : UInt8) (u : Uuid) : Prop where
  fits : u.Fits
  version : u.time_hi_and_version / 2 ^ 12 = version.toNat
  variant : u.clock_seq_hi_and_reserved / 2 ^ 6 = 2

theorem put_bits_marked {uuid : Uuid} {version : UInt8} (hversion : version.toNat < 16)
    (hfits : (put_bits uuid version).Fits) : Marked version (put_bits uuid version) := by
  refine ⟨hfits, ?_, ?_⟩
  · show (((uuid.time_hi_and_version &&& 0x0FFF) ||| version.toNat <<< 12) % 2 ^ 16) / 2 ^ 12 = _
    rw [put_version]
    omega
  · show ((uuid.clock_seq_hi_and_reserved &&& 0x3F) ||| 0x80) / 2 ^ 6 = 2
    rw [put_variant]
    omega

theorem Created.marked {version : UInt8} {u : Uuid} (h : Created version u) : Marked version u := by
  cases h with
  | v1 state =>
    have hhigh : (2 ^ 12 + state.timestamp / 2 ^ 48 % 2 ^ 12) / 2 ^ 12 = 1 := by omega
    have hvariant : (2 ^ 7 + state.clock_sequence / 2 ^ 8 % 2 ^ 6) / 2 ^ 6 = 2 := by omega
    rw [format_uuid_v1_eq]
    exact ⟨⟨Nat.mod_lt _ (by decide), Nat.mod_lt _ (by decide),
      show 2 ^ 12 + state.timestamp / 2 ^ 48 % 2 ^ 12 < 2 ^ 16 by omega,
      show 2 ^ 7 + state.clock_sequence / 2 ^ 8 % 2 ^ 6 < 2 ^ 8 by omega,
      Nat.mod_lt _ (by decide)⟩, hhigh, hvariant⟩
  | v3 md5 namespace_id name => exact put_bits_marked (by decide) (format_uuid_v3or5_fits _ _)
  | v4 bytes => exact put_bits_marked (by decide) (create_random_fits bytes)
  | v5 sha1 namespace_id name => exact put_bits_marked (by decide) (format_uuid_v3or5_fits _ _)

/-- A UUID that the factory makes has a string of the RFC: of sixteen octets, with the version in
the high half of octet 6 and the variant of the RFC in the high bits of octet 8. -/
theorem made_uuids_have_their_version (version : UInt8) (u : Uuid) (h : Created version u) :
    ∃ octets : List UInt8, octets.length = 16 ∧ u.to_string = string octets ∧
      octets[6]?.map (fun b : UInt8 => b >>> 4) = some version ∧
      octets[8]?.map (fun b : UInt8 => b >>> 6) = some 2 := by
  obtain ⟨hfits, hversion, hvariant⟩ := h.marked
  refine ⟨u.net_bytes, Uuid.length_net_bytes u, Uuid.to_string_eq hfits, ?_, ?_⟩
  · have hoctet : u.net_bytes[6]? = some (UInt8.ofNat (u.time_hi_and_version / 256 ^ 1)) := rfl
    have hlt := hfits.time_hi_and_version
    have hbyte : (UInt8.ofNat (u.time_hi_and_version / 256 ^ 1) >>> 4).toNat = version.toNat := by
      rw [UInt8.toNat_shiftRight, UInt8.toNat_ofNat', Nat.shiftRight_eq_div_pow, ← hversion]
      show u.time_hi_and_version / 256 ^ 1 % 2 ^ 8 / 2 ^ 4 = _
      omega
    rw [hoctet, Option.map_some, UInt8.toNat_inj.mp hbyte]
  · have hoctet : u.net_bytes[8]? = some (UInt8.ofNat u.clock_seq_hi_and_reserved) := rfl
    have hlt := hfits.clock_seq_hi_and_reserved
    have hbyte : (UInt8.ofNat u.clock_seq_hi_and_reserved >>> 6).toNat = (2 : UInt8).toNat := by
      rw [UInt8.toNat_shiftRight, UInt8.toNat_ofNat', Nat.shiftRight_eq_div_pow]
      show u.clock_seq_hi_and_reserved % 2 ^ 8 / 2 ^ 6 = 2
      omega
    rw [hoctet, Option.map_some, UInt8.toNat_inj.mp hbyte]

theorem a_random_uuid_has_version_four :
    ∃ octets : List UInt8, octets.length = 16 ∧
      (create_random (.replicate 16 255)).to_string = string octets ∧
      octets[6]?.map (fun b : UInt8 => b >>> 4) = some 4 ∧
      octets[8]?.map (fun b : UInt8 => b >>> 6) = some 2 :=
  made_uuids_have_their_version 4 _ (.v4 _)

end UuidFactory

end util
