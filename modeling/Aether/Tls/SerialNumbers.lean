-- The serial numbers of certificates, `generate_serial` of `tls/x509/server_store.cpp`, and the
-- file that has the last of them, also when the program runs again.
--
-- A number is in the file as the machine has it, the least significant byte first. What is written
-- comes to the file when it is closed, and no error is seen then.
import Aether.Lib.BigEndian
import Mathlib.Data.List.Nodup

open lib.big_endian

namespace proxy.tls.x509.server_store

/-- What happens to a call. The calls of a store come one after the other. -/
structure SerialCall where
  /-- The file can be opened to be read. -/
  reads : Bool
  /-- The file can be opened to be written, and is empty then. -/
  opens : Bool
  /-- So many bytes of the number come to the file. -/
  flushed : Nat
  random_serial_number : UInt64

/-- The bytes of the file, if it is there. -/
abbrev SerialFile := Option (List UInt8)

def serial_bytes (serial : UInt64) : List UInt8 := (bigEndian 8 serial.toNat).reverse

def serial_of_bytes (bytes : List UInt8) : UInt64 := .ofNat (ofBigEndian bytes.reverse)

def read_last_serial_number (file : SerialFile) (call : SerialCall) : Option UInt64 :=
  if call.reads then
    file.bind fun bytes =>
      if 8 ≤ bytes.length then some (serial_of_bytes (bytes.take 8)) else none
  else none

def read_last_serial_number_or_reset_state (file : SerialFile) (call : SerialCall) : UInt64 :=
  (read_last_serial_number file call).getD 0

/-- The file then, or nothing for an error. -/
def write_last_serial_number (call : SerialCall) (serial : UInt64) : Option SerialFile :=
  if call.opens then some (some ((serial_bytes serial).take call.flushed)) else none

def generate_serial (ssl_use_strong_serial_numbers : Bool) (file : SerialFile)
    (call : SerialCall) : UInt64 × SerialFile :=
  if !ssl_use_strong_serial_numbers then (call.random_serial_number, file)
  else
    let serial := 1 + read_last_serial_number_or_reset_state file call
    match write_last_serial_number call serial with
    | none => (call.random_serial_number, file)
    | some file => (serial, file)

/-- The numbers that are no random ones, of calls one after the other. -/
def counted : SerialFile → List SerialCall → List UInt64
  | _, [] => []
  | file, call :: calls =>
    let (serial, file) := generate_serial true file call
    if call.opens then serial :: counted file calls else counted file calls

/-! ## The file -/

/-- The number of a call is found by the next one. -/
def Kept (call next : SerialCall) : Prop := 8 ≤ call.flushed ∧ next.reads = true

variable {file : SerialFile} {call next : SerialCall} {serial : UInt64}

theorem serial_of_serial_bytes (serial : UInt64) :
    serial_of_bytes (serial_bytes serial) = serial := by
  rw [serial_of_bytes, serial_bytes, List.reverse_reverse,
    ofBigEndian_bigEndian (by simpa using serial.toNat_lt), UInt64.ofNat_toNat]

theorem generate_serial_of_opens (h : call.opens = true) : generate_serial true file call =
    (1 + read_last_serial_number_or_reset_state file call,
      some ((serial_bytes (1 + read_last_serial_number_or_reset_state file call)).take
        call.flushed)) := by
  simp [generate_serial, write_last_serial_number, h]

/-- A call whose file cannot be written gives a random number and leaves the file. -/
theorem generate_serial_of_not_opens (h : call.opens = false) :
    generate_serial true file call = (call.random_serial_number, file) := by
  simp [generate_serial, write_last_serial_number, h]

theorem read_kept (h : Kept call next) : read_last_serial_number_or_reset_state
    (some ((serial_bytes serial).take call.flushed)) next = serial := by
  have hlength : (serial_bytes serial).length = 8 := by simp [serial_bytes]
  have hwhole : (serial_bytes serial).take call.flushed = serial_bytes serial :=
    List.take_of_length_le (by rw [hlength]; exact h.1)
  rw [hwhole, read_last_serial_number_or_reset_state, read_last_serial_number, if_pos h.2,
    Option.bind_some, if_pos (by rw [hlength]), List.take_of_length_le (by rw [hlength]),
    serial_of_serial_bytes]
  rfl

/-- A number that is not kept is none, as if there were no file. -/
theorem read_not_kept (h : ¬ Kept call next) : read_last_serial_number_or_reset_state
    (some ((serial_bytes serial).take call.flushed)) next = 0 := by
  unfold read_last_serial_number_or_reset_state read_last_serial_number
  by_cases hreads : next.reads = true
  · have hshort : ¬ 8 ≤ ((serial_bytes serial).take call.flushed).length := by
      rw [List.length_take]
      intro hle
      exact h ⟨by omega, hreads⟩
    rw [if_pos hreads, Option.bind_some, if_neg hshort]
    rfl
  · rw [if_neg hreads]
    rfl

/-! ## Runs -/

/-- The file behind a call that had the number. -/
def left (serial : UInt64) (call : SerialCall) : SerialFile :=
  some ((serial_bytes serial).take call.flushed)

variable {calls : List SerialCall}

theorem counted_cons_of_opens (h : call.opens = true) : counted file (call :: calls) =
    (1 + read_last_serial_number_or_reset_state file call) ::
      counted (left (1 + read_last_serial_number_or_reset_state file call) call) calls := by
  simp only [counted, generate_serial_of_opens h, h, if_true, left]

/-- Calls whose file cannot be written change nothing for the others. -/
theorem counted_filter : counted file (calls.filter (·.opens)) = counted file calls := by
  induction calls generalizing file with
  | nil => rfl
  | cons call calls ih =>
    cases h : call.opens with
    | true => rw [List.filter_cons_of_pos h, counted_cons_of_opens h, counted_cons_of_opens h, ih]
    | false =>
      rw [List.filter_cons_of_neg (by simp [h]), ih]
      simp [counted, generate_serial_of_not_opens h, h]

/-- Numbers that are all kept go up by one. -/
theorem counted_of_kept (hopens : ∀ next ∈ calls, next.opens = true)
    (hkept : (call :: calls).IsChain Kept) : counted (left serial call) calls =
      (List.range calls.length).map fun place => serial + .ofNat (place + 1) := by
  induction calls generalizing call serial with
  | nil => rfl
  | cons next calls ih =>
    obtain ⟨hnext, hrest⟩ := List.isChain_cons_cons.mp hkept
    have hcount : counted (left (1 + serial) next) calls =
        (List.range calls.length).map fun place => 1 + serial + .ofNat (place + 1) :=
      ih (fun later hlater => hopens later (List.mem_cons_of_mem _ hlater)) hrest
    rw [counted_cons_of_opens (hopens next List.mem_cons_self), left, read_kept hnext, hcount,
      List.length_cons, List.range_succ_eq_map, List.map_cons, List.map_map, UInt64.add_comm 1]
    congr 1
    refine List.map_congr_left fun place _ => ?_
    simp only [Function.comp_apply, Nat.succ_eq_add_one, UInt64.ofNat_add (place + 1) 1,
      UInt64.add_assoc]
    rw [UInt64.add_comm 1]
    rfl

/-- Behind a number that is not kept the counting begins again. -/
theorem one_mem_counted (hopens : ∀ next ∈ calls, next.opens = true)
    (hkept : ¬ (call :: calls).IsChain Kept) : 1 ∈ counted (left serial call) calls := by
  induction calls generalizing call serial with
  | nil => exact absurd (.singleton call) hkept
  | cons next calls ih =>
    rw [counted_cons_of_opens (hopens next List.mem_cons_self)]
    by_cases hnext : Kept call next
    · refine List.mem_cons_of_mem _ (ih (fun later hlater => hopens later
        (List.mem_cons_of_mem _ hlater)) fun hrest => ?_)
      exact hkept (List.isChain_cons_cons.mpr ⟨hnext, hrest⟩)
    · rw [left, read_not_kept hnext]
      exact List.mem_cons_self

theorem nodup_numbers {count : Nat} (h : count ≤ 2 ^ 64) :
    ((List.range count).map fun place => (1 : UInt64) + .ofNat place).Nodup := by
  refine (List.nodup_range).map_on fun place hplace other hother heq => ?_
  rw [List.mem_range] at hplace hother
  have hsame := congrArg UInt64.toNat ((UInt64.add_right_inj 1).mp heq)
  rwa [UInt64.toNat_ofNat_of_lt' (show place < 2 ^ 64 by omega),
    UInt64.toNat_ofNat_of_lt' (show other < 2 ^ 64 by omega)] at hsame

/-- From no file on, and for as many numbers as there are: no two certificates have one counted
serial number just when each number came to the file whole and could be read by the next call
that counted. -/
theorem serials_are_distinct_iff (calls : List SerialCall)
    (hcount : (calls.filter (·.opens)).length ≤ 2 ^ 64) :
    (counted none calls).Nodup ↔ (calls.filter (·.opens)).IsChain Kept := by
  have hopens : ∀ call ∈ calls.filter (·.opens), call.opens = true := fun call hcall =>
    (List.mem_filter.mp hcall).2
  rw [← counted_filter]
  generalize calls.filter (·.opens) = opened at hcount hopens
  cases opened with
  | nil => simp [counted]
  | cons call opened =>
    have hrest : ∀ next ∈ opened, next.opens = true := fun next hnext =>
      hopens next (List.mem_cons_of_mem _ hnext)
    have hfirst : counted none (call :: opened) = 1 :: counted (left 1 call) opened := by
      have hnone : read_last_serial_number_or_reset_state none call = 0 := by
        cases h : call.reads <;>
          simp [read_last_serial_number_or_reset_state, read_last_serial_number, h]
      rw [counted_cons_of_opens (hopens call List.mem_cons_self), hnone]
      rfl
    rw [hfirst]
    constructor
    · intro hnodup
      by_contra hkept
      exact (List.nodup_cons.mp hnodup).1 (one_mem_counted hrest hkept)
    · intro hkept
      rw [counted_of_kept hrest hkept]
      have hall := nodup_numbers hcount
      rw [List.length_cons, List.range_succ_eq_map, List.map_cons, List.map_map] at hall
      exact hall

theorem a_serial_that_is_not_flushed_comes_twice :
    ¬ (counted none [⟨true, true, 8, 7⟩, ⟨true, true, 3, 7⟩, ⟨true, false, 0, 7⟩,
      ⟨true, true, 8, 7⟩]).Nodup := by
  rw [serials_are_distinct_iff _ (by decide)]
  simp [Kept]

end proxy.tls.x509.server_store
