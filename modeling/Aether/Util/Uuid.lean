-- UUIDs of version 1, `util/uuid.cpp`: the clock readings that `create` takes its
-- timestamps from, the state of the factory, and the format.
--
-- A `uuid_time_t` is below 2^64. The file of the state is read once, before the first
-- UUID, and what is written to it later is left out.
import Mathlib.Data.Nat.Bitwise

namespace util

abbrev UuidNode := Vector UInt8 6

structure UuidState where
  timestamp : Nat
  node : UuidNode
  clock_sequence : Nat
  deriving DecidableEq, Repr

/-- `uuid_t`. -/
structure Uuid where
  time_low : Nat
  time_mid : Nat
  time_hi_and_version : Nat
  clock_seq_hi_and_reserved : Nat
  clock_seq_low : Nat
  node : UuidNode
  deriving DecidableEq, Repr

/-! ## The clock -/

/-- The nanoseconds that are added to a time since January 1, 1970. -/
def uuid_base_time : Int := 0x01B21DD213814000

/-- The nanoseconds since 1970 that can be read: the sum is a `long long` as well. -/
def Readable (now : Int) : Prop :=
  -2 ^ 63 ≤ now + uuid_base_time ∧ now + uuid_base_time < 2 ^ 63

def get_system_time (now : Int) : Nat := ((now + uuid_base_time).tdiv 100 % 2 ^ 64).toNat

def uuids_per_tick : Nat := 1024

/-- The last reading, and how many UUIDs were made at it after the first. -/
structure Tick where
  time_last : Nat
  uuids_this_tick : Nat
  deriving DecidableEq, Repr

/-- What `get_current_time` returns with these static variables. -/
def Tick.timestamp (t : Tick) : Nat := (t.time_last + t.uuids_this_tick) % 2 ^ 64

/-- The loop of `get_current_time` over the readings of the clock, as far as they go. -/
def Tick.next (t : Tick) : List Nat → Option (Tick × List Nat)
  | [] => none
  | time_now :: readings =>
    if t.time_last ≠ time_now then some (⟨time_now, 0⟩, readings)
    else if t.uuids_this_tick < uuids_per_tick then
      some (⟨time_now, t.uuids_this_tick + 1⟩, readings)
    -- We are moving too fast for our clock, so we repeat.
    else t.next readings

/-- `get_current_time`. On the first call the last reading is set by a reading of its own. -/
def get_current_time : Option Tick → List Nat → Option (Tick × List Nat)
  | some t, readings => t.next readings
  | none, [] => none
  | none, time_last :: readings => Tick.next ⟨time_last, uuids_per_tick⟩ readings

/-! ## The factory -/

/-- What the factory finds on its machine: its node, the state in the file, if there is a file, and
the random number, if it draws one. -/
structure Machine where
  node : UuidNode
  file : Option UuidState
  random_number : Nat

/-- The static variables. -/
structure UuidFactory where
  tick : Option Tick
  /-- The flag of `read_state`. -/
  was_read : Bool
  state_ : UuidState

namespace UuidFactory

def new : UuidFactory := ⟨none, false, ⟨0, .replicate 6 0, 0⟩⟩

def read_state (f : UuidFactory) (m : Machine) : Bool × UuidState :=
  if f.was_read then (true, f.state_)
  else
    match m.file with
    | none => (false, f.state_)
    | some state => (true, state)

def format_uuid_v1 (state : UuidState) : Uuid where
  time_low := state.timestamp &&& 0xFFFFFFFF
  time_mid := (state.timestamp >>> 32) &&& 0xFFFF
  time_hi_and_version := ((state.timestamp >>> 48) &&& 0x0FFF) ||| 1 <<< 12
  clock_seq_hi_and_reserved := ((state.clock_sequence &&& 0x3F00) >>> 8) ||| 0x80
  clock_seq_low := state.clock_sequence &&& 0xFF
  node := state.node

/-- The clock sequence of the next UUID. -/
def next_sequence (f : UuidFactory) (m : Machine) (timestamp : Nat) : Nat :=
  let (valid_state, state) := f.read_state m
  if !valid_state || m.node ≠ state.node then m.random_number
  else if timestamp < state.timestamp then (state.clock_sequence + 1) % 2 ^ 16
  else state.clock_sequence

/-- `create`: the factory after it, which has the state of the UUID, and the readings that are
left. -/
def create (f : UuidFactory) (m : Machine) (readings : List Nat) :
    Option (UuidFactory × List Nat) := do
  let (tick, readings) ← get_current_time f.tick readings
  let state : UuidState := ⟨tick.timestamp, m.node, f.next_sequence m tick.timestamp⟩
  return (⟨some tick, true, state⟩, readings)

/-- The readings that the last call came to. -/
def last_tick (f : UuidFactory) : Tick := f.tick.getD ⟨0, 0⟩

/-- The UUID that the last call has returned. -/
def uuid (f : UuidFactory) : Uuid := format_uuid_v1 f.state_

/-- The factory after each of so many calls. -/
def creates (m : Machine) : Nat → UuidFactory → List Nat → Option (List UuidFactory)
  | 0, _, _ => some []
  | n + 1, f, readings => do
    let (f, readings) ← f.create m readings
    return f :: (← creates m n f readings)

end UuidFactory

end util
