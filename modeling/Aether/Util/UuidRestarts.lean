-- The state file of `util/uuid.cpp`, and the UUIDs of a program that runs again and again on one
-- machine.
--
-- Between two writes of the file there are ten seconds. So the state that a program finds is not
-- the last one that was used, and a clock that has gone back by less is not seen to be behind.
import Aether.Util.UuidUniqueness

namespace util

/-- A run of the program. -/
structure Process where
  random_number : Nat
  nows : List Int
  /-- The UUIDs that are made after the first. -/
  more : Nat
  /-- The state file can be opened to be written. -/
  written : Bool

namespace UuidFactory

def save_interval : Nat := 10 * 10 * 1000 * 1000

/-- `next_save_`, which the first call sets, and the file. -/
def write_state (written : Bool) (next_save : Option Nat) (file : Option UuidState)
    (state : UuidState) : Nat × Option UuidState :=
  let next_save := next_save.getD state.timestamp
  if next_save ≤ state.timestamp then
    ((state.timestamp + save_interval) % 2 ^ 64, if written then some state else file)
  else (next_save, file)

/-- The file after the states of a process. -/
def saved (written : Bool) : Option Nat → Option UuidState → List UuidState → Option UuidState
  | _, file, [] => file
  | next_save, file, state :: states =>
    let (next_save, file) := write_state written next_save file state
    saved written (some next_save) file states

/-- The factory after each call, and the file that is left. -/
def process (node : UuidNode) (file : Option UuidState) (p : Process) :
    Option (List UuidFactory × Option UuidState) := do
  let fs ← creates ⟨node, file, p.random_number⟩ (p.more + 1) .new (p.nows.map get_system_time)
  return (fs, saved p.written none file (fs.map (·.state_)))

def processes (node : UuidNode) : Option UuidState → List Process →
    Option (List (List UuidFactory))
  | _, [] => some []
  | file, p :: ps => do
    let (fs, file) ← process node file p
    return fs :: (← processes node file ps)

/-! ## The file -/

variable {file : Option UuidState} {s state : UuidState} {states : List UuidState}

/-- The file has a state from the last ten seconds. -/
structure Recent (s : UuidState) (timestamp : Nat) : Prop where
  le : s.timestamp ≤ timestamp
  lt : timestamp < s.timestamp + save_interval

theorem saved_recent (hrecent : Recent s state.timestamp)
    (hforward : (state :: states).IsChain (·.timestamp < ·.timestamp))
    (hsmall : ∀ t ∈ states, t.timestamp < 2 ^ 60) :
    ∃ s', saved true (some (s.timestamp + save_interval)) (some s) states = some s' ∧
      Recent s' (states.getLastD state).timestamp ∧ (s' = s ∨ s' ∈ states) := by
  induction states generalizing s state with
  | nil => exact ⟨s, rfl, hrecent, .inl rfl⟩
  | cons t states ih =>
    obtain ⟨hlt, hforward⟩ := List.isChain_cons_cons.mp hforward
    rw [List.forall_mem_cons] at hsmall
    have hroom : (t.timestamp + save_interval) % 2 ^ 64 = t.timestamp + save_interval := by
      have := hsmall.1
      unfold save_interval
      omega
    rw [List.getLastD_cons]
    by_cases hsave : s.timestamp + save_interval ≤ t.timestamp
    · have hwrite : write_state true (some (s.timestamp + save_interval)) (some s) t =
          (t.timestamp + save_interval, some t) := by
        rw [← hroom]
        exact if_pos hsave
      have hown : Recent t t.timestamp := ⟨Nat.le_refl _, by unfold save_interval; omega⟩
      obtain ⟨s', hsaved, hlast, hmem⟩ := ih hown hforward hsmall.2
      refine ⟨s', by rw [saved, hwrite]; exact hsaved, hlast, .inr ?_⟩
      rcases hmem with rfl | hmem
      · exact List.mem_cons_self
      · exact List.mem_cons_of_mem t hmem
    · have hwrite : write_state true (some (s.timestamp + save_interval)) (some s) t =
          (s.timestamp + save_interval, some s) := if_neg hsave
      have hown : Recent s t.timestamp := ⟨by have := hrecent.le; omega, by omega⟩
      obtain ⟨s', hsaved, hlast, hmem⟩ := ih hown hforward hsmall.2
      exact ⟨s', by rw [saved, hwrite]; exact hsaved, hlast,
        hmem.imp_right fun h => List.mem_cons_of_mem t h⟩

/-- Of a process whose timestamps go up, the file has a state from the last ten seconds. -/
theorem saved_process (file : Option UuidState)
    (hforward : (state :: states).IsChain (·.timestamp < ·.timestamp))
    (hsmall : ∀ t ∈ state :: states, t.timestamp < 2 ^ 60) :
    ∃ s', saved true none file (state :: states) = some s' ∧
      Recent s' (states.getLastD state).timestamp ∧ s' ∈ state :: states := by
  rw [List.forall_mem_cons] at hsmall
  have hroom : (state.timestamp + save_interval) % 2 ^ 64 = state.timestamp + save_interval := by
    have := hsmall.1
    unfold save_interval
    omega
  have hwrite : write_state true none file state =
      (state.timestamp + save_interval, some state) := by
    rw [← hroom]
    exact if_pos (Nat.le_refl _)
  have hown : Recent state state.timestamp := ⟨Nat.le_refl _, by unfold save_interval; omega⟩
  obtain ⟨s', hsaved, hlast, hmem⟩ := saved_recent hown hforward hsmall.2
  exact ⟨s', by rw [saved, hwrite]; exact hsaved, hlast, List.mem_cons.mpr hmem⟩

/-! ## A process -/

/-- A time that the clock can have once UUIDs have begun. -/
def Since (now : Int) : Prop := 0 ≤ now + uuid_base_time ∧ now + uuid_base_time < 2 ^ 63

instance (now : Int) : Decidable (Since now) := inferInstanceAs (Decidable (_ ∧ _))

theorem Since.readable {now : Int} (h : Since now) : Readable now :=
  ⟨Int.le_trans (by decide) h.1, h.2⟩

theorem Since.get_system_time_lt {now : Int} (h : Since now) : get_system_time now < 2 ^ 57 := by
  obtain ⟨hlow, hhigh⟩ := h
  unfold get_system_time
  generalize now + uuid_base_time = x at *
  rw [Int.tdiv_eq_ediv_of_nonneg hlow]
  omega

variable {m : Machine} {f f' : UuidFactory} {fs : List UuidFactory} {readings left : List Nat}

theorem next_read {t t' : Tick} (h : t.next readings = some (t', left)) :
    t'.time_last ∈ readings ∧ ∀ r ∈ left, r ∈ readings := by
  induction readings with
  | nil => cases h
  | cons time_now readings ih =>
    unfold Tick.next at h
    split at h
    · obtain ⟨rfl, rfl⟩ := Prod.mk.inj (Option.some.inj h)
      exact ⟨List.mem_cons_self, fun r hr => List.mem_cons_of_mem time_now hr⟩
    · split at h
      · obtain ⟨rfl, rfl⟩ := Prod.mk.inj (Option.some.inj h)
        exact ⟨List.mem_cons_self, fun r hr => List.mem_cons_of_mem time_now hr⟩
      · obtain ⟨hread, hleft⟩ := ih h
        exact ⟨List.mem_cons_of_mem time_now hread,
          fun r hr => List.mem_cons_of_mem time_now (hleft r hr)⟩

theorem create_read (h : f.create m readings = some (f', left)) :
    f'.last_tick.time_last ∈ readings ∧ ∀ r ∈ left, r ∈ readings := by
  unfold create at h
  obtain ⟨⟨tick, left'⟩, hcurrent, h⟩ := Option.bind_eq_some_iff.mp h
  obtain ⟨rfl, rfl⟩ := Prod.mk.inj (Option.some.inj h)
  show tick.time_last ∈ readings ∧ _
  cases htick : f.tick with
  | none =>
    rw [htick] at hcurrent
    cases readings with
    | nil => cases hcurrent
    | cons time_last readings =>
      obtain ⟨hread, hleft⟩ := next_read hcurrent
      exact ⟨List.mem_cons_of_mem time_last hread,
        fun r hr => List.mem_cons_of_mem time_last (hleft r hr)⟩
  | some t =>
    rw [htick] at hcurrent
    exact next_read hcurrent

theorem creates_read {n : Nat} (h : creates m n f readings = some fs) :
    ∀ g ∈ fs, g.last_tick.time_last ∈ readings := by
  induction n generalizing f readings fs with
  | zero =>
    obtain rfl := Option.some.inj h
    intro g hg
    cases hg
  | succ n ih =>
    obtain ⟨⟨f', left⟩, hcreate, h⟩ := Option.bind_eq_some_iff.mp h
    obtain ⟨fs', hrest, h⟩ := Option.bind_eq_some_iff.mp h
    obtain rfl := Option.some.inj h
    obtain ⟨hread, hleft⟩ := create_read hcreate
    rw [List.forall_mem_cons]
    exact ⟨hread, fun g hg => hleft _ (ih hrest g hg)⟩

/-- The timestamp of a UUID. -/
def timestamp (f : UuidFactory) : Nat := f.state_.timestamp

/-- The timestamps of a process go up. -/
def Rising (fs : List UuidFactory) : Prop := fs.IsChain (·.timestamp < ·.timestamp)

instance (fs : List UuidFactory) : Decidable (Rising fs) :=
  inferInstanceAs (Decidable (fs.IsChain _))

theorem timestamp_lt (hf : Made m f) {nows : List Int} (hnows : ∀ now ∈ nows, Since now)
    (hread : f.last_tick.time_last ∈ nows.map get_system_time) : f.timestamp < 2 ^ 60 := by
  obtain ⟨now, hnow, htime⟩ := List.mem_map.mp hread
  have hlt := (hnows now hnow).get_system_time_lt
  have hcount := hf.valid.count
  rw [timestamp, hf.timestamp]
  unfold uuids_per_tick at hcount
  unfold Tick.timestamp
  omega

/-- While the timestamps go up the sequence stays. -/
theorem sequence_of_rising (hmade : ∀ g ∈ f :: fs, Made m g) (hchain : (f :: fs).IsChain Follows)
    (hrising : Rising (f :: fs)) : ∀ g ∈ f :: fs, f.timestamp ≤ g.timestamp ∧
      g.state_.clock_sequence % 2 ^ 14 = f.state_.clock_sequence % 2 ^ 14 := by
  induction fs generalizing f with
  | nil =>
    intro g hg
    rw [List.eq_of_mem_singleton hg]
    exact ⟨Nat.le_refl _, rfl⟩
  | cons f' fs ih =>
    obtain ⟨hfollows, hchain⟩ := List.isChain_cons_cons.mp hchain
    obtain ⟨hlt, hrising⟩ := List.isChain_cons_cons.mp hrising
    rw [List.forall_mem_cons] at hmade
    have hsequence := hfollows.sequence
    have hfalls : falls [f.last_tick, f'.last_tick] = 0 := by
      rw [timestamp, timestamp, hmade.1.timestamp, (hmade.2 f' List.mem_cons_self).timestamp] at hlt
      simp only [falls, if_neg (Nat.not_lt.mpr (Nat.le_of_lt hlt))]
    rw [hfalls, Nat.add_zero] at hsequence
    rw [List.forall_mem_cons]
    refine ⟨⟨Nat.le_refl _, rfl⟩, fun g hg => ?_⟩
    obtain ⟨hle, hsame⟩ := ih hmade.2 hchain hrising g hg
    exact ⟨Nat.le_of_lt (Nat.lt_of_lt_of_le hlt hle), hsame.trans hsequence⟩

theorem le_getLastD (hrising : Rising (f :: fs)) :
    ∀ g ∈ f :: fs, g.timestamp ≤ (fs.getLastD f).timestamp := by
  induction fs generalizing f with
  | nil =>
    intro g hg
    rw [List.eq_of_mem_singleton hg]
    exact Nat.le_refl _
  | cons f' fs ih =>
    obtain ⟨hlt, hrising⟩ := List.isChain_cons_cons.mp hrising
    have hrest := ih hrising
    rw [List.getLastD_cons, List.forall_mem_cons]
    exact ⟨Nat.le_trans (Nat.le_of_lt hlt) (hrest f' List.mem_cons_self), hrest⟩

/-- A UUID of a process whose first one is `f`, and whose last one has the timestamp. -/
structure Own (node : UuidNode) (f : UuidFactory) (last : Nat) (g : UuidFactory) : Prop where
  node : g.state_.node = node
  small : g.timestamp < 2 ^ 60
  first : f.timestamp ≤ g.timestamp
  last : g.timestamp ≤ last
  sequence : g.state_.clock_sequence % 2 ^ 14 = f.state_.clock_sequence % 2 ^ 14

variable {node : UuidNode} {p : Process} {ps : List Process} {file' : Option UuidState}

/-- What a process whose timestamps go up has made, and the file that it leaves. -/
theorem process_own (hnows : ∀ now ∈ p.nows, Since now) (hwritten : p.written = true)
    (h : process node file p = some (fs, file')) (hrising : Rising fs) :
    ∃ f rest s', fs = f :: rest ∧ file' = some s' ∧
      f.state_.clock_sequence = new.next_sequence ⟨node, file, p.random_number⟩ f.timestamp ∧
      (∀ g ∈ fs, Own node f (rest.getLastD f).timestamp g) ∧
      s'.node = node ∧ Recent s' (rest.getLastD f).timestamp ∧
      s'.clock_sequence % 2 ^ 14 = f.state_.clock_sequence % 2 ^ 14 := by
  obtain ⟨fs', hcreates, h⟩ := Option.bind_eq_some_iff.mp h
  obtain ⟨rfl, rfl⟩ := Prod.mk.inj (Option.some.inj h)
  have hread : ∀ r ∈ p.nows.map get_system_time,
      ∃ now, Readable now ∧ r = get_system_time now := by
    intro r hr
    obtain ⟨now, hnow, rfl⟩ := List.mem_map.mp hr
    exact ⟨now, (hnows now hnow).readable, rfl⟩
  obtain ⟨hchain, hmade⟩ := creates_new hread hcreates
  have hlast := creates_read hcreates
  obtain ⟨⟨f, left⟩, hcreate, hrest⟩ := Option.bind_eq_some_iff.mp hcreates
  obtain ⟨rest, -, hrest⟩ := Option.bind_eq_some_iff.mp hrest
  obtain rfl := Option.some.inj hrest
  have hown : ∀ g ∈ f :: rest, Own node f (rest.getLastD f).timestamp g := fun g hg =>
    have hg' := sequence_of_rising hmade hchain hrising g hg
    ⟨(hmade g hg).node, timestamp_lt (hmade g hg) hnows (hlast g hg), hg'.1,
      le_getLastD hrising g hg, hg'.2⟩
  have hfirst : f.state_.clock_sequence =
      new.next_sequence ⟨node, file, p.random_number⟩ f.timestamp := by
    obtain ⟨⟨tick, left'⟩, -, hcreate⟩ := Option.bind_eq_some_iff.mp hcreate
    obtain ⟨rfl, -⟩ := Prod.mk.inj (Option.some.inj hcreate)
    rfl
  have hforward : (f.state_ :: rest.map (·.state_)).IsChain (·.timestamp < ·.timestamp) :=
    (List.isChain_map UuidFactory.state_ (l := f :: rest)).mpr hrising
  have hsmall : ∀ t ∈ f.state_ :: rest.map (·.state_), t.timestamp < 2 ^ 60 := by
    intro t ht
    obtain ⟨g, hg, rfl⟩ : ∃ g ∈ f :: rest, g.state_ = t := List.mem_map.mp ht
    exact (hown g hg).small
  have hend : (rest.map (·.state_)).getLastD f.state_ = (rest.getLastD f).state_ := by
    simp [List.getLastD_eq_getLast?, List.getLast?_map, Option.getD_map]
  obtain ⟨s', hsaved, hrecent, hmem⟩ := saved_process file hforward hsmall
  obtain ⟨g, hg, rfl⟩ : ∃ g ∈ f :: rest, g.state_ = s' := List.mem_map.mp hmem
  rw [hend] at hrecent
  rw [hwritten]
  exact ⟨f, rest, g.state_, rfl, hsaved, hfirst, hown, (hown g hg).node, hrecent,
    (hown g hg).sequence⟩

/-! ## Processes -/

/-- The clock of a new process is ahead of the last UUID, or behind it by ten seconds. -/
def Restarts (fs fs' : List UuidFactory) : Prop :=
  ∀ f ∈ fs.getLast?, ∀ f' ∈ fs'.head?,
    f.timestamp < f'.timestamp ∨ f'.timestamp + save_interval ≤ f.timestamp

instance (fs fs' : List UuidFactory) : Decidable (Restarts fs fs') :=
  inferInstanceAs (Decidable (∀ f ∈ fs.getLast?, ∀ f' ∈ fs'.head?, _))

/-- A UUID that is made after a state, in one of so many processes. -/
structure Behind (s : UuidState) (last most : Nat) (g : UuidFactory) : Prop where
  node : g.state_.node = s.node
  small : g.timestamp < 2 ^ 60
  sequence : ∃ steps ≤ most,
    g.state_.clock_sequence % 2 ^ 14 = (s.clock_sequence + steps) % 2 ^ 14 ∧
      (steps = 0 → last < g.timestamp)

/-- UUIDs with one clock sequence are told apart by their timestamps. -/
theorem timestamp_of_uuid {g g' : UuidFactory} (hnode : g.state_.node = g'.state_.node)
    (hg : g.timestamp < 2 ^ 60) (hg' : g'.timestamp < 2 ^ 60) (h : g.uuid = g'.uuid) :
    g.timestamp = g'.timestamp ∧
      g.state_.clock_sequence % 2 ^ 14 = g'.state_.clock_sequence % 2 ^ 14 := by
  obtain ⟨htime, hsequence⟩ := (format_uuid_v1_inj hnode).mp h
  refine ⟨?_, hsequence⟩
  unfold timestamp at *
  omega

theorem uuids_of_own {last : Nat} (hown : ∀ g ∈ fs, Own node f last g) (hrising : Rising fs) :
    fs.Pairwise (·.uuid ≠ ·.uuid) := by
  have hpairs : fs.Pairwise (·.timestamp < ·.timestamp) :=
    List.isChain_iff_pairwise.mp hrising
  refine hpairs.imp_of_mem fun hg hg' hlt heq => ?_
  have htime := (timestamp_of_uuid ((hown _ hg).node.trans (hown _ hg').node.symm) (hown _ hg).small
    (hown _ hg').small heq).1
  omega

/-- The UUIDs of a process and those that are made after the state that it left. -/
theorem own_ne_behind {last most : Nat} {g g' : UuidFactory} (hg : Own node f last g)
    (hnode : s.node = node) (hstate : s.clock_sequence % 2 ^ 14 = f.state_.clock_sequence % 2 ^ 14)
    (hg' : Behind s last most g') (hmost : most < 2 ^ 14) : g.uuid ≠ g'.uuid := by
  intro heq
  obtain ⟨steps, hsteps, hsequence, hnew⟩ := hg'.sequence
  obtain ⟨htime, hsame⟩ := timestamp_of_uuid
    (hg.node.trans (hnode.symm.trans hg'.node.symm)) hg.small hg'.small heq
  have hzero : steps = 0 := by
    have := hg.sequence
    omega
  have hlast := hg.last
  have hlater := hnew hzero
  omega

variable {fss : List (List UuidFactory)}

/-- The first UUID of the next process, after a last one. -/
def StartsAfter (last : Nat) (fss : List (List UuidFactory)) : Prop :=
  ∀ fs ∈ fss.head?, ∀ f ∈ fs.head?,
    last < f.timestamp ∨ f.timestamp + save_interval ≤ last

/-- The first of the processes, and what the others start from. -/
theorem processes_cons (hnows : ∀ now ∈ p.nows, Since now) (hwritten : p.written = true)
    (h : processes node file (p :: ps) = some fss) (hrising : ∀ fs ∈ fss, Rising fs)
    (hrestarts : fss.IsChain Restarts) :
    ∃ f rest s' fss', fss = (f :: rest) :: fss' ∧ processes node (some s') ps = some fss' ∧
      f.state_.clock_sequence = new.next_sequence ⟨node, file, p.random_number⟩ f.timestamp ∧
      (∀ g ∈ f :: rest, Own node f (rest.getLastD f).timestamp g) ∧
      s'.node = node ∧ Recent s' (rest.getLastD f).timestamp ∧
      s'.clock_sequence % 2 ^ 14 = f.state_.clock_sequence % 2 ^ 14 ∧
      StartsAfter (rest.getLastD f).timestamp fss' := by
  obtain ⟨⟨fs, file'⟩, hprocess, h⟩ := Option.bind_eq_some_iff.mp h
  obtain ⟨fss', hprocesses, h⟩ := Option.bind_eq_some_iff.mp h
  obtain rfl := Option.some.inj h
  obtain ⟨f, rest, s', rfl, rfl, hfirst, hown, hnode, hrecent, hsequence⟩ :=
    process_own hnows hwritten hprocess (hrising fs List.mem_cons_self)
  have hlast : (f :: rest).getLast? = some (rest.getLastD f) := by
    rw [List.getLast?_cons, List.getLastD_eq_getLast?]
  exact ⟨f, rest, s', fss', rfl, hprocesses, hfirst, hown, hnode, hrecent, hsequence,
    fun fs' hfs' f' hf' => (List.isChain_cons.mp hrestarts).1 fs' hfs' _ hlast f' hf'⟩

theorem processes_behind {last : Nat} (hnode : s.node = node) (hrecent : Recent s last)
    (hnows : ∀ p ∈ ps, ∀ now ∈ p.nows, Since now) (hwritten : ∀ p ∈ ps, p.written = true)
    (h : processes node (some s) ps = some fss) (hrising : ∀ fs ∈ fss, Rising fs)
    (hrestarts : fss.IsChain Restarts) (hnext : StartsAfter last fss) :
    (∀ g ∈ fss.flatten, Behind s last ps.length g) ∧
      (ps.length ≤ 2 ^ 14 → fss.flatten.Pairwise (·.uuid ≠ ·.uuid)) := by
  induction ps generalizing s last fss with
  | nil =>
    obtain rfl := Option.some.inj h
    exact ⟨fun g hg => (List.not_mem_nil hg).elim, fun _ => .nil⟩
  | cons p ps ih =>
    rw [List.forall_mem_cons] at hnows hwritten
    obtain ⟨f, rest, s', fss', rfl, hprocesses, hfirst, hown, hnode', hrecent', hsequence',
      hnext'⟩ := processes_cons hnows.1 hwritten.1 h hrising hrestarts
    rw [List.forall_mem_cons] at hrising
    have hstarts := hnext (f :: rest) rfl f rfl
    have hrest := ih hnode' hrecent' hnows.2 hwritten.2 hprocesses hrising.2
      hrestarts.tail hnext'
    -- The first UUID is seen to be behind the state of the file, or is after all of its sequence.
    have hsteps : ∃ steps ≤ 1, f.state_.clock_sequence % 2 ^ 14 =
        (s.clock_sequence + steps) % 2 ^ 14 ∧ (steps = 0 → last < f.timestamp) := by
      have hread : new.read_state ⟨node, some s, p.random_number⟩ = (true, s) := rfl
      rw [next_sequence, hread] at hfirst
      simp only [Bool.not_true, hnode, ne_eq, not_true_eq_false, decide_false, Bool.or_self,
        Bool.false_eq_true, if_false] at hfirst
      by_cases hbehind : f.timestamp < s.timestamp
      · rw [if_pos hbehind] at hfirst
        exact ⟨1, Nat.le_refl _, by omega, by omega⟩
      · rw [if_neg hbehind] at hfirst
        have hrecent := hrecent.lt
        exact ⟨0, Nat.zero_le _, by rw [hfirst, Nat.add_zero], by omega⟩
    obtain ⟨steps, hle, hsteps, hnew⟩ := hsteps
    rw [List.flatten_cons]
    constructor
    · intro g hg
      rcases List.mem_append.mp hg with hg | hg
      · have hg := hown g hg
        refine ⟨hg.node.trans hnode.symm, hg.small, steps, ?_, hg.sequence.trans hsteps, ?_⟩
        · rw [List.length_cons]
          omega
        · exact fun hzero => Nat.lt_of_lt_of_le (hnew hzero) hg.first
      · have hg' := hrest.1 g hg
        obtain ⟨steps', hle', hsequence, hnew'⟩ := hg'.sequence
        refine ⟨hg'.node.trans (hnode'.trans hnode.symm), hg'.small, steps + steps', ?_, ?_, ?_⟩
        · rw [List.length_cons]
          omega
        · omega
        · intro hzero
          have hfirst := (hown f List.mem_cons_self).last
          have hlast := hnew (by omega)
          have hlater := hnew' (by omega)
          omega
    · intro hlength
      rw [List.length_cons] at hlength
      refine List.pairwise_append.mpr ⟨uuids_of_own hown hrising.1, hrest.2 (by omega),
        fun g hg g' hg' => ?_⟩
      exact own_ne_behind (hown g hg) hnode' hsequence' (hrest.1 g' hg') (by omega)

/-- The programs that run one after the other on a machine never make a UUID twice, if the state
file can be written, each one's timestamps go up, the clock at the start of one is ahead of all
UUIDs of the one before it or at least ten seconds behind the last of them, and there are no more
programs than clock sequences. -/
theorem uuids_are_distinct_across_restarts (node : UuidNode) (file : Option UuidState)
    (ps : List Process) (fss : List (List UuidFactory))
    (hnows : ∀ p ∈ ps, ∀ now ∈ p.nows, Since now) (hwritten : ∀ p ∈ ps, p.written = true)
    (h : processes node file ps = some fss) (hrising : ∀ fs ∈ fss, Rising fs)
    (hrestarts : fss.IsChain Restarts) (hlength : ps.length ≤ 2 ^ 14) :
    (fss.flatten.map uuid).Nodup := by
  rw [List.Nodup, List.pairwise_map]
  cases ps with
  | nil =>
    obtain rfl := Option.some.inj h
    exact .nil
  | cons p ps =>
    rw [List.forall_mem_cons] at hnows hwritten
    rw [List.length_cons] at hlength
    obtain ⟨f, rest, s', fss', rfl, hprocesses, -, hown, hnode', hrecent', hsequence', hnext'⟩ :=
      processes_cons hnows.1 hwritten.1 h hrising hrestarts
    rw [List.forall_mem_cons] at hrising
    have hrest := processes_behind hnode' hrecent' hnows.2 hwritten.2 hprocesses hrising.2
      hrestarts.tail hnext'
    rw [List.flatten_cons]
    refine List.pairwise_append.mpr ⟨uuids_of_own hown hrising.1, hrest.2 (by omega),
      fun g hg g' hg' => ?_⟩
    exact own_ne_behind (hown g hg) hnode' hsequence' (hrest.1 g' hg') (by omega)

/-- A program, one after the clock was set back by twenty seconds, and one more. -/
def three_processes : List Process :=
  [⟨7, [0, 100], 0, true⟩, ⟨8, [-20000000100, -20000000000, -19999999900], 1, true⟩,
    ⟨9, [100, 200], 0, true⟩]

theorem uuids_of_three_processes_are_distinct :
    ∃ fss, processes (.replicate 6 1) none three_processes = some fss ∧
      (fss.flatten.map uuid).Nodup := by
  refine ⟨_, rfl, uuids_are_distinct_across_restarts (.replicate 6 1) none three_processes _ ?_ ?_
    rfl ?_ ?_ ?_⟩
  · decide
  · decide
  · decide
  · decide
  · decide

/-- The clock is as far as it was at the last UUID, but the file does not have that one. -/
example : ((processes (.replicate 6 1) none
    [⟨7, [0, 100, 5000000000], 1, true⟩, ⟨8, [0, 5000000000], 0, true⟩]).map fun fss =>
      decide (fss.flatten.map uuid).Nodup) = some false := by
  decide +kernel

end UuidFactory

end util
