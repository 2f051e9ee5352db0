-- When the UUIDs that a process makes are distinct.
--
-- A UUID has its timestamp and the clock sequence, which goes up where a timestamp is below the
-- one before it. A reading may be ahead of the last one by exactly the number of UUIDs that were
-- made behind the first at that one: then the timestamp is the same, and that is not below.
import Mathlib.Data.List.Chain
import Mathlib.Data.List.Pairwise
import Aether.Util.Uuid

namespace util

/-! ## The format -/

/-- The bits of a timestamp that a UUID has, from its three fields. -/
theorem timestamp_fields (n : Nat) :
    n % 2 ^ 60 = n % 2 ^ 32 + 2 ^ 32 * (n / 2 ^ 32 % 2 ^ 16) + 2 ^ 48 * (n / 2 ^ 48 % 2 ^ 12) := by
  omega

theorem fields_timestamp (n : Nat) : n % 2 ^ 32 = n % 2 ^ 60 % 2 ^ 32 ∧
    n / 2 ^ 32 % 2 ^ 16 = n % 2 ^ 60 / 2 ^ 32 % 2 ^ 16 ∧
      n / 2 ^ 48 % 2 ^ 12 = n % 2 ^ 60 / 2 ^ 48 % 2 ^ 12 := by
  omega

theorem sequence_fields (n : Nat) : n % 2 ^ 14 = n % 2 ^ 8 + 2 ^ 8 * (n / 2 ^ 8 % 2 ^ 6) := by
  omega

theorem fields_sequence (n : Nat) :
    n % 2 ^ 8 = n % 2 ^ 14 % 2 ^ 8 ∧ n / 2 ^ 8 % 2 ^ 6 = n % 2 ^ 14 / 2 ^ 8 % 2 ^ 6 := by
  omega

/-- A bit is set above those of a smaller number. -/
theorem or_two_pow {n k : Nat} (h : n < 2 ^ k) : n ||| 2 ^ k = 2 ^ k + n := by
  have hor := Nat.two_pow_add_eq_or_of_lt h 1
  rw [Nat.mul_one] at hor
  rw [Nat.or_comm, hor]

theorem format_uuid_v1_eq (s : UuidState) : UuidFactory.format_uuid_v1 s =
    ⟨s.timestamp % 2 ^ 32, s.timestamp / 2 ^ 32 % 2 ^ 16, 2 ^ 12 + s.timestamp / 2 ^ 48 % 2 ^ 12,
      2 ^ 7 + s.clock_sequence / 2 ^ 8 % 2 ^ 6, s.clock_sequence % 2 ^ 8, s.node⟩ := by
  have hhigh : (s.timestamp >>> 48) &&& 0x0FFF = s.timestamp / 2 ^ 48 % 2 ^ 12 := by
    rw [Nat.shiftRight_eq_div_pow]
    exact Nat.and_two_pow_sub_one_eq_mod _ 12
  have hseq : (s.clock_sequence &&& 0x3F00) >>> 8 = s.clock_sequence / 2 ^ 8 % 2 ^ 6 := by
    rw [Nat.shiftRight_and_distrib, Nat.shiftRight_eq_div_pow]
    exact Nat.and_two_pow_sub_one_eq_mod _ 6
  have hversion : s.timestamp / 2 ^ 48 % 2 ^ 12 < 2 ^ 12 := Nat.mod_lt _ (Nat.two_pow_pos 12)
  have hreserved : s.clock_sequence / 2 ^ 8 % 2 ^ 6 < 2 ^ 7 := by omega
  unfold UuidFactory.format_uuid_v1
  rw [hhigh, hseq]
  refine Uuid.mk.injEq .. |>.mpr ⟨?_, ?_, ?_, ?_, ?_, rfl⟩
  · exact Nat.and_two_pow_sub_one_eq_mod _ 32
  · rw [Nat.shiftRight_eq_div_pow]
    exact Nat.and_two_pow_sub_one_eq_mod _ 16
  · exact or_two_pow hversion
  · exact or_two_pow hreserved
  · exact Nat.and_two_pow_sub_one_eq_mod _ 8

/-- What a UUID shows of a state: 60 bits of the timestamp and 14 of the sequence. -/
theorem format_uuid_v1_inj {s s' : UuidState} (hnode : s.node = s'.node) :
    UuidFactory.format_uuid_v1 s = UuidFactory.format_uuid_v1 s' ↔
      s.timestamp % 2 ^ 60 = s'.timestamp % 2 ^ 60 ∧
        s.clock_sequence % 2 ^ 14 = s'.clock_sequence % 2 ^ 14 := by
  rw [format_uuid_v1_eq, format_uuid_v1_eq, Uuid.mk.injEq]
  constructor
  · rintro ⟨hlow, hmid, hhigh, hseq, hseqlow, -⟩
    rw [timestamp_fields, timestamp_fields s'.timestamp, sequence_fields,
      sequence_fields s'.clock_sequence, hlow, hmid, Nat.add_left_cancel hhigh,
      Nat.add_left_cancel hseq, hseqlow]
    exact ⟨rfl, rfl⟩
  · rintro ⟨htime, hsequence⟩
    obtain ⟨hlow, hmid, hhigh⟩ := fields_timestamp s.timestamp
    obtain ⟨hseqlow, hseq⟩ := fields_sequence s.clock_sequence
    rw [hlow, hmid, hhigh, hseqlow, hseq, htime, hsequence, ← (fields_timestamp s'.timestamp).1,
      ← (fields_timestamp s'.timestamp).2.1, ← (fields_timestamp s'.timestamp).2.2,
      ← (fields_sequence s'.clock_sequence).1, ← (fields_sequence s'.clock_sequence).2]
    exact ⟨rfl, rfl, rfl, rfl, rfl, hnode⟩

/-! ## The readings -/

/-- A tick of a reading, with no more UUIDs than it may have. -/
structure Tick.Valid (t : Tick) : Prop where
  read : ∃ now, Readable now ∧ t.time_last = get_system_time now
  count : t.uuids_this_tick ≤ uuids_per_tick

/-- 60 bits tell the timestamps of all readings apart. -/
theorem Tick.Valid.timestamp_range {t : Tick} (h : t.Valid) : t.timestamp < 2 ^ 57 + 1024 ∨
    2 ^ 64 - 2 ^ 57 ≤ t.timestamp ∧ t.timestamp < 2 ^ 64 := by
  obtain ⟨⟨now, ⟨hlow, hhigh⟩, htime⟩, hcount⟩ := h
  obtain ⟨time, count⟩ := t
  simp only [get_system_time, Tick.timestamp, uuids_per_tick] at *
  generalize now + uuid_base_time = x at *
  have hdiv : -2 ^ 57 < x.tdiv 100 ∧ x.tdiv 100 < 2 ^ 57 := by
    rcases Int.le_total 0 x with hx | hx
    · rw [Int.tdiv_eq_ediv_of_nonneg hx]
      omega
    · have hneg : x.tdiv 100 = -((-x) / 100) := by
        rw [← Int.tdiv_eq_ediv_of_nonneg (by omega), Int.neg_tdiv, Int.neg_neg]
      omega
  generalize x.tdiv 100 = y at *
  omega

theorem Tick.Valid.timestamp_inj {t t' : Tick} (h : t.Valid) (h' : t'.Valid) :
    t.timestamp % 2 ^ 60 = t'.timestamp % 2 ^ 60 ↔ t.timestamp = t'.timestamp := by
  have ht := h.timestamp_range
  have ht' := h'.timestamp_range
  omega

/-- One UUID after the other: at the same reading, or at a new one. -/
def Tick.Goes (t t' : Tick) : Prop :=
  t'.time_last = t.time_last ∧ t'.uuids_this_tick = t.uuids_this_tick + 1 ∨
    t'.time_last ≠ t.time_last ∧ t'.uuids_this_tick = 0

/-- The new reading is ahead by exactly the UUIDs that were made behind the first. -/
def Tick.Meets (t t' : Tick) : Prop := t'.time_last ≠ t.time_last ∧ t'.time_last = t.timestamp

theorem Tick.next_goes {t t' : Tick} {readings left : List Nat}
    (hread : ∀ r ∈ readings, ∃ now, Readable now ∧ r = get_system_time now)
    (h : t.next readings = some (t', left)) :
    t'.Valid ∧ t.Goes t' ∧ ∀ r ∈ left, r ∈ readings := by
  induction readings with
  | nil => cases h
  | cons time_now readings ih =>
    rw [List.forall_mem_cons] at hread
    unfold next at h
    split at h
    · rename_i hnew
      obtain ⟨rfl, rfl⟩ := Prod.mk.inj (Option.some.inj h)
      exact ⟨⟨hread.1, Nat.zero_le _⟩, .inr ⟨Ne.symm hnew, rfl⟩, fun r hr => .tail _ hr⟩
    · rename_i hsame
      have hsame : t.time_last = time_now := not_not.mp hsame
      split at h
      · rename_i hroom
        obtain ⟨rfl, rfl⟩ := Prod.mk.inj (Option.some.inj h)
        exact ⟨⟨hread.1, hroom⟩, .inl ⟨hsame.symm, rfl⟩, fun r hr => .tail _ hr⟩
      · obtain ⟨hvalid, hgoes, hleft⟩ := ih hread.2 h
        exact ⟨hvalid, hgoes, fun r hr => .tail _ (hleft r hr)⟩

/-- The timestamps of two UUIDs in a row are the same only if the readings meet. -/
theorem Tick.Goes.timestamp_eq_iff {t t' : Tick} (h : t.Goes t') (ht' : t'.Valid) :
    t'.timestamp = t.timestamp ↔ t.Meets t' := by
  have hlt : t'.time_last < 2 ^ 64 := by
    obtain ⟨now, -, hnow⟩ := ht'.read
    rw [hnow]
    unfold get_system_time
    omega
  rcases h with ⟨htime, hcount⟩ | ⟨htime, hcount⟩
  · constructor
    · unfold timestamp
      rw [htime, hcount]
      intro heq
      omega
    · exact fun hmeets => absurd htime hmeets.1
  · have hzero : t'.timestamp = t'.time_last := by
      unfold timestamp
      rw [hcount, Nat.add_zero, Nat.mod_eq_of_lt hlt]
    rw [hzero]
    exact ⟨fun heq => ⟨htime, heq⟩, And.right⟩

/-- How often a timestamp is below the one before it. -/
def falls : List Tick → Nat
  | t :: t' :: ticks => (if t'.timestamp < t.timestamp then 1 else 0) + falls (t' :: ticks)
  | _ => 0

/-- Without a fall the timestamps go up, if no readings meet. -/
theorem timestamp_lt_of_falls {t t' : Tick} {between : List Tick}
    (hgoes : (t :: (between ++ [t'])).IsChain (fun t t' => t'.timestamp ≠ t.timestamp))
    (hfalls : falls (t :: (between ++ [t'])) = 0) : t.timestamp < t'.timestamp := by
  induction between generalizing t with
  | nil =>
    have hne := (List.isChain_cons_cons.mp hgoes).1
    simp only [falls, List.nil_append] at hfalls
    split at hfalls
    · cases hfalls
    · omega
  | cons u between ih =>
    rw [List.cons_append] at hgoes hfalls
    obtain ⟨hne, hgoes⟩ := List.isChain_cons_cons.mp hgoes
    simp only [falls] at hfalls
    split at hfalls
    · omega
    · have hlt := ih hgoes (by omega)
      omega

/-! ## The calls -/

namespace UuidFactory

variable {m : Machine} {f f' : UuidFactory} {readings left : List Nat} {fs : List UuidFactory}

/-- The factory has made a UUID. -/
structure Made (m : Machine) (f : UuidFactory) : Prop where
  tick : f.tick = some f.last_tick
  valid : f.last_tick.Valid
  timestamp : f.state_.timestamp = f.last_tick.timestamp
  node : f.state_.node = m.node
  was_read : f.was_read = true

/-- It has made another one. -/
structure Follows (f f' : UuidFactory) : Prop where
  goes : f.last_tick.Goes f'.last_tick
  sequence : f'.state_.clock_sequence % 2 ^ 14 =
    (f.state_.clock_sequence + falls [f.last_tick, f'.last_tick]) % 2 ^ 14

theorem next_sequence_of_made (hf : Made m f) (timestamp : Nat) : f.next_sequence m timestamp =
    if timestamp < f.last_tick.timestamp then (f.state_.clock_sequence + 1) % 2 ^ 16
    else f.state_.clock_sequence := by
  have hread : f.read_state m = (true, f.state_) := if_pos hf.was_read
  unfold next_sequence
  rw [hread, ← hf.timestamp]
  simp [hf.node]

theorem create_follows (hf : Made m f)
    (hread : ∀ r ∈ readings, ∃ now, Readable now ∧ r = get_system_time now)
    (h : f.create m readings = some (f', left)) :
    Made m f' ∧ Follows f f' ∧ ∀ r ∈ left, r ∈ readings := by
  unfold create at h
  rw [hf.tick] at h
  obtain ⟨⟨tick, left'⟩, hnext, h⟩ := Option.bind_eq_some_iff.mp h
  obtain ⟨hvalid, hgoes, hleft⟩ := Tick.next_goes hread hnext
  obtain ⟨rfl, rfl⟩ := Prod.mk.inj (Option.some.inj h)
  refine ⟨⟨rfl, hvalid, rfl, rfl, rfl⟩, ⟨hgoes, ?_⟩, hleft⟩
  show f.next_sequence m tick.timestamp % 2 ^ 14 =
    (f.state_.clock_sequence + falls [f.last_tick, tick]) % 2 ^ 14
  rw [next_sequence_of_made hf]
  simp only [falls, Nat.add_zero]
  split
  · omega
  · rfl

theorem create_first (hread : ∀ r ∈ readings, ∃ now, Readable now ∧ r = get_system_time now)
    (h : new.create m readings = some (f', left)) : Made m f' ∧ ∀ r ∈ left, r ∈ readings := by
  unfold create at h
  obtain ⟨⟨tick, left'⟩, hcurrent, h⟩ := Option.bind_eq_some_iff.mp h
  obtain ⟨rfl, rfl⟩ := Prod.mk.inj (Option.some.inj h)
  clear h
  cases readings with
  | nil => cases hcurrent
  | cons r readings =>
    rw [List.forall_mem_cons] at hread
    obtain ⟨hvalid, -, hleft⟩ := Tick.next_goes hread.2 hcurrent
    exact ⟨⟨rfl, hvalid, rfl, rfl, rfl⟩, fun r hr => .tail _ (hleft r hr)⟩

theorem creates_chain {n : Nat} (hf : Made m f)
    (hread : ∀ r ∈ readings, ∃ now, Readable now ∧ r = get_system_time now)
    (h : creates m n f readings = some fs) :
    (f :: fs).IsChain Follows ∧ ∀ g ∈ f :: fs, Made m g := by
  induction n generalizing f readings fs with
  | zero =>
    obtain rfl := Option.some.inj h
    exact ⟨.singleton f, fun g hg => List.eq_of_mem_singleton hg ▸ hf⟩
  | succ n ih =>
    obtain ⟨⟨f', left⟩, hcreate, h⟩ := Option.bind_eq_some_iff.mp h
    obtain ⟨fs', hrest, h⟩ := Option.bind_eq_some_iff.mp h
    obtain rfl := Option.some.inj h
    obtain ⟨hf', hfollows, hleft⟩ := create_follows hf hread hcreate
    obtain ⟨hchain, hmade⟩ := ih hf' (fun r hr => hread r (hleft r hr)) hrest
    exact ⟨List.isChain_cons_cons.mpr ⟨hfollows, hchain⟩, List.forall_mem_cons.mpr ⟨hf, hmade⟩⟩

/-- Calls from the start of the process on. -/
theorem creates_new {n : Nat}
    (hread : ∀ r ∈ readings, ∃ now, Readable now ∧ r = get_system_time now)
    (h : creates m n new readings = some fs) : fs.IsChain Follows ∧ ∀ g ∈ fs, Made m g := by
  cases n with
  | zero =>
    obtain rfl := Option.some.inj h
    exact ⟨.nil, fun g hg => by cases hg⟩
  | succ n =>
    obtain ⟨⟨f, left⟩, hcreate, h⟩ := Option.bind_eq_some_iff.mp h
    obtain ⟨fs', hrest, h⟩ := Option.bind_eq_some_iff.mp h
    obtain rfl := Option.some.inj h
    obtain ⟨hf, hleft⟩ := create_first hread hcreate
    exact creates_chain hf (fun r hr => hread r (hleft r hr)) hrest

/-- Each fall is a step of the clock sequence. -/
theorem sequence_of_chain {between : List UuidFactory}
    (hchain : (f :: (between ++ [f'])).IsChain Follows) : f'.state_.clock_sequence % 2 ^ 14 =
      (f.state_.clock_sequence +
        falls ((f :: (between ++ [f'])).map last_tick)) % 2 ^ 14 := by
  induction between generalizing f with
  | nil => exact (List.isChain_cons_cons.mp hchain).1.sequence
  | cons g between ih =>
    obtain ⟨hfollows, hchain⟩ := List.isChain_cons_cons.mp hchain
    have hfirst := hfollows.sequence
    have hrest := ih hchain
    simp only [falls, Nat.add_zero, List.map_cons, List.cons_append] at hfirst hrest ⊢
    omega

/-- Two UUIDs are the same if they have the same timestamp, and the sequence has come around. -/
theorem uuid_eq_iff {between : List UuidFactory}
    (hchain : (f :: (between ++ [f'])).IsChain Follows) (hf : Made m f) (hf' : Made m f') :
    f.uuid = f'.uuid ↔ f.last_tick.timestamp = f'.last_tick.timestamp ∧
      falls ((f :: (between ++ [f'])).map last_tick) % 2 ^ 14 = 0 := by
  have hsequence := sequence_of_chain hchain
  unfold uuid
  rw [format_uuid_v1_inj (hf.node.trans hf'.node.symm), hf.timestamp, hf'.timestamp,
    hf.valid.timestamp_inj hf'.valid]
  refine and_congr_right fun _ => ?_
  omega

end UuidFactory

/-- No reading meets the one before it. And where a timestamp comes back that was fallen below, the
falls are no multiple of the 2^14 clock sequences. -/
structure Apart (ticks : List Tick) : Prop where
  meets : ticks.IsChain (fun t t' => ¬ t.Meets t')
  returns : ∀ t between t', t :: (between ++ [t']) <:+: ticks → t.timestamp = t'.timestamp →
    0 < falls (t :: (between ++ [t'])) → falls (t :: (between ++ [t'])) % 2 ^ 14 ≠ 0

/-- A relation on all pairs of a list, with what stands between them. -/
theorem pairwise_iff_between {α : Type} {R : α → α → Prop} {l : List α} :
    l.Pairwise R ↔ ∀ a between b, a :: (between ++ [b]) <:+: l → R a b := by
  rw [List.pairwise_iff_forall_infix]
  constructor
  · intro h a between b hpart
    have hab := h (a :: (between ++ [b])) (by simp) hpart
    simpa using hab
  · intro h l' hlen hpart
    obtain ⟨a, rest, rfl⟩ := List.exists_cons_of_length_pos (Nat.lt_of_succ_lt hlen)
    have hrest : rest ≠ [] := by
      rintro rfl
      simp at hlen
    rw [← List.dropLast_append_getLast hrest] at hpart
    have hab := h a rest.dropLast (rest.getLast hrest) hpart
    simpa [List.getLast_cons hrest] using hab

/-- A stretch of the ticks is one of the calls. -/
theorem infix_map_last_tick {t t' : Tick} {between : List Tick} {fs : List UuidFactory}
    (h : t :: (between ++ [t']) <:+: fs.map UuidFactory.last_tick) :
    ∃ f mid f', f :: (mid ++ [f']) <:+: fs ∧ t = f.last_tick ∧ t' = f'.last_tick ∧
      t :: (between ++ [t']) = (f :: (mid ++ [f'])).map UuidFactory.last_tick := by
  obtain ⟨before, after, h⟩ := h
  obtain ⟨front, rear, rfl, hfront, -⟩ := List.map_eq_append_iff.mp h.symm
  obtain ⟨start, stretch, rfl, -, hstretch⟩ := List.map_eq_append_iff.mp hfront
  obtain ⟨f, rest, rfl, rfl, hrest⟩ := List.map_eq_cons_iff.mp hstretch
  obtain ⟨mid, last, rfl, -, hlast⟩ := List.map_eq_append_iff.mp hrest
  obtain ⟨f', rfl, rfl⟩ := List.map_eq_singleton_iff.mp hlast
  exact ⟨f, mid, f', ⟨start, rear, rfl⟩, rfl, rfl, hstretch.symm⟩

/-- No readings meet exactly if no two timestamps in a row are the same. -/
theorem meets_iff {m : Machine} {fs : List UuidFactory} (hchain : fs.IsChain UuidFactory.Follows)
    (hmade : ∀ f ∈ fs, UuidFactory.Made m f) :
    (fs.map UuidFactory.last_tick).IsChain (fun t t' => ¬ t.Meets t') ↔
      (fs.map UuidFactory.last_tick).IsChain (fun t t' => t'.timestamp ≠ t.timestamp) := by
  rw [List.isChain_map, List.isChain_map, List.isChain_iff_forall_rel_of_append_cons_cons,
    List.isChain_iff_forall_rel_of_append_cons_cons]
  refine forall₄_congr fun f f' before after => forall_congr' fun heq => not_congr ?_
  have hfollows := List.isChain_iff_forall_rel_of_append_cons_cons.mp hchain heq
  exact (hfollows.goes.timestamp_eq_iff (hmade f' (by rw [heq]; simp)).valid).symm

/-- All UUIDs that a process makes are distinct exactly if its readings keep apart. -/
theorem the_uuids_are_distinct_iff (m : Machine) (nows : List Int)
    (hnows : ∀ now ∈ nows, Readable now) (n : Nat) (fs : List UuidFactory)
    (h : UuidFactory.creates m n .new (nows.map get_system_time) = some fs) :
    (fs.map UuidFactory.uuid).Nodup ↔ Apart (fs.map UuidFactory.last_tick) := by
  have hread : ∀ r ∈ nows.map get_system_time, ∃ now, Readable now ∧ r = get_system_time now := by
    intro r hr
    obtain ⟨now, hnow, rfl⟩ := List.mem_map.mp hr
    exact ⟨now, hnows now hnow, rfl⟩
  obtain ⟨hchain, hmade⟩ := UuidFactory.creates_new hread h
  have hne : (fs.map UuidFactory.uuid).Nodup ↔ ∀ f mid f', f :: (mid ++ [f']) <:+: fs →
      ¬ (f.last_tick.timestamp = f'.last_tick.timestamp ∧
        falls ((f :: (mid ++ [f'])).map UuidFactory.last_tick) % 2 ^ 14 = 0) := by
    rw [List.Nodup, List.pairwise_map, pairwise_iff_between]
    refine forall₃_congr fun f mid f' => forall_congr' fun hpart => not_congr ?_
    have hall : ∀ g ∈ f :: (mid ++ [f']), UuidFactory.Made m g :=
      fun g hg => hmade g (hpart.subset hg)
    exact UuidFactory.uuid_eq_iff ( List.IsChain.infix hchain hpart) (hall f (by simp))
      (hall f' (by simp))
  rw [hne]
  constructor
  · intro hdistinct
    refine ⟨?_, ?_⟩
    · rw [meets_iff hchain hmade, List.isChain_map,
        List.isChain_iff_forall_rel_of_append_cons_cons]
      intro f f' before after heq hsame
      apply hdistinct f [] f' ⟨before, after, by rw [heq]; simp⟩
      refine ⟨hsame.symm, ?_⟩
      simp [falls, hsame]
    · intro t between t' hpart hsame _ hzero
      obtain ⟨f, mid, f', hstretch, rfl, rfl, heq⟩ := infix_map_last_tick hpart
      rw [heq] at hzero
      exact hdistinct f mid f' hstretch ⟨hsame, hzero⟩
  · intro hapart f mid f' hpart
    rintro ⟨hsame, hzero⟩
    have hticks := hpart.map UuidFactory.last_tick
    have hmeets := (meets_iff hchain hmade).mp hapart.meets
    have hne := List.IsChain.infix hmeets hticks
    simp only [List.map_cons, List.map_append, List.map_nil] at hticks hne hzero
    rcases Nat.eq_zero_or_pos (falls (f.last_tick :: (mid.map UuidFactory.last_tick ++
      [f'.last_tick]))) with hnone | hsome
    · have hlt := timestamp_lt_of_falls hne hnone
      omega
    · exact hapart.returns _ _ _ hticks hsame hsome hzero

/-- A machine without a file. -/
def a_machine : Machine := ⟨.replicate 6 1, none, 0⟩

theorem two_uuids_of_two_readings_are_distinct_iff :
    ∃ fs, UuidFactory.creates a_machine 2 .new ([0, 100, 200].map get_system_time) = some fs ∧
      ((fs.map UuidFactory.uuid).Nodup ↔ Apart (fs.map UuidFactory.last_tick)) := by
  refine ⟨_, rfl, ?_⟩
  refine the_uuids_are_distinct_iff a_machine [0, 100, 200] ?_ 2 _ rfl
  intro now hnow
  simp only [List.mem_cons, List.not_mem_nil, or_false] at hnow
  rcases hnow with rfl | rfl | rfl <;> exact ⟨by decide, by decide⟩

/-- Two UUIDs at one reading and one at the next: the readings meet, and the last two UUIDs are the
same. -/
theorem readings_that_meet_repeat_a_uuid :
    ∃ fs, UuidFactory.creates a_machine 3 .new ([0, 100, 100, 200].map get_system_time) = some fs ∧
      ¬ (fs.map UuidFactory.uuid).Nodup := by
  refine ⟨_, rfl, ?_⟩
  decide

/-! ## A clock that does not go back -/

/-- A clock that does not go back is ahead by as many readings as there are falls. -/
theorem falls_of_forward {t t' : Tick} {between : List Tick}
    (hvalid : ∀ u ∈ t :: (between ++ [t']), u.Valid ∧ u.time_last < 2 ^ 63)
    (hgoes : (t :: (between ++ [t'])).IsChain Tick.Goes)
    (hforward : (t :: (between ++ [t'])).IsChain (fun t t' => t.time_last ≤ t'.time_last)) :
    t.time_last + falls (t :: (between ++ [t'])) ≤ t'.time_last := by
  have hstep {u u' : Tick} (hu : u.Valid ∧ u.time_last < 2 ^ 63) (hu' : u'.time_last < 2 ^ 63)
      (hgo : u.Goes u') (hle : u.time_last ≤ u'.time_last) :
      u.time_last + (if u'.timestamp < u.timestamp then 1 else 0) ≤ u'.time_last := by
    have hcount := hu.1.count
    unfold uuids_per_tick at hcount
    split
    · rename_i hfall
      rcases hgo with ⟨htime, hnext⟩ | ⟨htime, -⟩
      · unfold Tick.timestamp at hfall
        omega
      · omega
    · omega
  induction between generalizing t with
  | nil =>
    simp only [List.nil_append, List.forall_mem_cons] at hvalid
    have hone := hstep hvalid.1 hvalid.2.1.2 (List.isChain_cons_cons.mp hgoes).1
      (List.isChain_cons_cons.mp hforward).1
    simpa [falls] using hone
  | cons u between ih =>
    rw [List.cons_append] at hvalid hgoes hforward
    obtain ⟨hgo, hgoes⟩ := List.isChain_cons_cons.mp hgoes
    obtain ⟨hle, hforward⟩ := List.isChain_cons_cons.mp hforward
    rw [List.forall_mem_cons] at hvalid
    have hone := hstep hvalid.1 (hvalid.2 u List.mem_cons_self).2 hgo hle
    have hrest := ih hvalid.2 hgoes hforward
    simp only [List.cons_append, falls]
    omega

/-- With such a clock it is enough that no readings meet, however many UUIDs are made. -/
theorem apart_of_forward {ticks : List Tick} (hvalid : ∀ t ∈ ticks, t.Valid ∧ t.time_last < 2 ^ 63)
    (hgoes : ticks.IsChain Tick.Goes)
    (hforward : ticks.IsChain (fun t t' => t.time_last ≤ t'.time_last)) :
    Apart ticks ↔ ticks.IsChain (fun t t' => ¬ t.Meets t') := by
  refine ⟨Apart.meets, fun hmeets => ⟨hmeets, ?_⟩⟩
  intro t between t' hpart hsame hpos
  have hstretch : ∀ u ∈ t :: (between ++ [t']), u.Valid ∧ u.time_last < 2 ^ 63 :=
    fun u hu => hvalid u (hpart.subset hu)
  have hfalls := falls_of_forward hstretch ( List.IsChain.infix hgoes hpart)
    ( List.IsChain.infix hforward hpart)
  have ht := hstretch t List.mem_cons_self
  have ht' := hstretch t' (by simp)
  have hcount := ht.1.count
  have hcount' := ht'.1.count
  unfold Tick.timestamp at hsame
  unfold uuids_per_tick at hcount hcount'
  generalize falls (t :: (between ++ [t'])) = n at *
  omega

end util
