-- Maps as the list of their entries in the order of the keys, by an order that
-- computes. Two keys are the same if neither is less.
import Mathlib.Data.List.Pairwise
import Mathlib.Data.List.Perm.Basic

namespace lib.ordered_map

class WeakOrder {κ : Type} (less : κ → κ → Bool) : Prop where
  irrefl (a : κ) : less a a = false
  trans {a b c : κ} : less a b = true → less b c = true → less a c = true
  between {a c : κ} (b : κ) : less a c = true → less a b = true ∨ less b c = true

@[ext] structure OrderedMap {κ : Type} (less : κ → κ → Bool) (ν : Type) where
  entries : List (κ × ν)
  ordered : entries.Pairwise (fun e f => less e.1 f.1 = true)

section

variable {κ ν : Type} (less : κ → κ → Bool)

/-- Whether neither key is less. -/
def same (a b : κ) : Bool := !less a b && !less b a

/-- The entries with a value at a key. A value that the key has is changed. -/
def place (change : ν → ν) (key : κ) (value : ν) : List (κ × ν) → List (κ × ν)
  | [] => [(key, value)]
  | e :: entries =>
    if less key e.1 then (key, value) :: e :: entries
    else if less e.1 key then e :: place change key value entries
    else (e.1, change e.2) :: entries

variable {less}

theorem ne_of_less [WeakOrder less] {a b : κ} (h : less a b = true) : a ≠ b := by
  rintro rfl
  have hnot : less a a = false := WeakOrder.irrefl a
  rw [hnot] at h
  cases h

/-- The same key stands to others as the key does. -/
theorem same_congr [WeakOrder less] {a b : κ} (h : same less a b = true) (c : κ) :
    less a c = less b c ∧ less c a = less c b := by
  simp only [same, Bool.and_eq_true, Bool.not_eq_true'] at h
  obtain ⟨hab, hba⟩ := h
  constructor
  · apply Bool.eq_iff_iff.mpr
    constructor
    · intro hac
      simpa [hab] using WeakOrder.between b hac
    · intro hbc
      simpa [hba] using WeakOrder.between a hbc
  · apply Bool.eq_iff_iff.mpr
    constructor
    · intro hca
      simpa [hba] using WeakOrder.between b hca
    · intro hcb
      simpa [hab] using WeakOrder.between a hcb

theorem mem_place {change : ν → ν} {key : κ} {value : ν} {entries : List (κ × ν)} {e : κ × ν}
    (h : e ∈ place less change key value entries) :
    e = (key, value) ∨ e ∈ entries ∨
      ∃ f ∈ entries, same less f.1 key = true ∧ e = (f.1, change f.2) := by
  induction entries with
  | nil =>
    obtain rfl := List.mem_singleton.mp h
    exact Or.inl rfl
  | cons f entries ih =>
    unfold place at h
    split at h
    · rcases List.mem_cons.mp h with rfl | h
      · exact Or.inl rfl
      · exact Or.inr (Or.inl h)
    · rename_i hnot
      split at h
      · rcases List.mem_cons.mp h with rfl | h
        · exact Or.inr (Or.inl List.mem_cons_self)
        · rcases ih h with heq | hmem | ⟨g, hg, hsame⟩
          · exact Or.inl heq
          · exact Or.inr (Or.inl (List.mem_cons_of_mem f hmem))
          · exact Or.inr (Or.inr ⟨g, List.mem_cons_of_mem f hg, hsame⟩)
      · rename_i hnot'
        rcases List.mem_cons.mp h with rfl | h
        · exact Or.inr (Or.inr ⟨f, List.mem_cons_self, by simp [same, hnot, hnot'], rfl⟩)
        · exact Or.inr (Or.inl (List.mem_cons_of_mem f h))

theorem ordered_place [WeakOrder less] {entries : List (κ × ν)}
    (h : entries.Pairwise (fun e f => less e.1 f.1 = true)) (change : ν → ν) (key : κ) (value : ν) :
    (place less change key value entries).Pairwise (fun e f => less e.1 f.1 = true) := by
  induction entries with
  | nil => exact List.pairwise_singleton _ _
  | cons e entries ih =>
    obtain ⟨he, hentries⟩ := List.pairwise_cons.mp h
    unfold place
    split
    · rename_i hless
      refine List.pairwise_cons.mpr ⟨?_, h⟩
      intro f hf
      rcases List.mem_cons.mp hf with rfl | hf
      · exact hless
      · exact WeakOrder.trans hless (he f hf)
    · split
      · rename_i hless
        refine List.pairwise_cons.mpr ⟨?_, ih hentries⟩
        intro f hf
        rcases mem_place hf with rfl | hf | ⟨g, hg, -, rfl⟩
        · exact hless
        · exact he f hf
        · exact he g hg
      · exact List.pairwise_cons.mpr ⟨he, hentries⟩

/-- A key that is greater than all goes to the end. -/
theorem place_of_greater [WeakOrder less] {entries : List (κ × ν)} {key : κ}
    (h : ∀ e ∈ entries, less e.1 key = true) (change : ν → ν) (value : ν) :
    place less change key value entries = entries ++ [(key, value)] := by
  induction entries with
  | nil => rfl
  | cons e entries ih =>
    have he : less e.1 key = true := h e List.mem_cons_self
    have hnot : ¬ less key e.1 = true := by
      intro hless
      exact ne_of_less (WeakOrder.trans hless he) rfl
    rw [place, if_neg hnot, if_pos he, ih (fun f hf => h f (List.mem_cons_of_mem e hf))]
    rfl

/-- What is found at a key. -/
def lookup (less : κ → κ → Bool) (key : κ) (entries : List (κ × ν)) : Option ν :=
  (entries.find? (fun e => same less e.1 key)).map Prod.snd

theorem lookup_cons (less : κ → κ → Bool) (key : κ) (e : κ × ν) (entries : List (κ × ν)) :
    lookup less key (e :: entries) =
      if same less e.1 key then some e.2 else lookup less key entries := by
  unfold lookup
  rw [List.find?_cons]
  cases same less e.1 key <;> rfl

/-- What is found is the value of an entry of the key. -/
theorem lookup_eq_some_iff [WeakOrder less] {entries : List (κ × ν)}
    (h : entries.Pairwise (fun e f => less e.1 f.1 = true)) {key : κ} {value : ν} :
    lookup less key entries = some value ↔
      ∃ e ∈ entries, same less e.1 key = true ∧ e.2 = value := by
  induction entries with
  | nil => simp [lookup]
  | cons f entries ih =>
    obtain ⟨hf, hentries⟩ := List.pairwise_cons.mp h
    rw [lookup_cons]
    split
    · rename_i hsame
      have hrest : ∀ e ∈ entries, ¬ same less e.1 key = true := by
        intro e he hsame'
        have hless := hf e he
        rw [(same_congr hsame e.1).1] at hless
        simp [same, hless] at hsame'
      constructor
      · intro heq
        exact ⟨f, List.mem_cons_self, hsame, Option.some.inj heq⟩
      · rintro ⟨e, he, hsame', rfl⟩
        rcases List.mem_cons.mp he with rfl | he
        · rfl
        · exact absurd hsame' (hrest e he)
    · rename_i hnot
      rw [ih hentries]
      constructor
      · rintro ⟨e, he, hsame, heq⟩
        exact ⟨e, List.mem_cons_of_mem f he, hsame, heq⟩
      · rintro ⟨e, he, hsame, heq⟩
        rcases List.mem_cons.mp he with rfl | he
        · exact absurd hsame hnot
        · exact ⟨e, he, hsame, heq⟩

/-- A value that takes the place of the one before is found at its key, and what other keys have is
as before. -/
theorem lookup_place [WeakOrder less] (key key' : κ) (value : ν) (entries : List (κ × ν)) :
    lookup less key' (place less (fun _ => value) key value entries) =
      if same less key key' then some value else lookup less key' entries := by
  induction entries with
  | nil => exact lookup_cons less key' (key, value) []
  | cons e entries ih =>
    unfold place
    split
    · exact lookup_cons less key' (key, value) (e :: entries)
    · rename_i hnot
      split
      · rename_i hless
        rw [lookup_cons, lookup_cons, ih]
        split
        · rename_i hsame
          have hkey : ¬ same less key key' = true := by
            intro hkey
            rw [(same_congr hkey e.1).2] at hless
            simp [same, hless] at hsame
          rw [if_neg hkey]
        · rfl
      · rename_i hnot'
        have hsame : same less e.1 key = true := by simp [same, hnot, hnot']
        have hcongr := same_congr hsame key'
        rw [lookup_cons, lookup_cons]
        simp only [same, hcongr.1, hcongr.2]
        split
        · rfl
        · rfl

end

namespace OrderedMap

variable {κ ν : Type} {less : κ → κ → Bool}

instance [DecidableEq κ] [DecidableEq ν] : DecidableEq (OrderedMap less ν) :=
  fun _ _ => decidable_of_iff _ OrderedMap.ext_iff.symm

instance [Repr κ] [Repr ν] : Repr (OrderedMap less ν) := ⟨fun m n => reprPrec m.entries n⟩

def empty : OrderedMap less ν := ⟨[], List.Pairwise.nil⟩

def find (m : OrderedMap less ν) (key : κ) : Option ν := lookup less key m.entries

/-- The entries of a map, put into an empty one in their order, are the map. -/
theorem refill {put : OrderedMap less ν → κ → ν → OrderedMap less ν}
    (hput : ∀ m key value, (∀ e ∈ m.entries, less e.1 key = true) →
      (put m key value).entries = m.entries ++ [(key, value)])
    (m : OrderedMap less ν) : m.entries.foldl (fun n e => put n e.1 e.2) empty = m := by
  have hrest : ∀ (rest : List (κ × ν)) (n : OrderedMap less ν), n.entries ++ rest = m.entries →
      rest.foldl (fun n e => put n e.1 e.2) n = m := by
    intro rest
    induction rest with
    | nil =>
      intro n hn
      rw [List.append_nil] at hn
      exact OrderedMap.ext hn
    | cons e rest ih =>
      intro n hn
      have hordered := m.ordered
      rw [← hn] at hordered
      have hless : ∀ f ∈ n.entries, less f.1 e.1 = true :=
        fun f hf => (List.pairwise_append.mp hordered).2.2 f hf e List.mem_cons_self
      apply ih
      rw [hput n e.1 e.2 hless, List.append_assoc]
      exact hn
  exact hrest m.entries empty rfl

variable [WeakOrder less]

theorem find_eq_some_iff {m : OrderedMap less ν} {key : κ} {value : ν} :
    m.find key = some value ↔ ∃ e ∈ m.entries, same less e.1 key = true ∧ e.2 = value :=
  lookup_eq_some_iff m.ordered

/-- A value that the key has stays. -/
def emplace (m : OrderedMap less ν) (key : κ) (value : ν) : OrderedMap less ν :=
  ⟨place less id key value m.entries, ordered_place m.ordered id key value⟩

def insert_or_assign (m : OrderedMap less ν) (key : κ) (value : ν) : OrderedMap less ν :=
  ⟨place less (fun _ => value) key value m.entries, ordered_place m.ordered _ key value⟩

theorem find_insert_or_assign (m : OrderedMap less ν) (key key' : κ) (value : ν) :
    (m.insert_or_assign key value).find key' =
      if same less key key' then some value else m.find key' :=
  lookup_place key key' value m.entries

/-- A key that is greater than all goes to the end. -/
theorem emplace_of_greater {m : OrderedMap less ν} {key : κ}
    (h : ∀ e ∈ m.entries, less e.1 key = true) (value : ν) :
    (m.emplace key value).entries = m.entries ++ [(key, value)] := place_of_greater h id value

/-- The entry of a key is taken out, if there is one. -/
def erase (m : OrderedMap less ν) (key : κ) : OrderedMap less ν :=
  ⟨m.entries.filter (fun e => !same less e.1 key), m.ordered.filter _⟩

theorem refill_emplace (m : OrderedMap less ν) :
    m.entries.foldl (fun n e => n.emplace e.1 e.2) empty = m :=
  refill (fun _ _ value h => place_of_greater h id value) m

theorem refill_insert_or_assign (m : OrderedMap less ν) :
    m.entries.foldl (fun n e => n.insert_or_assign e.1 e.2) empty = m :=
  refill (fun _ _ value h => place_of_greater h _ value) m

/-- Where keys that are the same are equal, maps that find the same values are the same. -/
theorem ext_of_find (hsame : ∀ {a b : κ}, same less a b = true → a = b) {m n : OrderedMap less ν}
    (h : ∀ key, m.find key = n.find key) : m = n := by
  have hmem (m : OrderedMap less ν) (e : κ × ν) : e ∈ m.entries ↔ m.find e.1 = some e.2 := by
    rw [find_eq_some_iff]
    constructor
    · intro he
      exact ⟨e, he, by simp [same, @WeakOrder.irrefl _ less _ e.1], rfl⟩
    · rintro ⟨f, hf, hkey, hvalue⟩
      rwa [← Prod.ext (hsame hkey) hvalue]
  have hnodup (m : OrderedMap less ν) : m.entries.Nodup :=
    m.ordered.imp fun hless heq => ne_of_less hless (congrArg Prod.fst heq)
  have hperm : m.entries.Perm n.entries :=
    (List.perm_ext_iff_of_nodup (hnodup m) (hnodup n)).mpr fun e => by rw [hmem, hmem, h]
  refine OrderedMap.ext (hperm.eq_of_pairwise ?_ m.ordered n.ordered)
  intro e f _ _ hef hfe
  exact absurd rfl (ne_of_less (WeakOrder.trans hef hfe))

end OrderedMap

end lib.ordered_map
