-- What a reader takes from a buffer: the bytes between two indexes, the
-- grammar that a reader follows, and the items that a loop reads one after
-- another. Nothing here is about the proxy.
import Aether.Lib.Cursor
import Mathlib.Data.List.Basic

namespace lib.cursor

variable {ε α β σ ι γ : Type}

/-! ## Bytes between two indexes -/

/-- The bytes `bs` lie in a buffer from `i` to `j`. -/
structure Spans (raw : List γ) (i : Nat) (bs : List γ) (j : Nat) : Prop where
  drop : raw.drop i = bs ++ raw.drop j
  stop : j = i + bs.length
  le : j ≤ raw.length

variable {raw bs bs' : List γ} {i j k : Nat}

theorem spans_nil : Spans raw i [] j ↔ i = j ∧ j ≤ raw.length := by
  constructor
  · intro h
    exact ⟨h.stop.symm, h.le⟩
  · rintro ⟨rfl, hle⟩
    exact ⟨rfl, rfl, hle⟩

theorem Spans.start_le (h : Spans raw i bs j) : i ≤ j := by
  rw [h.stop]
  exact Nat.le_add_right _ _

theorem Spans.append (h : Spans raw i bs j) (h' : Spans raw j bs' k) :
    Spans raw i (bs ++ bs') k where
  drop := by rw [h.drop, h'.drop, List.append_assoc]
  stop := by rw [h'.stop, h.stop, List.length_append, Nat.add_assoc]
  le := h'.le

theorem spans_append :
    Spans raw i (bs ++ bs') k ↔ ∃ j, Spans raw i bs j ∧ Spans raw j bs' k := by
  constructor
  · intro h
    have hstop := h.stop
    rw [List.length_append] at hstop
    have hdrop : raw.drop (i + bs.length) = bs' ++ raw.drop k := by
      rw [← List.drop_drop, h.drop, List.append_assoc, List.drop_left]
    have hle := h.le
    refine ⟨i + bs.length, ⟨?_, rfl, by omega⟩, ⟨hdrop, by omega, hle⟩⟩
    rw [hdrop, ← List.append_assoc, h.drop]
  · rintro ⟨j, h, h'⟩
    exact h.append h'

/-- The bytes from an index on, as many as there are between two indexes. -/
theorem spans_iff : Spans raw i bs j ↔
    (raw.drop i).take bs.length = bs ∧ j = i + bs.length ∧ j ≤ raw.length := by
  constructor
  · intro h
    refine ⟨?_, h.stop, h.le⟩
    rw [h.drop, List.take_left]
  · rintro ⟨htake, rfl, hle⟩
    refine ⟨?_, rfl, hle⟩
    conv => lhs; rw [← List.take_append_drop bs.length (raw.drop i), htake, List.drop_drop]

theorem spans_take (h : i + k ≤ raw.length) : Spans raw i ((raw.drop i).take k) (i + k) := by
  have hlength : ((raw.drop i).take k).length = k := by
    rw [List.length_take, List.length_drop]
    omega
  rw [spans_iff, hlength]
  exact ⟨rfl, rfl, h⟩

/-- The whole buffer. -/
theorem spans_whole : Spans raw 0 bs raw.length ↔ bs = raw := by
  constructor
  · intro h
    have hdrop := h.drop
    rw [List.drop_zero, List.drop_length, List.append_nil] at hdrop
    exact hdrop.symm
  · rintro rfl
    exact ⟨by simp, by simp, Nat.le_refl _⟩

/-! ## Grammars -/

namespace Reader

/-- From any index, the reader returns `a` exactly when the next bytes are such that `P a` holds of
them, and it goes over them. -/
def Parses (raw : List γ) (m : Reader ε α) (P : α → List γ → Prop) : Prop :=
  ∀ i ≤ raw.length, ∀ a j, m.Gives i a j ↔ ∃ bs, P a bs ∧ Spans raw i bs j

theorem parses_pure (a : α) :
    Parses raw (pure a : Reader ε α) (fun b bs => b = a ∧ bs = []) := by
  intro i hi b j
  rw [gives_pure]
  constructor
  · rintro ⟨rfl, rfl⟩
    exact ⟨[], ⟨rfl, rfl⟩, spans_nil.mpr ⟨rfl, hi⟩⟩
  · rintro ⟨bs, ⟨rfl, rfl⟩, hs⟩
    exact ⟨rfl, (spans_nil.mp hs).1⟩

theorem Parses.bind {m : Reader ε α} {f : α → Reader ε β} {P : α → List γ → Prop}
    {Q : α → β → List γ → Prop} (hm : Parses raw m P)
    (hf : ∀ a bs, P a bs → Parses raw (f a) (Q a)) :
    Parses raw (bind m f)
      (fun b bs => ∃ a bs1 bs2, P a bs1 ∧ Q a b bs2 ∧ bs = bs1 ++ bs2) := by
  intro i hi b k
  rw [gives_bind]
  constructor
  · rintro ⟨a, j, hg, hg'⟩
    obtain ⟨bs1, hp, hs⟩ := (hm i hi a j).mp hg
    obtain ⟨bs2, hq, hs'⟩ := (hf a bs1 hp j hs.le b k).mp hg'
    exact ⟨bs1 ++ bs2, ⟨a, bs1, bs2, hp, hq, rfl⟩, hs.append hs'⟩
  · rintro ⟨bs, ⟨a, bs1, bs2, hp, hq, rfl⟩, hs⟩
    obtain ⟨j, hs, hs'⟩ := spans_append.mp hs
    exact ⟨a, j, (hm i hi a j).mpr ⟨bs1, hp, hs⟩, (hf a bs1 hp j hs.le b k).mpr ⟨bs2, hq, hs'⟩⟩

theorem Parses.congr {m : Reader ε α} {P Q : α → List γ → Prop} (hm : Parses raw m P)
    (h : ∀ a bs, P a bs ↔ Q a bs) : Parses raw m Q := by
  intro i hi a j
  simp only [hm i hi a j, h]

/-! ## Items -/

/-- Items that may come one after another, from a state on. -/
def Chain (V : σ → ι → Prop) (next : σ → ι → σ) : σ → List ι → Prop
  | _, [] => True
  | s, x :: xs => V s x ∧ Chain V next (next s x) xs

/-- Items that may come in any state. -/
theorem chain_const (V : ι → Prop) (next : σ → ι → σ) (s : σ) (xs : List ι) :
    Chain (fun _ => V) next s xs ↔ ∀ x ∈ xs, V x := by
  induction xs generalizing s with
  | nil => simp [Chain]
  | cons x xs ih => simp [Chain, ih]

/-- Each round of a loop reads an item. -/
def ReadsItem (raw : List γ) (V : σ → ι → Prop) (next : σ → ι → σ) (bytes : ι → List γ)
    (body : σ → Reader ε σ) : Prop :=
  ∀ s, Parses raw (body s) (fun s' bs => ∃ x, V s x ∧ s' = next s x ∧ bs = bytes x)

/-- The rounds that end at the bound read items up to it. -/
theorem rounds_items {V : σ → ι → Prop} {next : σ → ι → σ} {bytes : ι → List γ}
    {body : σ → Reader ε σ} (h : ReadsItem raw V next bytes body) (hne : ∀ x, bytes x ≠ [])
    {bound : Nat} (s s' : σ) (hi : i ≤ raw.length) :
    Rounds bound body s i s' j ∧ j = bound ↔
      ∃ xs, Chain V next s xs ∧ s' = xs.foldl next s ∧ Spans raw i (xs.flatMap bytes) j ∧
        j = bound := by
  constructor
  · rintro ⟨hr, hj⟩
    induction hr with
    | here s i => exact ⟨[], trivial, rfl, spans_nil.mpr ⟨rfl, hi⟩, hj⟩
    | round hb hg _ ih =>
      obtain ⟨bs, ⟨x, hx, rfl, rfl⟩, hs⟩ := (h _ _ hi _ _).mp hg
      obtain ⟨xs, hc, rfl, hs', hj⟩ := ih hs.le hj
      exact ⟨x :: xs, ⟨hx, hc⟩, rfl, hs.append hs', hj⟩
  · rintro ⟨xs, hc, rfl, hs, hj⟩
    refine ⟨?_, hj⟩
    induction xs generalizing s i with
    | nil =>
      obtain ⟨rfl, -⟩ := spans_nil.mp hs
      exact .here s i
    | cons x xs ih =>
      obtain ⟨k, hx, hs⟩ := spans_append.mp hs
      have hpos : 0 < (bytes x).length := List.length_pos_iff.mpr (hne x)
      have hk := hx.stop
      have hkj := hs.start_le
      exact .round (by omega) ((h s i hi _ k).mpr ⟨_, ⟨x, hc.1, rfl, rfl⟩, hx⟩)
        (ih _ hx.le hc.2 hs)

end Reader

end lib.cursor
