-- Readers that walk over a buffer with an index, as code does that checks some
-- of its accesses and not others. A run keeps all the accesses that it makes,
-- and stops at the first that is out of bounds. Nothing here is about the proxy.
import Mathlib.Tactic.Common

namespace lib.cursor

/-! ## Runs -/

inductive Access where
  | read (i : Nat)
  /-- A copy of the range from `first` to `last`. -/
  | copy (first last : Nat)
  /-- The index is set from `i` to `j`. -/
  | move (i j : Nat)
  deriving DecidableEq, Repr

/-- An access that keeps to a buffer of `n` bytes, and goes forwards. -/
def Access.Good (n : Nat) : Access → Prop
  | read i => i < n
  | copy first last => first ≤ last ∧ last ≤ n
  | move i j => i ≤ j

/-- How a run stops early. -/
inductive Stop (ε : Type) where
  | error (e : ε)
  /-- An access out of bounds. -/
  | fault
  /-- A loop that was out of fuel. -/
  | unfinished
  deriving DecidableEq, Repr

/-- What a run leaves: the index, the accesses, and the value. -/
structure Read (ε α : Type) where
  index : Nat
  accesses : List Access
  value : Except (Stop ε) α

/-- A reader runs from an index. -/
def Reader (ε α : Type) := Nat → Read ε α

variable {ε α β σ : Type}

namespace Reader

def pure (a : α) : Reader ε α := fun i => ⟨i, [], .ok a⟩

def fail (e : ε) : Reader ε α := fun i => ⟨i, [], .error (.error e)⟩

def bind (m : Reader ε α) (f : α → Reader ε β) : Reader ε β := fun i =>
  match (m i).value with
  | .error s => ⟨(m i).index, (m i).accesses, .error s⟩
  | .ok a =>
    ⟨(f a (m i).index).index, (m i).accesses ++ (f a (m i).index).accesses,
      (f a (m i).index).value⟩

instance : Monad (Reader ε) where
  pure := pure
  bind := bind

/-- `while (index < bound) body`, for at most `fuel` rounds. -/
def loop (bound : Nat) (body : σ → Reader ε σ) : Nat → σ → Reader ε σ
  | 0, _ => fun i => ⟨i, [], .error .unfinished⟩
  | fuel + 1, s => fun i =>
    if i < bound then bind (body s) (loop bound body fuel) i else pure s i

/-! ## What a run does -/

/-- The run makes an access out of bounds. -/
def Faults (m : Reader ε α) (i : Nat) : Prop := (m i).value = .error .fault

/-- The run returns `a` at index `j`. -/
def Gives (m : Reader ε α) (i : Nat) (a : α) (j : Nat) : Prop :=
  (m i).value = .ok a ∧ (m i).index = j

@[simp] theorem pure_eq (a : α) : (Pure.pure a : Reader ε α) = pure a := rfl

@[simp] theorem bind_eq (m : Reader ε α) (f : α → Reader ε β) : (m >>= f) = bind m f := rfl

@[simp] theorem faults_pure (a : α) (i : Nat) : ¬ Faults (pure a : Reader ε α) i := by
  intro h; cases h

@[simp] theorem faults_fail (e : ε) (i : Nat) : ¬ Faults (fail e : Reader ε α) i := by
  intro h; cases h

@[simp] theorem gives_pure (a b : α) (i j : Nat) :
    Gives (pure a : Reader ε α) i b j ↔ a = b ∧ i = j := by
  simp [Gives, pure]

@[simp] theorem gives_fail (e : ε) (b : α) (i j : Nat) : ¬ Gives (fail e : Reader ε α) i b j := by
  rintro ⟨h, -⟩; cases h

theorem faults_bind (m : Reader ε α) (f : α → Reader ε β) (i : Nat) :
    Faults (bind m f) i ↔ Faults m i ∨ ∃ a j, Gives m i a j ∧ Faults (f a) j := by
  unfold Faults Gives bind
  cases h : (m i).value with
  | error s => simp
  | ok a =>
    constructor
    · intro hf
      exact .inr ⟨a, _, ⟨rfl, rfl⟩, hf⟩
    · rintro (hf | ⟨a', j, ⟨ha, rfl⟩, hf⟩)
      · cases hf
      · cases ha; exact hf

theorem gives_bind (m : Reader ε α) (f : α → Reader ε β) (i k : Nat) (b : β) :
    Gives (bind m f) i b k ↔ ∃ a j, Gives m i a j ∧ Gives (f a) j b k := by
  unfold Gives bind
  cases h : (m i).value with
  | error s => simp
  | ok a =>
    constructor
    · intro hf
      exact ⟨a, _, ⟨rfl, rfl⟩, hf⟩
    · rintro ⟨a', j, ⟨ha, rfl⟩, hf⟩
      cases ha; exact hf

/-! ## Readers that keep to a buffer until they fault -/

/-- From index `i` of a buffer of `n` bytes the run goes forwards in it, and ends. All its accesses
are good, unless it ends with a fault: then one of them is not. -/
structure SoundAt (n : Nat) (m : Reader ε α) (i : Nat) : Prop where
  good : ¬ Faults m i → ∀ x ∈ (m i).accesses, x.Good n
  bad : Faults m i → ∃ x ∈ (m i).accesses, ¬ x.Good n
  forwards : ∀ a j, Gives m i a j → i ≤ j ∧ j ≤ n
  ends : (m i).value ≠ .error .unfinished

/-- From any index of the buffer. -/
def Sound (n : Nat) (m : Reader ε α) : Prop := ∀ i ≤ n, SoundAt n m i

variable {n : Nat}

theorem sound_pure (a : α) : Sound n (pure a : Reader ε α) := by
  intro i hi
  refine ⟨fun _ x hx => ?_, fun h => ?_, fun b j h => ?_, fun h => ?_⟩
  · cases hx
  · cases h
  · obtain ⟨-, rfl⟩ := h
    exact ⟨Nat.le_refl _, hi⟩
  · cases h

theorem sound_fail (e : ε) : Sound n (fail e : Reader ε α) := by
  intro i _
  exact ⟨fun _ x hx => (by cases hx), fun h => (by cases h), fun b j h => (by cases h.1),
    fun h => by cases h⟩

theorem SoundAt.bind {m : Reader ε α} {f : α → Reader ε β} {i : Nat} (hm : SoundAt n m i)
    (hf : ∀ a j, Gives m i a j → SoundAt n (f a) j) : SoundAt n (bind m f) i := by
  cases h : (m i).value with
  | error s =>
    have heq : Reader.bind m f i = ⟨(m i).index, (m i).accesses, .error s⟩ := by
      rw [Reader.bind, h]
    have hsame : Faults (Reader.bind m f) i ↔ Faults m i := by
      rw [Faults, Faults, heq, h, Except.error.injEq, Except.error.injEq]
    refine ⟨fun hno => ?_, fun hfault => ?_, fun b k hg => ?_, ?_⟩
    · rw [heq]; exact hm.good fun hfault => hno (hsame.mpr hfault)
    · rw [heq]; exact hm.bad (hsame.mp hfault)
    · rw [Gives, heq] at hg; cases hg.1
    · rw [heq]
      intro hs
      cases hs
      exact hm.ends h
  | ok a =>
    have hgives : Gives m i a (m i).index := ⟨h, rfl⟩
    have hnext := hf a _ hgives
    have heq : Reader.bind m f i = ⟨(f a (m i).index).index,
        (m i).accesses ++ (f a (m i).index).accesses, (f a (m i).index).value⟩ := by
      rw [Reader.bind, h]
    have hsame : Faults (Reader.bind m f) i ↔ Faults (f a) (m i).index := by
      rw [Faults, Faults, heq]
    have hnofault : ¬ Faults m i := by intro hfault; rw [Faults, h] at hfault; cases hfault
    refine ⟨fun hno x hx => ?_, fun hfault => ?_, fun b k hg => ?_, ?_⟩
    · rw [heq] at hx
      rcases List.mem_append.mp hx with hx | hx
      · exact hm.good hnofault x hx
      · exact hnext.good (fun hfault => hno (hsame.mpr hfault)) x hx
    · obtain ⟨x, hx, hbad⟩ := hnext.bad (hsame.mp hfault)
      rw [heq]
      exact ⟨x, List.mem_append_right _ hx, hbad⟩
    · rw [Gives, heq] at hg
      obtain ⟨h1, -⟩ := hm.forwards a _ hgives
      obtain ⟨h2, h3⟩ := hnext.forwards b k hg
      exact ⟨Nat.le_trans h1 h2, h3⟩
    · rw [heq]; exact hnext.ends

theorem Sound.bind {m : Reader ε α} {f : α → Reader ε β} (hm : Sound n m)
    (hf : ∀ a, Sound n (f a)) : Sound n (bind m f) := by
  intro i hi
  apply (hm i hi).bind
  intro a j hg
  exact hf a j ((hm i hi).forwards a j hg).2

/-! ## Loops -/

/-- Rounds of a loop, one after another. -/
inductive Rounds (bound : Nat) (body : σ → Reader ε σ) : σ → Nat → σ → Nat → Prop where
  | here (s : σ) (i : Nat) : Rounds bound body s i s i
  | round {s s' s'' : σ} {i j k : Nat} : i < bound → Gives (body s) i s' j →
      Rounds bound body s' j s'' k → Rounds bound body s i s'' k

theorem Rounds.snoc {bound : Nat} {body : σ → Reader ε σ} {s s' s'' : σ} {i j k : Nat}
    (h : Rounds bound body s i s' j) (hj : j < bound) (hg : Gives (body s') j s'' k) :
    Rounds bound body s i s'' k := by
  induction h with
  | here s i => exact .round hj hg (.here s'' k)
  | round hi hg' _ ih => exact .round hi hg' (ih hj hg)

theorem Rounds.le {bound : Nat} {body : σ → Reader ε σ} (hs : ∀ s, Sound n (body s)) {s s' : σ}
    {i j : Nat} (h : Rounds bound body s i s' j) (hi : i ≤ n) : j ≤ n := by
  induction h with
  | here s i => exact hi
  | round _ hg _ ih => exact ih ((hs _ _ hi).forwards _ _ hg).2

/-- Steps from one index to the next, below a bound. -/
inductive Path (bound : Nat) (R : Nat → Nat → Prop) : Nat → Nat → Prop where
  | here (i : Nat) : Path bound R i i
  | step {i j k : Nat} : i < bound → R i j → Path bound R j k → Path bound R i k

/-- Where the rounds of a loop lead, when the index alone decides it. -/
theorem exists_rounds {bound : Nat} {body : σ → Reader ε σ} {R : Nat → Nat → Prop}
    (hs : ∀ s, Sound n (body s))
    (hR : ∀ s i j, i ≤ n → ((∃ s', Gives (body s) i s' j) ↔ R i j)) (s : σ) {i j : Nat}
    (hi : i ≤ n) : (∃ s', Rounds bound body s i s' j) ↔ Path bound R i j := by
  constructor
  · rintro ⟨s', h⟩
    induction h with
    | here s i => exact .here i
    | round hb hg _ ih =>
      have hle := ((hs _ _ hi).forwards _ _ hg).2
      exact .step hb ((hR _ _ _ hi).mp ⟨_, hg⟩) (ih hle)
  · intro h
    induction h generalizing s with
    | here i => exact ⟨s, .here s i⟩
    | step hb hr _ ih =>
      obtain ⟨s1, hg⟩ := (hR s _ _ hi).mpr hr
      obtain ⟨s', h⟩ := ih s1 ((hs _ _ hi).forwards _ _ hg).2
      exact ⟨s', .round hb hg h⟩

/-- Each round that is not the last one goes forwards. -/
def Advances (n : Nat) (body : σ → Reader ε σ) : Prop :=
  ∀ s i a j, i ≤ n → Gives (body s) i a j → i < j

variable {bound : Nat} {body : σ → Reader ε σ}

theorem loop_round {i : Nat} (h : i < bound) (fuel : Nat) (s : σ) :
    loop bound body (fuel + 1) s i = bind (body s) (loop bound body fuel) i := if_pos h

theorem loop_end {i : Nat} (h : ¬ i < bound) (fuel : Nat) (s : σ) :
    loop bound body (fuel + 1) s i = pure s i := if_neg h

theorem faults_congr {m m' : Reader ε α} {i : Nat} (h : m i = m' i) : Faults m i ↔ Faults m' i := by
  rw [Faults, Faults, h]

theorem gives_congr {m m' : Reader ε α} {i : Nat} (h : m i = m' i) (a : α) (j : Nat) :
    Gives m i a j ↔ Gives m' i a j := by
  rw [Gives, Gives, h]

theorem soundAt_congr {m m' : Reader ε α} {i : Nat} (h : m i = m' i) (hm : SoundAt n m' i) :
    SoundAt n m i where
  good := by rw [faults_congr h, h]; exact hm.good
  bad := by rw [faults_congr h, h]; exact hm.bad
  forwards := by intro a j; rw [gives_congr h]; exact hm.forwards a j
  ends := by rw [h]; exact hm.ends

/-- A loop whose rounds all go forwards ends, with fuel for the bytes that are left. -/
theorem soundAt_loop (hs : ∀ s, Sound n (body s)) (ha : Advances n body) (fuel : Nat) (s : σ)
    {i : Nat} (hi : i ≤ n) (hfuel : n - i < fuel) : SoundAt n (loop bound body fuel s) i := by
  induction fuel generalizing s i with
  | zero => omega
  | succ fuel ih =>
    by_cases hb : i < bound
    · apply soundAt_congr (loop_round hb fuel s)
      apply (hs s i hi).bind
      intro a j hg
      have hlt := ha s i a j hi hg
      have hle := ((hs s i hi).forwards a j hg).2
      exact ih a hle (by omega)
    · exact soundAt_congr (loop_end hb fuel s) (sound_pure s i hi)

theorem sound_loop (hs : ∀ s, Sound n (body s)) (ha : Advances n body) (s : σ) :
    Sound n (loop bound body (n + 1) s) :=
  fun _ hi => soundAt_loop hs ha (n + 1) s hi (by omega)

/-- It faults where one of its rounds does. -/
theorem faults_loop (hs : ∀ s, Sound n (body s)) (ha : Advances n body) (fuel : Nat) (s : σ)
    {i : Nat} (hi : i ≤ n) (hfuel : n - i < fuel) :
    Faults (loop bound body fuel s) i ↔
      ∃ s' j, Rounds bound body s i s' j ∧ j < bound ∧ Faults (body s') j := by
  induction fuel generalizing s i with
  | zero => omega
  | succ fuel ih =>
    by_cases hb : i < bound
    · have hnext : ∀ a j, Gives (body s) i a j → (Faults (loop bound body fuel a) j ↔
          ∃ s' k, Rounds bound body a j s' k ∧ k < bound ∧ Faults (body s') k) := by
        intro a j hg
        have hlt := ha s i a j hi hg
        have hle := ((hs s i hi).forwards a j hg).2
        exact ih a hle (by omega)
      rw [faults_congr (loop_round hb fuel s), faults_bind]
      constructor
      · rintro (hf | ⟨a, j, hg, hf⟩)
        · exact ⟨s, i, .here s i, hb, hf⟩
        · obtain ⟨s', k, hr, hk, hf⟩ := (hnext a j hg).mp hf
          exact ⟨s', k, .round hb hg hr, hk, hf⟩
      · rintro ⟨s', k, hr, hk, hf⟩
        cases hr with
        | here => exact .inl hf
        | round _ hg hr => exact .inr ⟨_, _, hg, (hnext _ _ hg).mpr ⟨s', k, hr, hk, hf⟩⟩
    · rw [faults_congr (loop_end hb fuel s)]
      constructor
      · intro hf
        exact absurd hf (faults_pure s i)
      · rintro ⟨s', k, hr, hk, -⟩
        cases hr with
        | here => exact absurd hk hb
        | round hb' => exact absurd hb' hb

/-- It returns where its rounds reach the bound. -/
theorem gives_loop (hs : ∀ s, Sound n (body s)) (ha : Advances n body) (fuel : Nat) (s : σ)
    {i : Nat} (hi : i ≤ n) (hfuel : n - i < fuel) (s' : σ) (j : Nat) :
    Gives (loop bound body fuel s) i s' j ↔ Rounds bound body s i s' j ∧ ¬ j < bound := by
  induction fuel generalizing s i with
  | zero => omega
  | succ fuel ih =>
    by_cases hb : i < bound
    · have hnext : ∀ a k, Gives (body s) i a k → (Gives (loop bound body fuel a) k s' j ↔
          Rounds bound body a k s' j ∧ ¬ j < bound) := by
        intro a k hg
        have hlt := ha s i a k hi hg
        have hle := ((hs s i hi).forwards a k hg).2
        exact ih a hle (by omega)
      rw [gives_congr (loop_round hb fuel s), gives_bind]
      constructor
      · rintro ⟨a, k, hg, hl⟩
        obtain ⟨hr, hj⟩ := (hnext a k hg).mp hl
        exact ⟨.round hb hg hr, hj⟩
      · rintro ⟨hr, hj⟩
        cases hr with
        | here => exact absurd hb hj
        | round _ hg hr => exact ⟨_, _, hg, (hnext _ _ hg).mpr ⟨hr, hj⟩⟩
    · rw [gives_congr (loop_end hb fuel s), gives_pure]
      constructor
      · rintro ⟨rfl, rfl⟩
        exact ⟨.here s i, hb⟩
      · rintro ⟨hr, -⟩
        cases hr with
        | here => exact ⟨rfl, rfl⟩
        | round hb' => exact absurd hb' hb

end Reader

end lib.cursor
