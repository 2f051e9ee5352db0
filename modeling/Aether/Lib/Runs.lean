-- Runs of a system whose steps are taken on events, and rules for what holds in
-- all states of a run.
import Mathlib.Tactic.Common

namespace lib.runs

variable {σ ε : Type}

/-- The state after the events, if each of them can be taken. -/
def run (step : σ → ε → Option σ) : σ → List ε → Option σ
  | s, [] => some s
  | s, e :: es => (step s e).bind (fun s' => run step s' es)

/-- A property of all states of a run, the first and the last included. -/
def Throughout (step : σ → ε → Option σ) (P : σ → Prop) : σ → List ε → Prop
  | s, [] => P s
  | s, e :: es => P s ∧ ∀ s', step s e = some s' → Throughout step P s' es

/-- A condition on all steps of a run, each with the state before it. -/
def EachStep (step : σ → ε → Option σ) (Q : σ → ε → Prop) : σ → List ε → Prop
  | _, [] => True
  | s, e :: es => ∀ s', step s e = some s' → Q s e ∧ EachStep step Q s' es

variable {step : σ → ε → Option σ} {P I : σ → Prop} {Q : σ → ε → Prop}

theorem Throughout.head {s : σ} {es : List ε} (h : Throughout step P s es) : P s := by
  cases es with
  | nil => exact h
  | cons e es => exact h.1

theorem Throughout.mono {P' : σ → Prop} (hp : ∀ s, P s → P' s) {s : σ} {es : List ε}
    (h : Throughout step P s es) : Throughout step P' s es := by
  induction es generalizing s with
  | nil => exact hp s h
  | cons e es ih => exact ⟨hp s h.1, fun s' hs => ih (h.2 s' hs)⟩

/-- What each step keeps holds throughout. -/
theorem throughout_of_step (hstep : ∀ s e s', P s → step s e = some s' → P s') {s : σ} (h : P s)
    (es : List ε) : Throughout step P s es := by
  induction es generalizing s with
  | nil => exact h
  | cons e es ih => exact ⟨h, fun s' hs => ih (hstep s e s' h hs)⟩

/-- What each step on an event of a kind keeps holds throughout a run of such events. -/
theorem throughout_of_events {R : ε → Prop}
    (hstep : ∀ s e s', R e → P s → step s e = some s' → P s') {s : σ} (h : P s) {es : List ε}
    (hes : ∀ e ∈ es, R e) : Throughout step P s es := by
  induction es generalizing s with
  | nil => exact h
  | cons e es ih =>
    have hrest : ∀ e ∈ es, R e := fun e' he' => hes e' (List.mem_cons_of_mem _ he')
    exact ⟨h, fun s' hs => ih (hstep s e s' (hes e List.mem_cons_self) h hs) hrest⟩

/-- A property that a step keeps exactly on a condition holds throughout iff each step meets the
condition. The invariant may be used for the steps. -/
theorem throughout_iff (hinv : ∀ s e s', I s → step s e = some s' → I s')
    (hstep : ∀ s e s', I s → P s → step s e = some s' → (P s' ↔ Q s e)) {s : σ} (hi : I s)
    (hp : P s) (es : List ε) : Throughout step P s es ↔ EachStep step Q s es := by
  induction es generalizing s with
  | nil =>
    constructor
    · intro _
      trivial
    · intro _
      exact hp
  | cons e es ih =>
    constructor
    · intro h s' hs
      have hp' := (h.2 s' hs).head
      exact ⟨(hstep s e s' hi hp hs).mp hp', (ih (hinv s e s' hi hs) hp').mp (h.2 s' hs)⟩
    · intro h
      refine ⟨hp, ?_⟩
      intro s' hs
      have hp' := (hstep s e s' hi hp hs).mpr (h s' hs).1
      exact (ih (hinv s e s' hi hs) hp').mpr (h s' hs).2

/-- Two conditions that come to the same in states of an invariant, which a step keeps if it meets
them, come to the same on all steps of a run. -/
theorem eachStep_iff {R : σ → ε → Prop}
    (hstep : ∀ s e s', I s → step s e = some s' → (R s e ↔ Q s e))
    (hkeep : ∀ s e s', I s → Q s e → step s e = some s' → I s') {s : σ} (hi : I s) (es : List ε) :
    EachStep step R s es ↔ EachStep step Q s es := by
  induction es generalizing s with
  | nil => exact Iff.rfl
  | cons e es ih =>
    constructor
    · intro h s' hs
      obtain ⟨hr, hrest⟩ := h s' hs
      have hq := (hstep s e s' hi hs).mp hr
      exact ⟨hq, (ih (hkeep s e s' hi hq hs)).mp hrest⟩
    · intro h s' hs
      obtain ⟨hq, hrest⟩ := h s' hs
      exact ⟨(hstep s e s' hi hs).mpr hq, (ih (hkeep s e s' hi hq hs)).mpr hrest⟩

/-- What each step on a condition gives, and keeps an invariant with it, all steps give. -/
theorem EachStep.of_invariant {R : σ → ε → Prop} {s : σ} {es : List ε}
    (h : EachStep step R s es)
    (hstep : ∀ s e s', I s → R s e → step s e = some s' → Q s e ∧ I s') (hi : I s) :
    EachStep step Q s es := by
  induction es generalizing s with
  | nil => trivial
  | cons e es ih =>
    intro s' hs
    obtain ⟨hr, hrest⟩ := h s' hs
    obtain ⟨hq, hi'⟩ := hstep s e s' hi hr hs
    exact ⟨hq, ih hrest hi'⟩

theorem run_append (s : σ) (es es' : List ε) :
    run step s (es ++ es') = (run step s es).bind (fun s' => run step s' es') := by
  induction es generalizing s with
  | nil => rfl
  | cons e es ih =>
    show (step s e).bind _ = ((step s e).bind _).bind _
    rw [Option.bind_assoc]
    exact Option.bind_congr fun s' _ => ih s'

/-- Of two systems, each step of the one is some steps of the other. Then so is each run. -/
theorem run_of_steps {τ δ : Type} {stepA : τ → δ → Option τ} {R : σ → τ → Prop}
    (hstep : ∀ s e s' a, R s a → step s e = some s' →
      ∃ ds a', run stepA a ds = some a' ∧ R s' a')
    {s s' : σ} {es : List ε} {a : τ} (h : R s a) (hs : run step s es = some s') :
    ∃ ds a', run stepA a ds = some a' ∧ R s' a' := by
  induction es generalizing s a with
  | nil =>
    cases hs
    exact ⟨[], a, rfl, h⟩
  | cons e es ih =>
    obtain ⟨s₁, he, hs⟩ := Option.bind_eq_some_iff.mp hs
    obtain ⟨ds, a₁, hds, h₁⟩ := hstep s e s₁ a h he
    obtain ⟨ds', a', hds', h'⟩ := ih h₁ hs
    refine ⟨ds ++ ds', a', ?_, h'⟩
    rw [run_append, hds]
    exact hds'

/-- Throughout is in each state that some of the events lead to. -/
theorem Throughout.run {s s' : σ} {es rest : List ε} (h : Throughout step P s (es ++ rest))
    (hs : lib.runs.run step s es = some s') : P s' := by
  induction es generalizing s with
  | nil =>
    cases hs
    exact h.head
  | cons e es ih =>
    unfold lib.runs.run at hs
    rcases he : step s e with _ | s1
    · rw [he] at hs
      cases hs
    · rw [he] at hs
      exact ih (h.2 s1 he) hs

end lib.runs
