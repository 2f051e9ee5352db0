-- Readers of a stream that arrives in pieces: what one call reads, what the
-- calls up to the end of the input read, and why the pieces do not matter.
-- Nothing here is about the proxy.
import Mathlib.Data.List.Basic
import Mathlib.Tactic.Common

namespace lib.resumable

/-- What a call comes to: it wants more input, it gives an item, or it stops for good. -/
inductive Outcome (ε β : Type*) where
  | more
  | item (b : β)
  | halt (e : ε)

structure Call (σ α ε β : Type*) where
  state : σ
  rest : List α
  outcome : Outcome ε β

/-- What the calls up to the end of the input come to. -/
structure Drained (σ α ε β : Type*) where
  state : σ
  rest : List α
  items : List β
  halted : Option ε

variable {σ α ε β : Type*}

/-- Input that no call has looked at yet. -/
def Call.pad (c : Call σ α ε β) (b : List α) : Call σ α ε β := { c with rest := c.rest ++ b }

def Drained.pad (d : Drained σ α ε β) (b : List α) : Drained σ α ε β :=
  { d with rest := d.rest ++ b }

/-- Items that came before. -/
def Drained.after (items : List β) (d : Drained σ α ε β) : Drained σ α ε β :=
  { d with items := items ++ d.items }

/-- At most `n` calls in a row, up to the first that gives no item. -/
def drain (f : σ → List α → Call σ α ε β) : Nat → σ → List α → Drained σ α ε β
  | 0, s, a => ⟨s, a, [], none⟩
  | n + 1, s, a =>
    match (f s a).outcome with
    | .more => ⟨(f s a).state, (f s a).rest, [], none⟩
    | .halt e => ⟨(f s a).state, (f s a).rest, [], some e⟩
    | .item b => (drain f n (f s a).state (f s a).rest).after [b]

/-- A reader that may be cut anywhere. In the states of `I`, a call that wants more has taken all
of its input and goes on from there when more comes; any other call leaves what it does not need.
An item takes input, but for `m` items in a state. -/
structure Resumable (f : σ → List α → Call σ α ε β) (I : σ → Prop) (m : σ → Nat) : Prop where
  keeps_more : ∀ {s a}, I s → (f s a).outcome = .more → I (f s a).state
  keeps_item : ∀ {s a b}, I s → (f s a).outcome = .item b → I (f s a).state
  takes : ∀ {s a b}, I s → (f s a).outcome = .item b →
    (f s a).rest.length + m (f s a).state < a.length + m s
  all_taken : ∀ {s a}, I s → (f s a).outcome = .more → (f s a).rest = []
  resumed : ∀ {s a}, I s → (f s a).outcome = .more → ∀ b, f s (a ++ b) = f (f s a).state b
  left : ∀ {s a}, I s → (f s a).outcome ≠ .more → ∀ b, f s (a ++ b) = (f s a).pad b

section

variable {f : σ → List α → Call σ α ε β} {I : σ → Prop} {m : σ → Nat} (h : Resumable f I m)

include h

/-- The number of calls does not matter once it is large enough. -/
theorem drain_enough {n : Nat} {s : σ} {a : List α} (hs : I s) (hn : a.length + m s < n) :
    drain f n s a = drain f (a.length + m s + 1) s a := by
  induction n using Nat.strongRecOn generalizing s a with
  | ind n ih =>
    match n, hn with
    | n + 1, hn =>
      rw [drain, drain]
      cases hc : (f s a).outcome with
      | more => rfl
      | halt e => rfl
      | item b =>
        have ht := h.takes hs hc
        have hk := h.keeps_item hs hc
        simp only
        rw [ih n (by omega) hk (by omega)]
        by_cases he : a.length + m s = n
        · rw [he, ih n (by omega) hk (by omega)]
        · rw [ih (a.length + m s) (by omega) hk (by omega)]

end

/-- All the calls up to the end of the input. -/
def drainAll (f : σ → List α → Call σ α ε β) (m : σ → Nat) (s : σ) (a : List α) :
    Drained σ α ε β :=
  drain f (a.length + m s + 1) s a

section

variable {f : σ → List α → Call σ α ε β} {I : σ → Prop} {m : σ → Nat}

theorem drainAll_more {s : σ} {a : List α} (hc : (f s a).outcome = .more) :
    drainAll f m s a = ⟨(f s a).state, (f s a).rest, [], none⟩ := by
  rw [drainAll, drain, hc]

theorem drainAll_halt {s : σ} {a : List α} {e : ε} (hc : (f s a).outcome = .halt e) :
    drainAll f m s a = ⟨(f s a).state, (f s a).rest, [], some e⟩ := by
  rw [drainAll, drain, hc]

variable (h : Resumable f I m)

include h

theorem drainAll_item {s : σ} {a : List α} {b : β} (hs : I s) (hc : (f s a).outcome = .item b) :
    drainAll f m s a = (drainAll f m (f s a).state (f s a).rest).after [b] := by
  rw [drainAll, drain, hc]
  simp only
  rw [drain_enough h (h.keeps_item hs hc) (h.takes hs hc)]
  rfl

/-- The induction over the calls: a call that gives an item leaves less to do. -/
theorem drain_induction {P : σ → List α → Prop}
    (more : ∀ s a, I s → (f s a).outcome = .more → P s a)
    (halt : ∀ s a e, I s → (f s a).outcome = .halt e → P s a)
    (item : ∀ s a b, I s → (f s a).outcome = .item b → P (f s a).state (f s a).rest → P s a)
    {s : σ} (hs : I s) (a : List α) : P s a := by
  induction hn : a.length + m s using Nat.strongRecOn generalizing s a with
  | ind n ih =>
    cases hc : (f s a).outcome with
    | more => exact more s a hs hc
    | halt e => exact halt s a e hs hc
    | item b =>
      have ht := h.takes hs hc
      exact item s a b hs hc (ih _ (by omega) (h.keeps_item hs hc) _ rfl)

/-- Where the calls end without a halt, all the input is taken, and the reader waits in a state
of `I`. -/
theorem drainAll_open {s : σ} (hs : I s) (a : List α) (ho : (drainAll f m s a).halted = none) :
    (drainAll f m s a).rest = [] ∧ I (drainAll f m s a).state := by
  revert ho
  refine drain_induction (P := fun s a => (drainAll f m s a).halted = none →
    (drainAll f m s a).rest = [] ∧ I (drainAll f m s a).state) h ?_ ?_ ?_ hs a
  · intro s a hs hc _
    rw [drainAll_more hc]
    exact ⟨h.all_taken hs hc, h.keeps_more hs hc⟩
  · intro s a e hs hc ho
    rw [drainAll_halt hc] at ho
    cases ho
  · intro s a b hs hc ih ho
    rw [drainAll_item h hs hc] at ho ⊢
    exact ih ho

/-- What each call keeps of the state, whatever it comes to, the calls keep. -/
theorem drainAll_keeps {J : σ → Prop} (hstep : ∀ s a, J s → J (f s a).state) {s : σ} (hs : I s)
    (hj : J s) (a : List α) : J (drainAll f m s a).state := by
  revert hj
  refine drain_induction (P := fun s a => J s → J (drainAll f m s a).state) h ?_ ?_ ?_ hs a
  · intro s a hs hc hj
    rw [drainAll_more hc]
    exact hstep s a hj
  · intro s a e hs hc hj
    rw [drainAll_halt hc]
    exact hstep s a hj
  · intro s a b hs hc ih hj
    rw [drainAll_item h hs hc]
    exact ih (hstep s a hj)

/-- More input after calls that did not halt: the calls go on where they were. -/
theorem drainAll_append {s : σ} (hs : I s) (a b : List α)
    (ho : (drainAll f m s a).halted = none) :
    drainAll f m s (a ++ b) =
      (drainAll f m (drainAll f m s a).state b).after (drainAll f m s a).items := by
  revert ho
  refine drain_induction (P := fun s a => (drainAll f m s a).halted = none →
    drainAll f m s (a ++ b) =
      (drainAll f m (drainAll f m s a).state b).after (drainAll f m s a).items) h ?_ ?_ ?_ hs a
  · intro s a hs hc _
    rw [drainAll_more hc]
    have hi := h.keeps_more hs hc
    have hr := h.resumed hs hc b
    -- The call on all the input is the call that the waiting state makes on the new input.
    have hnext : ∀ c, (f (f s a).state b).outcome = c → (f s (a ++ b)).outcome = c := by
      intro c hc; rw [hr, hc]
    cases hcb : (f (f s a).state b).outcome with
    | more => rw [drainAll_more hcb, drainAll_more (hnext _ hcb), hr]; rfl
    | halt e => rw [drainAll_halt hcb, drainAll_halt (hnext _ hcb), hr]; rfl
    | item x => rw [drainAll_item h hi hcb, drainAll_item h hs (hnext _ hcb), hr]; rfl
  · intro s a e hs hc ho
    rw [drainAll_halt hc] at ho
    cases ho
  · intro s a x hs hc ih ho
    have hl := h.left hs (by rw [hc]; simp) b
    have hcb : (f s (a ++ b)).outcome = .item x := by rw [hl]; exact hc
    rw [drainAll_item h hs hc] at ho ⊢
    rw [drainAll_item h hs hcb, hl]
    simp only [Call.pad]
    rw [ih ho]
    rfl

/-- Input after a halt is never looked at. -/
theorem drainAll_append_halted {s : σ} (hs : I s) (a b : List α) {e : ε}
    (he : (drainAll f m s a).halted = some e) :
    drainAll f m s (a ++ b) = (drainAll f m s a).pad b := by
  revert he
  refine drain_induction (P := fun s a => (drainAll f m s a).halted = some e →
    drainAll f m s (a ++ b) = (drainAll f m s a).pad b) h ?_ ?_ ?_ hs a
  · intro s a hs hc he
    rw [drainAll_more hc] at he
    cases he
  · intro s a e' hs hc _
    have hl := h.left hs (by rw [hc]; simp) b
    have hcb : (f s (a ++ b)).outcome = .halt e' := by rw [hl]; exact hc
    rw [drainAll_halt hc, drainAll_halt hcb, hl]
    rfl
  · intro s a x hs hc ih he
    have hl := h.left hs (by rw [hc]; simp) b
    have hcb : (f s (a ++ b)).outcome = .item x := by rw [hl]; exact hc
    rw [drainAll_item h hs hc] at he ⊢
    rw [drainAll_item h hs hcb, hl]
    simp only [Call.pad]
    rw [ih he]
    rfl

end

/-- The pieces of a stream one after another: each is appended to what is left of the input, and
the calls run up to its end. A halt ends it. -/
def feed (f : σ → List α → Call σ α ε β) (m : σ → Nat) :
    σ → List α → List (List α) → Drained σ α ε β
  | s, a, [] => ⟨s, a, [], none⟩
  | s, a, c :: cs =>
    let d := drainAll f m s (a ++ c)
    match d.halted with
    | some _ => d
    | none => (feed f m d.state d.rest cs).after d.items

/-- However a stream is cut, the items, the halt and the state are those of the stream at once,
when it is cut at all. -/
theorem feed_eq_drainAll {f : σ → List α → Call σ α ε β} {I : σ → Prop} {m : σ → Nat}
    (h : Resumable f I m) {s : σ} (hs : I s) {cs : List (List α)} (hcs : cs ≠ []) :
    ∃ b, drainAll f m s cs.flatten = (feed f m s [] cs).pad b := by
  induction cs generalizing s with
  | nil => exact absurd rfl hcs
  | cons c cs ih =>
    rw [feed]
    simp only [List.nil_append, List.flatten_cons]
    cases hh : (drainAll f m s c).halted with
    | some e => exact ⟨cs.flatten, drainAll_append_halted h hs c cs.flatten hh⟩
    | none =>
      have ho := drainAll_open h hs c hh
      simp only [ho.1]
      cases cs with
      | nil =>
        refine ⟨[], ?_⟩
        simp only [List.flatten_nil, List.append_nil, feed, Drained.after, Drained.pad]
        rw [← ho.1, ← hh]
      | cons c' cs =>
        obtain ⟨b, hb⟩ := ih ho.2 (by simp)
        refine ⟨b, ?_⟩
        rw [drainAll_append h hs c _ hh, hb]
        rfl

/-! ## One reader in the place of another -/

/-- A reader whose calls come to what those of another do, from states that `R` relates. -/
structure Simulates {τ : Type*} (f : σ → List α → Call σ α ε β) (m : σ → Nat)
    (g : τ → List α → Call τ α ε β) (m' : τ → Nat) (R : σ → τ → Prop) : Prop where
  measure : ∀ {s t}, R s t → m s = m' t
  outcome : ∀ {s t}, R s t → ∀ a, (f s a).outcome = (g t a).outcome
  rest : ∀ {s t}, R s t → ∀ a, (f s a).rest = (g t a).rest
  keeps : ∀ {s t}, R s t → ∀ a, (∀ e, (g t a).outcome ≠ .halt e) → R (f s a).state (g t a).state

section

variable {τ : Type*} {f : σ → List α → Call σ α ε β} {m : σ → Nat}
  {g : τ → List α → Call τ α ε β} {m' : τ → Nat} {R : σ → τ → Prop} (h : Simulates f m g m' R)

include h

theorem drain_simulates {s : σ} {t : τ} (hr : R s t) (n : Nat) (a : List α) :
    (drain f n s a).items = (drain g n t a).items ∧
      (drain f n s a).halted = (drain g n t a).halted ∧
      (drain f n s a).rest = (drain g n t a).rest ∧
      ((drain g n t a).halted = none → R (drain f n s a).state (drain g n t a).state) := by
  induction n generalizing s t a with
  | zero => exact ⟨rfl, rfl, rfl, fun _ => hr⟩
  | succ n ih =>
    have hrest := h.rest hr a
    rw [drain, drain, h.outcome hr a]
    cases hc : (g t a).outcome with
    | more => exact ⟨rfl, rfl, hrest, fun _ => h.keeps hr a (by simp [hc])⟩
    | halt e => exact ⟨rfl, rfl, hrest, fun hn => by cases hn⟩
    | item b =>
      obtain ⟨h1, h2, h3, h4⟩ := ih (h.keeps hr a (by simp [hc])) (g t a).rest
      simp only [hrest, Drained.after, h1]
      exact ⟨trivial, h2, h3, h4⟩

/-- The pieces of a stream come to the same. -/
theorem feed_simulates {s : σ} {t : τ} (hr : R s t) (a : List α) (cs : List (List α)) :
    (feed f m s a cs).items = (feed g m' t a cs).items ∧
      (feed f m s a cs).halted = (feed g m' t a cs).halted := by
  induction cs generalizing s t a with
  | nil => exact ⟨rfl, rfl⟩
  | cons c cs ih =>
    have hfuel : (a ++ c).length + m s + 1 = (a ++ c).length + m' t + 1 := by rw [h.measure hr]
    obtain ⟨h1, h2, h3, h4⟩ := drain_simulates h hr ((a ++ c).length + m' t + 1) (a ++ c)
    rw [feed, feed, drainAll, drainAll, hfuel]
    simp only [h2]
    cases hh : (drain g ((a ++ c).length + m' t + 1) t (a ++ c)).halted with
    | some e =>
      simp only
      exact ⟨h1, h2⟩
    | none =>
      obtain ⟨hi, he⟩ := ih (h4 hh) (drain g ((a ++ c).length + m' t + 1) t (a ++ c)).rest
      simp only [Drained.after, h1, h3, hi, he]
      exact ⟨trivial, trivial⟩

end

end lib.resumable
