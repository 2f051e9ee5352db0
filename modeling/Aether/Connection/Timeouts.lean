-- When a timeout may shut a connection down.
--
-- An operation that completes cancels the timer, so that what is left of it belongs to
-- operations that are pending. But a handler that is queued with an expiry is not
-- cancelled, and shuts down whatever the connection does by then.
import Aether.Connection.TimeoutService
import Aether.Lib.Runs
import Mathlib.Data.List.Nodup

open lib.runs lib.timer

namespace proxy.connection

/-- The operation sets a timeout, and cancels it. -/
def Operation.timed : Operation → Bool
  | .read_available => false
  | .write_untimed_async => false
  | _ => true

/-! ## The calls and the timer -/

namespace TimeoutService

variable {t : TimeoutService} {a b : Nat}

@[simp] theorem open_reset_timer : t.reset_timer.timer_.Open a ↔ t.timer_.Due a := by
  simp [reset_timer]

@[simp] theorem open_set_timeout :
    (t.set_timeout b).timer_.Open a ↔ t.timer_.Due a ∨ a = b := by
  simp [set_timeout]

@[simp] theorem open_cancel_timeout : t.cancel_timeout.timer_.Open a ↔ t.timer_.Due a := by
  simp [cancel_timeout]

end TimeoutService

namespace BaseConnection

variable {c : BaseConnection} {a number : Nat} {operation : Operation} {error aborted : Bool}

theorem timeout_begin : (c.begin number operation).timeout_ =
    if operation.timed ∧ c.mode_ ≠ .no_timeout then c.timeout_.set_timeout number
    else c.timeout_ := by
  rcases c with ⟨timeout, mode, is_open, connected, read_state, write_state, shutdowns⟩
  cases operation <;> cases mode <;> rfl

theorem timeout_complete : (c.complete error operation).timeout_ =
    if operation.timed then c.timeout_.cancel_timeout else c.timeout_ := by
  cases operation <;> cases error <;> rfl

/-- An operation that begins leaves no one with a timeout who had none, but itself. -/
theorem open_begin (h : (c.begin number operation).timeout_.timer_.Open a) :
    c.timeout_.timer_.Open a ∨ (a = number ∧ operation.timed) := by
  rw [timeout_begin] at h
  split at h
  · rename_i htimed
    rcases TimeoutService.open_set_timeout.mp h with hdue | rfl
    · exact .inl hdue.open
    · exact .inr ⟨rfl, htimed.1⟩
  · exact .inl h

/-- A timed operation that completes ends the waits of all operations. -/
theorem open_complete (h : (c.complete error operation).timeout_.timer_.Open a) :
    c.timeout_.timer_.Due a ∨ (operation.timed = false ∧ c.timeout_.timer_.Open a) := by
  rw [timeout_complete] at h
  split at h
  · exact .inl (TimeoutService.open_cancel_timeout.mp h)
  · rename_i htimed
    exact .inr ⟨Bool.eq_false_iff.mpr htimed, h⟩

theorem due_complete (h : c.timeout_.timer_.Due a) :
    (c.complete error operation).timeout_.timer_.Due a := by
  rw [timeout_complete]
  split
  · simpa [TimeoutService.cancel_timeout, TimeoutService.reset_timer] using h
  · exact h

theorem timeout_on_timer : (c.on_timer aborted).timeout_ =
    if aborted then c.timeout_ else c.timeout_.reset_timer.cancel_timeout := by
  cases aborted with
  | true => rfl
  | false =>
    simp only [on_timer, on_timeout, Bool.not_false, if_true, Bool.false_eq_true, if_false]
    split <;> rfl

theorem open_on_timer (h : (c.on_timer aborted).timeout_.timer_.Open a) :
    c.timeout_.timer_.Open a := by
  rw [timeout_on_timer] at h
  split at h
  · exact h
  · have hdue := TimeoutService.open_cancel_timeout.mp h
    exact (TimeoutService.open_reset_timer.mp hdue.open).open

theorem open_disconnect (h : c.disconnect.timeout_.timer_.Open a) : c.timeout_.timer_.Open a := by
  have htimeout : c.disconnect.timeout_ = c.timeout_.cancel_timeout := by
    simp only [disconnect]
    split <;> rfl
  rw [htimeout] at h
  exact (TimeoutService.open_cancel_timeout.mp h).open

/-- A handler that was not aborted shuts down a connection that can be shut down. -/
theorem shutdowns_on_timer : (c.on_timer aborted).shutdowns =
    if aborted = false ∧ c.can_be_shutdown then c.shutdowns + 1 else c.shutdowns := by
  rcases c with ⟨timeout, mode, is_open, connected, read_state, write_state, shutdowns⟩
  cases aborted <;> cases is_open <;> cases connected <;> rfl

end BaseConnection

/-! ## What should hold of a handler that runs -/

namespace Operations

/-- A handler of the timer shuts the socket down only if its operation is pending. -/
def Timely (s : Operations) (e : OperationEvent) : Prop :=
  ∀ i number aborted s', e = .run i → s.timer.queue[i]? = some (number, aborted) →
    s.step e = some s' → s'.base.shutdowns ≠ s.base.shutdowns →
      ∃ operation, (number, operation) ∈ s.pending

/-- No operation completes while a handler is queued that will be told that it timed out. -/
def InTime (s : Operations) (e : OperationEvent) : Prop :=
  ∀ number error, e = .complete number error → ¬ s.timer.Due number

/-- A timeout belongs to a pending operation. -/
structure Armed (s : Operations) : Prop where
  numbered : (s.pending.map Prod.fst).Nodup
  below : ∀ number ∈ s.pending.map Prod.fst, number < s.started
  armed : ∀ number, s.timer.Open number → ∃ operation, (number, operation) ∈ s.pending ∧
    operation.timed

variable {s s' : Operations} {e : OperationEvent}

theorem armed_new : Armed new where
  numbered := List.nodup_nil
  below := by simp [new]
  armed := by simp [new, timer, BaseConnection.new, TimeoutService.new, Timer.new, Timer.Open,
    Timer.Due]

theorem Armed.start (h : s.Armed) (operation : Operation) : Armed {
    base := s.base.begin s.started operation
    pending := s.pending ++ [(s.started, operation)]
    started := s.started + 1 } := by
  have hfresh : s.started ∉ s.pending.map Prod.fst :=
    fun hmem => Nat.lt_irrefl _ (h.below _ hmem)
  refine ⟨?_, ?_, ?_⟩
  · rw [List.map_append]
    exact (List.perm_append_singleton s.started _).nodup_iff.mpr
      (List.nodup_cons.mpr ⟨hfresh, h.numbered⟩)
  · intro number hnumber
    rw [List.map_append, List.mem_append] at hnumber
    rcases hnumber with hold | hnew
    · exact Nat.lt_succ_of_lt (h.below number hold)
    · rw [List.mem_singleton.mp hnew]
      exact Nat.lt_succ_self _
  · intro number hopen
    rcases BaseConnection.open_begin hopen with hold | ⟨rfl, htimed⟩
    · obtain ⟨other, hmem, htimed⟩ := h.armed number hold
      exact ⟨other, List.mem_append_left _ hmem, htimed⟩
    · exact ⟨operation, List.mem_append_right _ List.mem_cons_self, htimed⟩

/-- The waits that are left when an operation completes are those of others. -/
theorem Armed.complete (h : s.Armed) {number : Nat} {operation : Operation} (error : Bool)
    (hmem : (number, operation) ∈ s.pending) (hdue : ¬ s.timer.Due number) : Armed {
    base := s.base.complete error operation
    pending := s.pending.filter (·.1 ≠ number)
    started := s.started } := by
  have hsub : (s.pending.filter (·.1 ≠ number)).Sublist s.pending := List.filter_sublist
  refine ⟨h.numbered.sublist (hsub.map _), ?_, ?_⟩
  · intro other hother
    exact h.below other ((hsub.map _).subset hother)
  · intro other hopen
    have hothers : other ≠ number ∧ s.timer.Open other := by
      rcases BaseConnection.open_complete hopen with hother | ⟨huntimed, hother⟩
      · exact ⟨fun heq => hdue (heq ▸ hother), hother.open⟩
      · refine ⟨?_, hother⟩
        rintro rfl
        obtain ⟨timed, htimed, hset⟩ := h.armed other hother
        have heq : (other, timed) = (other, operation) :=
          List.inj_on_of_nodup_map h.numbered htimed hmem rfl
        rw [(Prod.mk.inj heq).2, huntimed] at hset
        cases hset
    obtain ⟨timed, htimed, hset⟩ := h.armed other hothers.2
    exact ⟨timed, List.mem_filter.mpr ⟨htimed, by simpa using hothers.1⟩, hset⟩

/-- What arms no new timeout keeps the invariant. -/
theorem Armed.of_base (h : s.Armed) {base : BaseConnection}
    (hopen : ∀ number, base.timeout_.timer_.Open number → s.timer.Open number) :
    Armed (s.set_base base) :=
  ⟨h.numbered, h.below, fun number hnumber => h.armed number (hopen number hnumber)⟩

theorem Armed.step (h : s.Armed) (hin : s.InTime e) (hs : s.step e = some s') : s'.Armed := by
  cases e with
  | start operation =>
    cases hs
    exact h.start operation
  | complete number error =>
    obtain ⟨operation, hlookup, rfl⟩ := Option.map_eq_some_iff.mp hs
    obtain ⟨before, after, hpending, -⟩ := List.lookup_eq_some_iff.mp hlookup
    have hmem : (number, operation) ∈ s.pending := by simp [hpending]
    exact h.complete error hmem (hin number error rfl)
  | expire =>
    cases hs
    exact h.of_base (fun number => Timer.open_expire.mp)
  | run i =>
    obtain ⟨handler, -, rfl⟩ := Option.map_eq_some_iff.mp hs
    exact h.of_base (fun number hopen => Timer.open_take (BaseConnection.open_on_timer hopen))
  | set_mode new_mode =>
    cases hs
    exact h.of_base (fun number hopen => hopen)
  | accept =>
    cases hs
    exact h.of_base (fun number hopen => hopen)
  | set_connected connected =>
    cases hs
    exact h.of_base (fun number hopen => hopen)
  | disconnect =>
    cases hs
    exact h.of_base (fun number => BaseConnection.open_disconnect)

theorem Armed.timely (h : s.Armed) (e : OperationEvent) : s.Timely e := by
  rintro i number aborted s' rfl hqueue hs hshut
  simp only [Operations.step, hqueue, Option.map_some, Option.some.injEq] at hs
  subst hs
  have haborted : aborted = false := by
    cases aborted with
    | false => rfl
    | true => exact absurd BaseConnection.shutdowns_on_timer hshut
  subst haborted
  obtain ⟨operation, hmem, -⟩ := h.armed number (.inr (List.mem_of_getElem? hqueue))
  exact ⟨operation, hmem⟩

theorem inTime_of_ne (h : ∀ number error, e ≠ .complete number error) : s.InTime e :=
  fun number error he => absurd he (h number error)

/-- A handler that runs when its operation is no longer pending shuts down a connection that can be
shut down. -/
theorem not_timely {i number : Nat} (hqueue : s.timer.queue[i]? = some (number, false))
    (hshut : s.base.can_be_shutdown) (hgone : ∀ operation, (number, operation) ∉ s.pending) :
    ¬ s.Timely (.run i) := by
  intro htimely
  have hs : s.step (.run i) =
      some (s.set_base ({ s.base with timeout_ := ⟨s.timer.take i⟩ }.on_timer false)) := by
    simp only [step, hqueue, Option.map_some]
  have hmore : ({ s.base with timeout_ := ⟨s.timer.take i⟩ }.on_timer false).shutdowns =
      s.base.shutdowns + 1 := by
    rw [BaseConnection.shutdowns_on_timer]
    exact if_pos ⟨rfl, hshut⟩
  obtain ⟨operation, hmem⟩ := htimely i number false _ rfl hqueue hs
    (by rw [set_base, hmore]; exact Nat.succ_ne_self _)
  exact hgone operation hmem

/-- Once an operation has completed while its expiry was queued, the handler shuts down whatever the
connection does then. -/
theorem a_late_expiry_is_not_timely {number : Nat} {error : Bool} (hdue : s.timer.Due number)
    (hs : s.step (.complete number error) = some s') (hshut : s'.base.can_be_shutdown) :
    ∃ i, ¬ s'.Timely (.run i) := by
  obtain ⟨operation, -, rfl⟩ := Option.map_eq_some_iff.mp hs
  obtain ⟨i, hi⟩ := List.mem_iff_getElem?.mp
    (@BaseConnection.due_complete s.base number operation error hdue)
  refine ⟨i, not_timely hi hshut ?_⟩
  intro other hother
  simpa using (List.mem_filter.mp hother).2

/-! ## Runs -/

/-- In a run in which no operation completes while the expiry of its timeout is queued, whatever
else comes in between, a timeout shuts the socket down only while its operation is pending. -/
theorem timeouts_are_timely (es : List OperationEvent) (h : EachStep step InTime new es) :
    EachStep step Timely new es := by
  apply h.of_invariant _ armed_new
  intro s e s' harmed hin hs
  exact ⟨harmed.timely e, harmed.step hin hs⟩

/-- A read that times out. -/
def readTimesOut : List OperationEvent :=
  [.accept, .start .read_async, .expire, .run 0, .complete 0 true]

theorem timeouts_are_timely_read : EachStep step Timely new readTimesOut := by
  apply timeouts_are_timely
  intro s1 h1
  cases h1
  refine ⟨inTime_of_ne (by simp), ?_⟩
  intro s2 h2
  cases h2
  refine ⟨inTime_of_ne (by simp), ?_⟩
  intro s3 h3
  cases h3
  refine ⟨inTime_of_ne (by simp), ?_⟩
  intro s4 h4
  cases h4
  refine ⟨inTime_of_ne (by simp), ?_⟩
  intro s5 h5
  refine ⟨?_, trivial⟩
  intro number error _ hdue
  cases hdue

/-- The timer expires, and before its handler runs, the read completes. -/
def readInTime : List OperationEvent :=
  [.accept, .start .read_async, .expire, .complete 0 false, .run 0]

theorem a_read_in_time_is_shut_down : ¬ ∀ es, EachStep step Timely new es := by
  intro h
  obtain ⟨-, h1⟩ := h readInTime _ rfl
  obtain ⟨-, h2⟩ := h1 _ rfl
  obtain ⟨-, h3⟩ := h2 _ rfl
  obtain ⟨-, h4⟩ := h3 _ rfl
  obtain ⟨hlast, -⟩ := h4 _ rfl
  exact not_timely rfl rfl (fun operation => List.not_mem_nil) hlast

end Operations

end proxy.connection
