-- What is still to come after a handler of the service for HTTP: one operation, one
-- switch to another service or one stop, but for a response to `Expect` that is
-- written.
import Aether.Http.Outcomes
import Aether.Lib.Runs

open util.string util.buffer lib.runs

namespace proxy.http.http1.HttpService

/-- One continuation is left, and those from before. -/
def LeavesOne (s s' : HttpService) : Prop := ∃ k, s'.outstanding = s.outstanding ++ [k]

section

variable {c : Components} {s s' : HttpService} {t : Completion}

theorem Leaves.leavesOne (h : Leaves s s') : LeavesOne s s' := by
  obtain ⟨s₁, k, hwithin, -, rfl⟩ := h
  exact ⟨k, by rw [leave, hwithin.outstanding]⟩

theorem outstanding_aimed (s : HttpService) : (s.aimed c).outstanding = s.outstanding := by
  unfold aimed set_server
  split
  · rfl
  · simp only
    split <;> rfl

theorem Proceeds.leavesOne (h : Proceeds c t s s') : LeavesOne s s' := by
  cases h with
  | leaves h => exact h.leavesOne
  | @answers s₁ _ event h hs =>
    obtain ⟨k, hk⟩ := hs.leavesOne
    refine ⟨k, ?_⟩
    rw [hk, outstanding_aimed]
    exact congrArg (· ++ [k]) h.outstanding
  | @connects s₁ s₂ h hs =>
    have hs₂ : s₂.outstanding = s.outstanding := by
      rcases hs with rfl | rfl
      · exact (outstanding_aimed _).trans h.outstanding
      · exact (outstanding_aimed _).trans h.outstanding
    exact ⟨.on_connect_server, congrArg (· ++ [Continuation.on_connect_server]) hs₂⟩

/-- A handler leaves one continuation iff it completes no request that is told to go on. -/
theorem leavesOne_handle_iff {k : Continuation} (hs : s.handle c t k = .ok s') :
    LeavesOne s s' ↔ ¬ CompletesTo t (s.completed_request t k) := by
  rcases handle_cases hs with ⟨hcompletes, hwithin⟩ | ⟨hnot, hproceeds | ⟨-, -, rfl⟩⟩
  · constructor
    · rintro ⟨k, hk⟩
      rw [hwithin.outstanding] at hk
      simp at hk
    · intro hnot
      exact absurd hcompletes hnot
  · exact ⟨fun _ => hnot, fun _ => hproceeds.leavesOne⟩
  · exact ⟨fun _ => hnot, fun _ => ⟨.on_forward_request, rfl⟩⟩

end

/-! ## Runs -/

/-- One operation is pending, or one switch to another service, or one stop. -/
def ExactlyOne (s : HttpService) : Prop := s.outstanding.length = 1

/-- The end of an operation completes a request that a response to `Expect` is written for. -/
def Stalls (s : HttpService) : Event → Prop
  | .complete k t =>
    ∃ s₁, { s with outstanding := s.outstanding.erase k }.arrive t k = some s₁ ∧
      CompletesTo t (s₁.completed_request t k)
  | _ => False

section

variable {c : Components} {s s' : HttpService}

theorem exactlyOne_of_outstanding (h : s.ExactlyOne) (hs : s'.outstanding = s.outstanding) :
    s'.ExactlyOne := by
  unfold ExactlyOne at h ⊢
  rw [hs, h]

/-- A step of the service, or of what it works with. -/
theorem exactlyOne_step_iff {e : Event} (h : s.ExactlyOne) (hs : step c s e = some s') :
    s'.ExactlyOne ↔ ¬ s.Stalls e := by
  cases e with
  | start =>
    obtain ⟨-, rfl⟩ := step_start hs
    obtain ⟨k, hk⟩ := (leaves_start (c := c) (s := { s with outstanding := [] })).leavesOne
    have hone : ExactlyOne ({ s with outstanding := [] }.start c) := by
      unfold ExactlyOne
      rw [hk]
      rfl
    exact ⟨fun _ => not_false, fun _ => hone⟩
  | complete k t =>
    obtain ⟨hk, s₁, hs₁, hhandle⟩ := step_complete hs
    have hnil : s₁.outstanding = [] := by
      obtain ⟨k', hk'⟩ := List.length_eq_one_iff.mp h
      rw [hk'] at hk
      obtain rfl := List.mem_singleton.mp hk
      rw [(arrives_of_arrive hs₁).outstanding, hk']
      simp
    have hleaves : LeavesOne s₁ s' ↔ s'.ExactlyOne := by
      unfold LeavesOne ExactlyOne
      rw [hnil]
      exact List.length_eq_one_iff.symm
    rw [← hleaves, leavesOne_handle_iff hhandle]
    unfold Stalls
    simp [hs₁]
  | callback e err =>
    have hout : s'.outstanding = s.outstanding := by
      obtain ⟨-, server, -, ⟨-, -, code, -, rfl⟩ | ⟨-, rfl⟩⟩ := step_callback hs
      · rfl
      · rfl
    exact ⟨fun _ => not_false, fun _ => exactlyOne_of_outstanding h hout⟩
  | other_server e =>
    obtain ⟨-, -, server, -, rfl⟩ := step_other_server hs
    exact ⟨fun _ => not_false, fun _ => h⟩
  | other_flow client_input error intercept_tls intercept_websocket =>
    obtain ⟨-, rfl⟩ := step_other_flow hs
    exact ⟨fun _ => not_false, fun _ => h⟩

end

theorem exactlyOne_new (c : Components) : ExactlyOne (new c) := rfl

/-- A run has one continuation throughout iff no response to `Expect` is written in it. -/
theorem exactly_one_continuation_iff (c : Components) (es : List Event) :
    Throughout (step c) ExactlyOne (new c) es ↔
      EachStep (step c) (fun s e => ¬ s.Stalls e) (new c) es :=
  throughout_iff (I := fun _ => True) (fun _ _ _ _ _ => trivial)
    (fun _ _ _ _ h hs => exactlyOne_step_iff h hs) trivial (exactlyOne_new c) es

/-- The options as they are if none is given. -/
def defaults : Components :=
  ⟨3000, 200000000, false, false, false, false, [], fun _ => [], fun _ => []⟩

/-- An operation that succeeds with these bytes. No interceptor is attached, and what is written at
once is written. -/
def succeeded (data : Text) : Completion :=
  ⟨.success, data.length, data, fun _ i => i, false, .success⟩

/-- A client that waits with the body of its request. -/
def expectedBody : List Event :=
  [.start, .complete .on_read_request_head (succeeded (text ("PUT / HTTP/1.1\r\nHost: a\r\n" ++
    "Expect: 100-continue\r\nContent-Length: 3\r\n\r\n")))]

/-- The client is told to go on, but nothing is there to read what it sends. -/
theorem an_expected_body_is_not_read :
    ∃ s, run (step defaults) (new defaults) expectedBody = some s ∧ s.outstanding = [] ∧
      ¬ ExactlyOne s := by
  refine ⟨_, rfl, rfl, ?_⟩
  intro h
  cases h

end proxy.http.http1.HttpService
