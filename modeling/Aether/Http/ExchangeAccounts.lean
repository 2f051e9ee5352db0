-- How many requests and responses are written in a run of the service for HTTP. No exchange has two
-- of either, no response is passed on but for a request that was written, and a service that
-- follows another one finds all exchanges answered.
import Aether.Http.Continuations
import Aether.Http.ExchangeTurns

open util.string util.buffer lib.runs

namespace proxy.http.http1

/-- How far an exchange is. -/
inductive Turn where
  | asking
  | asked
  | answered
  | over
  deriving DecidableEq, Repr

/-- The turn in which something is to come. -/
def Continuation.turn : Continuation → Turn
  | .on_read_request_head | .on_read_request_body | .on_connect_server => .asking
  | .on_forward_request | .on_read_response_head | .on_read_response_body => .asked
  | .on_forward_response | .on_send_connect_response | .on_write_error_response
  | .switch_service _ => .answered
  | .stop => .over

namespace HttpService

/-- Within a handler: nothing is left yet, and nothing is written. -/
def Quiet (s u : HttpService) : Prop :=
  (u.outstanding, u.forwarded, u.delivered) = (s.outstanding, s.forwarded, s.delivered)

/-- What a handler has written: requests, responses, and those of them that are passed on. -/
structure Adds (s s' : HttpService) (asked answered passed : Nat) : Prop where
  forwarded : s'.forwarded.length = s.forwarded.length + asked
  delivered : s'.delivered.length = s.delivered.length + answered
  received : s'.received.length = s.received.length + passed

/-- The end of a handler of a turn. -/
inductive Moves (s s' : HttpService) : Turn → Prop
  | waits {turn : Turn} (k : Continuation) (next : s'.outstanding = s.outstanding ++ [k])
      (stays : k.turn = turn ∨ k.turn = .over) (adds : Adds s s' 0 0 0) : Moves s s' turn
  | asks (next : s'.outstanding = s.outstanding ++ [.on_forward_request])
      (adds : Adds s s' 1 0 0) : Moves s s' .asking
  | answers {turn : Turn} (k : Continuation) (next : s'.outstanding = s.outstanding ++ [k])
      (ends : k.turn = .answered ∨ k.turn = .over) (first : turn = .asking ∨ turn = .asked)
      (adds : Adds s s' 0 1 0) : Moves s s' turn
  | passes (next : s'.outstanding = s.outstanding ++ [.on_forward_response])
      (adds : Adds s s' 0 1 1) : Moves s s' .asked
  /-- A response to `Expect` is written. -/
  | continues (next : s'.outstanding = s.outstanding) (adds : Adds s s' 0 1 0) :
      Moves s s' .asking

variable {c : Components} {s u s' : HttpService} {t : Completion} {turn : Turn}

/-! ## Handlers -/

namespace Quiet

theorem refl (s : HttpService) : Quiet s s := rfl

theorem aimed (h : Quiet s u) (c : Components) : Quiet s (u.aimed c) := by
  unfold HttpService.aimed HttpService.set_server
  split
  · exact h
  · simp only
    split
    · exact h
    · exact h

theorem outstanding (h : Quiet s u) : u.outstanding = s.outstanding := (Prod.mk.inj h).1

theorem adds (h : Quiet s u) : Adds s u 0 0 0 := by
  obtain ⟨-, h⟩ := Prod.mk.inj h
  obtain ⟨hforwarded, hdelivered⟩ := Prod.mk.inj h
  exact ⟨by rw [hforwarded]; rfl, by rw [hdelivered]; rfl,
    by rw [HttpService.received, hdelivered]; rfl⟩

theorem waits (h : Quiet s u) {k : Continuation} (hk : k.turn = turn ∨ k.turn = .over) :
    Moves s (u.leave k) turn :=
  have hadds := h.adds
  .waits k (congrArg (· ++ [k]) h.outstanding) hk
    ⟨hadds.forwarded, hadds.delivered, hadds.received⟩

/-- A response that is not that of the server. -/
theorem adds_deliver (h : Quiet s u) (res : Response) : Adds s (u.deliver none res) 0 1 0 := by
  refine ⟨h.adds.forwarded, ?_, ?_⟩
  · show (u.delivered ++ [_]).length = _
    rw [List.length_append, h.adds.delivered]
    rfl
  · show ((u.delivered ++ [_]).filterMap Delivered.received).length = _
    rw [List.filterMap_append, List.length_append]
    exact h.adds.received

theorem answers (h : Quiet s u) {k : Continuation} (res : Response)
    (hk : k.turn = .answered ∨ k.turn = .over) (hturn : turn = .asking ∨ turn = .asked) :
    Moves s ((u.deliver none res).leave k) turn := by
  obtain ⟨hforwarded, hdelivered, hreceived⟩ := h.adds_deliver res
  exact .answers k (congrArg (· ++ [k]) h.outstanding) hk hturn ⟨hforwarded, hdelivered, hreceived⟩

theorem send_error_response (h : Quiet s u) (status : Status) (msg : Text)
    (hturn : turn = .asking ∨ turn = .asked) :
    Moves s (u.send_error_response status msg) turn :=
  answers (u := u.set_response (error_response status msg)) h _ (Or.inl rfl) hturn

theorem fail_operation (h : Quiet s u) (c : Components) (aborted other : Status)
    (error : ErrorCode) (hturn : turn = .asking ∨ turn = .asked) :
    Moves s (u.fail_operation c aborted other error) turn :=
  send_error_response (u := u.set_error (u.flow_.error.set_boost_error error)) h _ _ hturn

theorem fail (h : Quiet s u) {status : Status} {e : Error}
    (hturn : turn = .asking ∨ turn = .asked) (hs : u.fail status e = .ok s') :
    Moves s s' turn := by
  cases e with
  | state code message =>
    obtain rfl := Except.ok.inj hs
    exact send_error_response (u := u.set_error ⟨.success, some code, text message⟩) h _ _ hturn
  | undefined => cases hs
  | terminated => cases hs

end Quiet

/-! ### The response -/

theorem moves_modify_response (h : Quiet s u) : Moves s (u.modify_response c t) .asked := by
  have hadds := h.adds
  refine .passes (congrArg (· ++ [_]) h.outstanding) ⟨hadds.forwarded, ?_, ?_⟩
  · show (u.delivered ++ [_]).length = _
    rw [List.length_append, hadds.delivered]
    rfl
  · show ((u.delivered ++ [_]).filterMap Delivered.received).length = _
    rw [List.filterMap_append, List.length_append]
    exact congrArg (· + 1) hadds.received

theorem moves_read_response_body {eof : Bool} (h : Quiet s u)
    (hs : u.read_response_body c t eof = .ok s') : Moves s s' .asked := by
  unfold read_response_body at hs
  split at hs
  · exact h.fail (Or.inr rfl) hs
  · rename_i done p inp _
    have hread : Quiet s (u.server_read p inp) := h
    simp only at hs
    split at hs
    · obtain rfl := Except.ok.inj hs
      exact moves_modify_response hread
    · split at hs
      · obtain rfl := Except.ok.inj hs
        exact Quiet.send_error_response
          (u := (u.server_read p inp).set_error ⟨.eof, some .malformed_response_body, []⟩)
          hread _ _ (Or.inr rfl)
      · obtain rfl := Except.ok.inj hs
        exact hread.waits (Or.inl rfl)

theorem moves_on_read_response_body (hs : s.on_read_response_body c t = .ok s') :
    Moves s s' .asked := by
  unfold on_read_response_body at hs
  split at hs
  · split at hs
    · exact moves_read_response_body (.refl s) hs
    · obtain rfl := Except.ok.inj hs
      exact (Quiet.refl s).fail_operation _ _ _ _ (Or.inr rfl)
  · exact moves_read_response_body (.refl s) hs

theorem moves_on_read_response_head (hs : s.on_read_response_head c t = .ok s') :
    Moves s s' .asked := by
  unfold on_read_response_head at hs
  split at hs
  · obtain rfl := Except.ok.inj hs
    exact (Quiet.refl s).fail_operation _ _ _ _ (Or.inr rfl)
  · have h : Quiet s (s.set_exchange s.exchange_.make_response) := .refl s
    simp only at hs
    split at hs
    · exact h.fail (Or.inr rfl) hs
    · rename_i p inp _
      split at hs
      · exact Quiet.fail (u := (s.set_exchange s.exchange_.make_response).server_read _ _) h
          (Or.inr rfl) hs
      · exact moves_read_response_body
          (u := (s.set_exchange s.exchange_.make_response).server_read _ _) h hs

theorem moves_on_forward_request : Moves s (s.on_forward_request c t) .asked := by
  unfold on_forward_request
  split
  · exact (Quiet.refl s).fail_operation _ _ _ _ (Or.inr rfl)
  · exact (Quiet.refl s).waits (Or.inl rfl)

/-! ### The end of an exchange -/

theorem moves_on_forward_response : Moves s (s.on_forward_response c t) .answered := by
  have h := Quiet.refl s
  unfold on_forward_response
  split
  · exact Quiet.waits (u := s.set_error (s.flow_.error.set_boost_error t.error)) (k := .stop) h
      (Or.inr rfl)
  · unfold handle_response
    split
    · exact h.waits (Or.inr rfl)
    · split
      · split
        · exact h.waits (Or.inl rfl)
        · exact h.waits (Or.inl rfl)
      · exact h.waits (Or.inl rfl)

theorem moves_on_send_connect_response : Moves s (s.on_send_connect_response c) .answered := by
  have h := Quiet.refl s
  unfold on_send_connect_response
  split
  · split
    · exact h.waits (Or.inl rfl)
    · split
      · exact h.waits (Or.inl rfl)
      · exact h.waits (Or.inl rfl)
  · split
    · exact h.waits (Or.inl rfl)
    · exact h.waits (Or.inr rfl)

/-! ### The request -/

theorem moves_handle_connect (h : Quiet s u) (hs : u.handle_connect c t = .ok s') :
    Moves s s' .asking := by
  have haimed : Quiet s ((u.intercept t .connect).aimed c) :=
    Quiet.aimed (u := u.intercept t .connect) h c
  unfold aimed at haimed
  unfold handle_connect at hs
  simp only at hs
  split at hs
  · rename_i heq
    rw [heq] at haimed
    exact haimed.fail (Or.inl rfl) hs
  · rename_i s₂ heq
    rw [heq] at haimed
    obtain rfl := Except.ok.inj hs
    split
    · exact haimed.answers _ (Or.inl rfl) (Or.inl rfl)
    · exact Quiet.answers (u := s₂.set_response connect_response) haimed _ (Or.inl rfl)
        (Or.inl rfl)

theorem moves_handle_expect (h : Quiet s u) : Moves s (u.handle_expect t) .asking := by
  unfold handle_expect
  simp only
  split
  · exact h.answers _ (Or.inr rfl) (Or.inl rfl)
  · obtain ⟨hforwarded, hdelivered, hreceived⟩ := h.adds_deliver continue_response
    exact .continues h.outstanding ⟨hforwarded, hdelivered, hreceived⟩

theorem moves_handle_other (h : Quiet s u) (hs : u.handle_other c t = .ok s') :
    Moves s s' .asking := by
  have haimed : Quiet s ((u.intercept t .request).aimed c) :=
    Quiet.aimed (u := u.intercept t .request) h c
  unfold aimed at haimed
  unfold handle_other at hs
  simp only at hs
  split at hs
  · rename_i heq
    rw [heq] at haimed
    exact haimed.fail (Or.inl rfl) hs
  · rename_i s₂ heq
    rw [heq] at haimed
    split at hs
    · obtain rfl := Except.ok.inj hs
      exact haimed.answers _ (Or.inl rfl) (Or.inl rfl)
    · obtain rfl := Except.ok.inj hs
      have hconnects {w : HttpService} (h₃ : Quiet s w) :
          Moves s (w.connect_server t) .asking := by
        refine Quiet.waits (k := .on_connect_server)
          (u := { w with posted := _ }.set_server_connection _) ?_ (Or.inl rfl)
        exact h₃
      split
      · exact hconnects (w := s₂.intercept t .websocket_handshake) haimed
      · exact hconnects haimed

theorem moves_handle_request (h : Quiet s u) (hs : u.handle_request c t = .ok s') :
    Moves s s' .asking := by
  unfold handle_request at hs
  split at hs
  · exact h.fail (Or.inl rfl) hs
  · rename_i req _
    have hreq : Quiet s (u.intercept_request t req) := h
    simp only at hs
    split at hs
    · exact moves_handle_connect hreq hs
    · split at hs
      · obtain rfl := Except.ok.inj hs
        exact moves_handle_expect hreq
      · exact moves_handle_other hreq hs

theorem moves_read_request_body (h : Quiet s u) (hs : u.read_request_body c t = .ok s') :
    Moves s s' .asking := by
  unfold read_request_body at hs
  split at hs
  · exact h.fail (Or.inl rfl) hs
  · rename_i done p inp _
    have hread : Quiet s (u.client_read p inp) := h
    simp only at hs
    split at hs
    · exact moves_handle_request hread hs
    · obtain rfl := Except.ok.inj hs
      exact hread.waits (Or.inl rfl)

theorem moves_on_read_request_head (hs : s.on_read_request_head c t = .ok s') :
    Moves s s' .asking := by
  have h := Quiet.refl s
  unfold on_read_request_head at hs
  split at hs
  · split at hs
    · obtain rfl := Except.ok.inj hs
      exact h.waits (Or.inr rfl)
    · obtain rfl := Except.ok.inj hs
      exact h.fail_operation _ _ _ _ (Or.inl rfl)
  · split at hs
    · exact h.fail (Or.inl rfl) hs
    · split at hs
      · exact Quiet.fail (u := s.client_read _ _) h (Or.inl rfl) hs
      · exact moves_read_request_body (u := s.client_read _ _) h hs

theorem moves_on_connect_server : Moves s (s.on_connect_server c t) .asking := by
  unfold on_connect_server
  split
  · exact (Quiet.refl s).fail_operation _ _ _ _ (Or.inl rfl)
  · refine .asks rfl ⟨?_, rfl, rfl⟩
    show (s.forwarded ++ [_]).length = _
    exact List.length_append

/-- A handler of an operation. -/
theorem moves_handle {k : Continuation} (harrive : u.arrive t k = some s)
    (hs : s.handle c t k = .ok s') : Moves s s' k.turn := by
  cases k with
  | on_read_request_head => exact moves_on_read_request_head hs
  | on_read_request_body =>
    simp only [handle, on_read_request_body] at hs
    split at hs
    · obtain rfl := Except.ok.inj hs
      exact (Quiet.refl s).fail_operation _ _ _ _ (Or.inl rfl)
    · exact moves_read_request_body (.refl s) hs
  | on_connect_server =>
    obtain rfl := Except.ok.inj hs
    exact moves_on_connect_server
  | on_forward_request =>
    obtain rfl := Except.ok.inj hs
    exact moves_on_forward_request
  | on_read_response_head => exact moves_on_read_response_head hs
  | on_read_response_body => exact moves_on_read_response_body hs
  | on_forward_response =>
    obtain rfl := Except.ok.inj hs
    exact moves_on_forward_response
  | on_send_connect_response =>
    obtain rfl := Except.ok.inj hs
    exact moves_on_send_connect_response
  | on_write_error_response =>
    obtain rfl := Except.ok.inj hs
    exact Quiet.waits (u := s.intercept t .error) (.refl s) (Or.inr rfl)
  | switch_service next => cases harrive
  | stop => cases harrive

/-! ## Runs -/

/-- The accounts after some exchanges have begun, in a turn of the last one. -/
def Balanced (n : Nat) (s : HttpService) : Turn → Prop
  | .asking => s.forwarded.length < n ∧ s.delivered.length + 1 = n ∧
      s.received.length ≤ s.forwarded.length
  | .asked => s.forwarded.length ≤ n ∧ s.delivered.length + 1 = n ∧
      s.received.length < s.forwarded.length
  | .answered => s.forwarded.length ≤ n ∧ s.delivered.length = n ∧
      s.received.length ≤ s.forwarded.length
  | .over => s.forwarded.length ≤ n ∧ s.delivered.length ≤ n ∧ n ≤ s.delivered.length + 1 ∧
      s.received.length ≤ s.forwarded.length

/-- What is to come, if anything is, is of the turn. -/
inductive Accounts (n : Nat) (s : HttpService) : Prop
  | next (k : Continuation) (next : s.outstanding = [k]) (balanced : Balanced n s k.turn)
  | nothing (next : s.outstanding = []) (balanced : Balanced n s .over)

theorem Balanced.over {n : Nat} (h : Balanced n s turn) : Balanced n s .over := by
  cases turn <;> simp only [Balanced] at h ⊢ <;> omega

/-- A handler of a turn keeps the accounts. -/
theorem accounts_moves {n : Nat} (hnil : s.outstanding = []) (h : Balanced n s turn)
    (hs : Moves s s' turn) : Accounts n s' := by
  cases hs with
  | waits k next stays adds =>
    obtain ⟨hforwarded, hdelivered, hreceived⟩ := adds
    rw [hnil] at next
    have h' : Balanced n s' turn := by
      cases turn <;> simp only [Balanced] at h ⊢ <;> omega
    rcases stays with rfl | hover
    · exact .next k next h'
    · exact .next k next (hover ▸ h'.over)
  | asks next adds =>
    obtain ⟨hforwarded, hdelivered, hreceived⟩ := adds
    rw [hnil] at next
    refine .next _ next ?_
    simp only [Balanced, Continuation.turn] at h ⊢
    omega
  | answers k next ends first adds =>
    obtain ⟨hforwarded, hdelivered, hreceived⟩ := adds
    rw [hnil] at next
    have h' : Balanced n s' .answered := by
      rcases first with rfl | rfl <;> simp only [Balanced] at h ⊢ <;> omega
    rcases ends with hanswered | hover
    · exact .next k next (hanswered ▸ h')
    · exact .next k next (hover ▸ h'.over)
  | passes next adds =>
    obtain ⟨hforwarded, hdelivered, hreceived⟩ := adds
    rw [hnil] at next
    refine .next _ next ?_
    simp only [Balanced, Continuation.turn] at h ⊢
    omega
  | continues next adds =>
    obtain ⟨hforwarded, hdelivered, hreceived⟩ := adds
    refine .nothing (next.trans hnil) ?_
    simp only [Balanced] at h ⊢
    omega

/-- The exchanges that an event begins. -/
def Event.begins : Event → Nat
  | .start => 1
  | _ => 0

/-- The exchanges that have begun. -/
def begun (es : List Event) : Nat := (es.map Event.begins).sum

theorem Balanced.congr {n : Nat} (h : Balanced n s turn) (hforwarded : s'.forwarded = s.forwarded)
    (hdelivered : s'.delivered = s.delivered) : Balanced n s' turn := by
  have hreceived : s'.received = s.received := by rw [received, hdelivered, received]
  cases turn <;> simp only [Balanced] at h ⊢ <;> rw [hforwarded, hdelivered, hreceived] <;> exact h

/-- A change that the accounts do not see. -/
theorem Accounts.congr {n : Nat} (h : Accounts n s) (hnext : s'.outstanding = s.outstanding)
    (hforwarded : s'.forwarded = s.forwarded) (hdelivered : s'.delivered = s.delivered) :
    Accounts n s' := by
  cases h with
  | next k next balanced =>
    exact .next k (hnext.trans next) (balanced.congr hforwarded hdelivered)
  | nothing next balanced =>
    exact .nothing (hnext.trans next) (balanced.congr hforwarded hdelivered)

theorem accounts_start {n : Nat} (h : Accounts n s) (hs : step c s .start = some s') :
    Accounts (n + 1) s' := by
  obtain ⟨hstarts, rfl⟩ := step_start hs
  -- A switch is to come, so all exchanges are answered.
  have hanswered : Balanced n s .answered := by
    cases h with
    | next k next balanced =>
      cases k with
      | switch_service service => exact balanced
      | _ => simp [starts, next] at hstarts
    | nothing next balanced => simp [starts, next] at hstarts
  have hasking : Balanced (n + 1) { s with outstanding := [] } .asking := by
    obtain ⟨hforwarded, hdelivered, hreceived⟩ := hanswered
    exact ⟨Nat.lt_succ_of_le hforwarded, congrArg (· + 1) hdelivered, hreceived⟩
  have hquiet : Quiet { s with outstanding := [] }
      { s with outstanding := [], parser_ := HttpParser.new c.body_size_limit .new } := rfl
  refine accounts_moves rfl hasking ?_
  unfold start
  simp only
  split
  · exact hquiet.send_error_response _ _ (Or.inl rfl)
  · exact hquiet.waits (Or.inl rfl)

theorem delivered_arrive {k : Continuation} (hs : s.arrive t k = some s') :
    s'.delivered = s.delivered := by
  cases k with
  | on_connect_server =>
    simp only [arrive] at hs
    split at hs
    · obtain rfl := Option.some.inj hs
      rfl
    · cases hs
  | on_forward_request | on_read_response_head | on_read_response_body =>
    simp only [arrive, Option.map_eq_some_iff] at hs
    obtain ⟨server, -, rfl⟩ := hs
    rfl
  | switch_service next => cases hs
  | stop => cases hs
  | _ =>
    obtain rfl := Option.some.inj hs
    rfl

theorem accounts_complete {n : Nat} {k : Continuation} (h : Accounts n s)
    (hs : step c s (.complete k t) = some s') : Accounts n s' := by
  obtain ⟨hk, u, harrive, hhandle⟩ := step_complete hs
  cases h with
  | next k' next balanced =>
    rw [next] at hk
    obtain rfl := List.mem_singleton.mp hk
    have h₁ := arrives_of_arrive harrive
    have hnil : u.outstanding = [] := by
      rw [h₁.outstanding, next]
      exact List.erase_cons_head _ _
    have hdelivered : u.delivered = s.delivered :=
      delivered_arrive (s := { s with outstanding := s.outstanding.erase k }) harrive
    have hbalanced := balanced.congr h₁.forwarded hdelivered
    exact accounts_moves hnil hbalanced (moves_handle harrive hhandle)
  | nothing next balanced =>
    rw [next] at hk
    cases hk

theorem accounts_step {n : Nat} {e : Event} (h : Accounts n s) (hs : step c s e = some s') :
    Accounts (n + e.begins) s' := by
  cases e with
  | start => exact accounts_start h hs
  | complete k t => exact accounts_complete h hs
  | callback e err =>
    obtain ⟨-, server, -, ⟨-, -, code, -, rfl⟩ | ⟨-, rfl⟩⟩ := step_callback hs
    · exact h.congr rfl rfl rfl
    · exact h.congr rfl rfl rfl
  | other_server e =>
    obtain ⟨-, -, server, -, rfl⟩ := step_other_server hs
    exact h.congr rfl rfl rfl
  | other_flow client_input error intercept_tls intercept_websocket =>
    obtain ⟨-, rfl⟩ := step_other_flow hs
    exact h.congr rfl rfl rfl

theorem accounts_run {n : Nat} {es : List Event} (h : Accounts n s)
    (hs : run (step c) s es = some s') : Accounts (n + begun es) s' := by
  induction es generalizing s n with
  | nil =>
    cases hs
    exact h
  | cons e es ih =>
    obtain ⟨u, he, hs⟩ := Option.bind_eq_some_iff.mp hs
    rw [begun, List.map_cons, List.sum_cons, ← Nat.add_assoc]
    exact ih (accounts_step h he) hs

/-- In every run, whatever the interceptors do. -/
theorem exchanges_are_accounted_for {es : List Event} (hs : run (step c) (new c) es = some s) :
    s.forwarded.length ≤ begun es ∧ s.received.length ≤ s.forwarded.length ∧
      s.delivered.length ≤ begun es ∧ begun es ≤ s.delivered.length + 1 ∧
      (∀ next, .switch_service next ∈ s.outstanding → s.delivered.length = begun es) := by
  have hnew : Accounts 0 (new c) := .next _ rfl ⟨Nat.le_refl 0, rfl, Nat.le_refl 0⟩
  have h := accounts_run hnew hs
  rw [Nat.zero_add] at h
  have hover : Balanced (begun es) s .over := by
    cases h with
    | next k next balanced => exact balanced.over
    | nothing next balanced => exact balanced
  obtain ⟨hforwarded, hdelivered, hlast, hreceived⟩ := hover
  refine ⟨hforwarded, hreceived, hdelivered, hlast, fun service hswitch => ?_⟩
  cases h with
  | next k next balanced =>
    rw [next] at hswitch
    obtain rfl := List.mem_singleton.mp hswitch
    exact balanced.2.1
  | nothing next balanced =>
    rw [next] at hswitch
    cases hswitch

/-- A request is sent to its server, and the response to the client. -/
def oneExchange : List Event :=
  [.start,
    .complete .on_read_request_head (succeeded (text "GET / HTTP/1.1\r\nHost: a:81\r\n\r\n")),
    .callback (.on_resolve (some 1)) .success, .callback (.on_connect true) .success,
    .complete .on_connect_server (succeeded []), .complete .on_forward_request (succeeded []),
    .complete .on_read_response_head
      (succeeded (text "HTTP/1.1 200 OK\r\nContent-Length: 0\r\n\r\n")),
    .complete .on_forward_response (succeeded [])]

theorem one_exchange_is_accounted_for : ∃ s,
    run (step defaults) (new defaults) oneExchange = some s ∧ s.forwarded.length ≤ 1 ∧
      s.received.length ≤ s.forwarded.length ∧ s.delivered.length ≤ 1 ∧
      1 ≤ s.delivered.length + 1 ∧
      (∀ next, .switch_service next ∈ s.outstanding → s.delivered.length = 1) := by
  have hruns : (run (step defaults) (new defaults) oneExchange).isSome = true := by decide +kernel
  obtain ⟨s, hs⟩ := Option.isSome_iff_exists.mp hruns
  exact ⟨s, hs, exchanges_are_accounted_for hs⟩

end HttpService

end proxy.http.http1
