-- How the two loops of the service close, whatever completes first: what each
-- phase of a loop is, and that all handlers keep to the phases.
import Aether.Lib.Runs
import Aether.Websocket.ServiceEvents

open lib.runs

namespace proxy.websocket.websocket_service

open protocol extensions

variable {z : Zlib}

/-! ## The phases of a loop -/

/-- There is no close frame before the last frame, and the last can only be this one. -/
structure ClosedBy (frame : CloseFrame) (frames : List CompletedFrame) : Prop where
  before : ∀ f ∈ frames.dropLast, closes f = false
  only : ∀ f, .close f ∈ frames → f = frame

theorem closedBy_of_no_close (frame : CloseFrame) {frames : List CompletedFrame}
    (h : ∀ f ∈ frames, closes f = false) : ClosedBy frame frames where
  before f hf := h f (List.dropLast_subset _ hf)
  only f hf := by cases h _ hf

theorem closedBy_snoc (frame : CloseFrame) {frames : List CompletedFrame}
    (h : ∀ f ∈ frames, closes f = false) : ClosedBy frame (frames ++ [.close frame]) where
  before f hf := by
    rw [List.dropLast_concat] at hf
    exact h f hf
  only f hf := by
    rcases List.mem_append.mp hf with hf | hf
    · cases h _ hf
    · cases List.mem_singleton.mp hf
      rfl

/-- The loop has not begun to close. -/
structure Opened (l : Loop z) : Prop where
  finished : l.connection.finished = false
  finishes : l.finishes = 0
  no_close : ∀ f ∈ l.serialized, closes f = false

/-- It waits for the write of its output, or for a read. -/
structure Running (l : Loop z) : Prop extends Opened l where
  one : l.pending.length ≤ 1
  not_closing : .on_close ∉ l.pending

/-- Where a loop is between two handlers. -/
inductive Phase (pl : Pipeline) (l : Loop z) : Prop where
  | running (h : Running l)
  | closing (closed : pl.closed_ = true) (pending : l.pending = [.on_close])
    (finished : l.connection.finished = false) (finishes : l.finishes = 0)
    (frames : ClosedBy pl.closed_frame_ l.serialized)
  | finished (closed : pl.closed_ = true) (pending : l.pending = [])
    (finished : l.connection.finished = true) (finishes : l.finishes = 1)
    (frames : ClosedBy pl.closed_frame_ l.serialized)

theorem Phase.running_of_open {pl : Pipeline} {l : Loop z} (h : Phase pl l)
    (ho : pl.closed_ = false) : Running l := by
  cases h with
  | running h => exact h
  | closing closed => rw [closed] at ho; cases ho
  | finished closed => rw [closed] at ho; cases ho

/-! ## The service between two handlers, and in one -/

/-- No close frame is queued, and what a loop has serialized is what the calls of its manager were
given. -/
structure Sound (managers : Endpoint → FrameParser z) (s : Service z) : Prop where
  queued : ∀ ep, ∀ f ∈ s.pipeline.frame_queue ep, closes f = false
  calls : ∀ ep, Calls (managers ep) [] (s.loop ep).serialized (s.loop ep).connection.manager
    (s.loop ep).connection.output

structure Settled (managers : Endpoint → FrameParser z) (s : Service z) : Prop
    extends Sound managers s where
  phase : ∀ ep, Phase s.pipeline (s.loop ep)
  stops : s.stops =
    if (s.loop .client).connection.finished && (s.loop .server).connection.finished then 1 else 0

/-- A handler of the loop runs: no operation of the loop is under way. -/
structure Handling (managers : Endpoint → FrameParser z) (s : Service z) (ep : Endpoint) : Prop
    extends Sound managers s where
  opened : Opened (s.loop ep)
  pending : (s.loop ep).pending = []
  other : Phase s.pipeline (s.loop (flip_endpoint ep))
  stops : s.stops = 0

/-- The loop has sent all that it will send. -/
structure Ending (managers : Endpoint → FrameParser z) (s : Service z) (ep : Endpoint) : Prop
    extends Sound managers s where
  closed : s.pipeline.closed_ = true
  finished : (s.loop ep).connection.finished = false
  finishes : (s.loop ep).finishes = 0
  frames : ClosedBy s.pipeline.closed_frame_ (s.loop ep).serialized
  pending : (s.loop ep).pending = []
  other : Phase s.pipeline (s.loop (flip_endpoint ep))
  stops : s.stops = 0

variable {managers : Endpoint → FrameParser z} {s : Service z} {ep : Endpoint}

theorem Opened.connection {l l' : Loop z} (h : Opened l)
    (hf : l'.connection.finished = l.connection.finished) (hn : l'.finishes = l.finishes)
    (hs : l'.serialized = l.serialized) : Opened l' where
  finished := hf.trans h.finished
  finishes := hn.trans h.finishes
  no_close := by rw [hs]; exact h.no_close

theorem Sound.of_loop (h : Sound managers s) {l : Loop z}
    (hl : Calls (managers ep) [] l.serialized l.connection.manager l.connection.output) :
    Sound managers (s.set_loop ep l) where
  queued := h.queued
  calls ep' := by
    by_cases he : ep' = ep
    · subst he
      rw [Service.set_loop_self]
      exact hl
    · rw [Service.set_loop_other _ _ he]
      exact h.calls ep'

theorem settled_of {s : Service z} (hsound : Sound managers s) (ep : Endpoint)
    (hself : Phase s.pipeline (s.loop ep))
    (hother : Phase s.pipeline (s.loop (flip_endpoint ep)))
    (hstops : s.stops =
      if (s.loop ep).connection.finished && (s.loop (flip_endpoint ep)).connection.finished then 1
      else 0) : Settled managers s := by
  refine ⟨hsound, ?_, ?_⟩
  · intro ep'
    rcases eq_or_flip ep ep' with rfl | rfl
    · exact hself
    · exact hother
  · cases ep with
    | client => exact hstops
    | server => rw [hstops, Bool.and_comm]; rfl

/-! ## The end of a connection -/

theorem on_finish_eq (s : Service z) (ep : Endpoint) :
    on_finish s = { s with stops := s.stops +
      if (s.loop ep).connection.finished && (s.loop (flip_endpoint ep)).connection.finished then 1
      else 0 } := by
  have hboth : ((s.loop .client).connection.finished && (s.loop .server).connection.finished) =
      ((s.loop ep).connection.finished && (s.loop (flip_endpoint ep)).connection.finished) := by
    cases ep with
    | client => rfl
    | server => exact Bool.and_comm ..
  unfold on_finish
  rw [hboth]
  split <;> rfl

theorem Ending.finish_connection (h : Ending managers s ep) :
    Settled managers (finish_connection s ep) := by
  have hother : (s.set_loop ep (s.loop ep).finish).loop (flip_endpoint ep) =
      s.loop (flip_endpoint ep) := Service.set_loop_other _ _ (flip_ne ep)
  have hsound : Sound managers (s.set_loop ep (s.loop ep).finish) := h.toSound.of_loop (h.calls ep)
  unfold websocket_service.finish_connection
  rw [on_finish_eq _ ep]
  refine settled_of ⟨hsound.queued, hsound.calls⟩ ep ?_ ?_ ?_
  · simp only [Service.set_loop_self]
    exact .finished h.closed h.pending rfl (by rw [Loop.finish, h.finishes]) h.frames
  · simp only [hother]
    exact h.other
  · simp only [Service.set_loop_stops, h.stops, Nat.zero_add]

/-- A closed pipeline is not closed in another way by the loop that ends. -/
theorem Handling.ending (h : Handling managers s ep) (hc : s.pipeline.closed_ = true) :
    Ending managers s ep where
  toSound := h.toSound
  closed := hc
  finished := h.opened.finished
  finishes := h.opened.finishes
  frames := closedBy_of_no_close _ h.opened.no_close
  pending := h.pending
  other := h.other
  stops := h.stops

theorem Sound.absorb (h : Sound managers s) {handled : Handled z} {trace : List CompletedFrame}
    (hq : ∀ ep, ∀ f ∈ handled.pipeline.frame_queue ep, closes f = false)
    (hcalls : Calls (s.loop ep).connection.manager (s.loop ep).connection.output trace
      handled.connection.manager handled.connection.output) :
    Sound managers (s.absorb ep handled trace) := by
  have hpl : Sound managers { s with pipeline := handled.pipeline } := ⟨hq, h.calls⟩
  exact hpl.of_loop ((h.calls ep).append hcalls)

theorem Sound.start_async (h : Sound managers s) (ep : Endpoint) (op : Operation) :
    Sound managers (s.start_async ep op) := h.of_loop (h.calls ep)

/-- A loop that is being handled waits for an operation again. -/
theorem Handling.wait (h : Handling managers s ep) {op : Operation} (hop : op ≠ .on_close) :
    Settled managers (s.start_async ep op) := by
  refine settled_of (h.toSound.start_async ep op) ep ?_ ?_ ?_
  · rw [Service.start_async_self]
    refine .running ⟨h.opened.connection rfl rfl rfl, ?_, ?_⟩
    · simp [h.pending]
    · simp [h.pending, hop.symm]
  · rw [Service.start_async_other]
    exact h.other
  · simp only [Service.start_async_stops, Service.start_async_self, h.opened.finished,
      Bool.false_and, Bool.false_eq_true, if_false]
    exact h.stops

theorem Handling.close_connection (h : Handling managers s ep) (hc : s.pipeline.closed_ = true) :
    Settled managers (close_connection s ep) := by
  generalize hframe : CompletedFrame.close s.pipeline.closed_frame_ = frame
  have hpl := serialize_pipeline s.pipeline (s.loop ep).connection frame
  have hfin := (serialize_same s.pipeline (s.loop ep).connection frame).1.trans h.opened.finished
  have htrace := serialized_eq s.pipeline (s.loop ep).connection frame
  have hcalls := serialize_calls s.pipeline (s.loop ep).connection frame
  unfold websocket_service.close_connection
  simp only [h.opened.finished, Bool.not_false, if_true, hframe]
  generalize serialize s.pipeline (s.loop ep).connection frame = sent at *
  have hsound : Sound managers (s.absorb ep sent (serialized (s.loop ep).connection frame)) :=
    h.toSound.absorb (by rw [hpl]; exact h.queued) hcalls
  rcases hres : sent.result with e | _
  · -- Nothing was written.
    rw [hres] at htrace
    apply Ending.finish_connection
    refine ⟨hsound, ?_, ?_, ?_, ?_, ?_, ?_, h.stops⟩
    · simpa [hpl] using hc
    · simpa using hfin
    · simpa using h.opened.finishes
    · simpa [htrace] using closedBy_of_no_close _ h.opened.no_close
    · simpa using h.pending
    · simpa [hpl] using h.other
  · rw [hres] at htrace
    refine settled_of (hsound.start_async ep .on_close) ep ?_ ?_ ?_
    · simp only [Service.start_async_self, Service.start_async_pipeline, Service.absorb_self,
        Service.absorb_pipeline, hpl, htrace]
      rw [← hframe]
      exact .closing hc (by rw [h.pending]; rfl) hfin h.opened.finishes
        (closedBy_snoc _ h.opened.no_close)
    · simpa [hpl] using h.other
    · simp [hfin, h.stops]

/-! ## The handlers -/

/-- A handler of the loop runs, and the other loop has not begun to close. -/
structure Free (managers : Endpoint → FrameParser z) (s : Service z) (ep : Endpoint) : Prop
    extends Sound managers s where
  opened : Opened (s.loop ep)
  pending : (s.loop ep).pending = []
  other : Running (s.loop (flip_endpoint ep))
  stops : s.stops = 0

theorem Free.handling (h : Free managers s ep) : Handling managers s ep :=
  ⟨h.toSound, h.opened, h.pending, .running h.other, h.stops⟩

theorem Handling.free (h : Handling managers s ep) (ho : s.pipeline.closed_ = false) :
    Free managers s ep :=
  ⟨h.toSound, h.opened, h.pending, h.other.running_of_open ho, h.stops⟩

/-- It is still for the handler to say how the pipeline closes. -/
theorem Free.set_close_state (h : Free managers s ep) (closer : Endpoint) (frame : CloseFrame) :
    Handling managers (s.set_close_state closer frame) ep := by
  have hfree : Free managers (s.set_close_state closer frame) ep := by
    refine ⟨⟨?_, h.calls⟩, h.opened, h.pending, h.other, h.stops⟩
    intro ep'
    have hqueued := h.queued ep'
    cases ep' <;> exact hqueued
  exact hfree.handling

theorem Free.close (h : Free managers s ep) (closer : Endpoint) (frame : CloseFrame) :
    Settled managers (close_connection (s.set_close_state closer frame) ep) :=
  (h.set_close_state closer frame).close_connection rfl

theorem Free.absorb (h : Free managers s ep) {handled : Handled z} {trace : List CompletedFrame}
    (hq : ∀ ep, ∀ f ∈ handled.pipeline.frame_queue ep, closes f = false)
    (hw : Wrote (s.loop ep).connection trace handled) :
    Free managers (s.absorb ep handled trace) ep := by
  refine ⟨h.toSound.absorb hq hw.calls, ?_, ?_, ?_, h.stops⟩
  · rw [Service.absorb_self]
    refine ⟨hw.finished.trans h.opened.finished, h.opened.finishes, ?_⟩
    intro f hf
    rcases List.mem_append.mp hf with hf | hf
    · exact h.opened.no_close f hf
    · exact hw.no_close f hf
  · rw [Service.absorb_self]
    exact h.pending
  · rw [Service.absorb_other]
    exact h.other

/-- An interceptor that leaves the pipeline alone. -/
def LeavesPipeline (received : Interceptors) : Prop := ∀ pl msg, (received pl msg).1 = pl

section

variable {received : Interceptors} (hr : LeavesPipeline received)

include hr

/-- A frame queues a pong at most. -/
theorem on_frame_queued {pl : Pipeline} (hq : ∀ ep, ∀ f ∈ pl.frame_queue ep, closes f = false)
    (connection : Connection z) (frame : CompletedFrame) :
    ∀ ep, ∀ f ∈ (on_frame received pl connection frame).pipeline.frame_queue ep,
      closes f = false := by
  intro ep f hf
  cases frame with
  | ping payload =>
    simp only [on_frame, on_ping_frame, serialize_pipeline] at hf
    have hpush : f ∈ pl.frame_queue ep ∨ f = .pong payload := by
      revert hf
      cases connection.source_ep <;> cases ep <;>
        simp [Pipeline.inject_frame, Pipeline.push_frame, Pipeline.frame_queue] <;> tauto
    rcases hpush with hf | rfl
    · exact hq ep f hf
    · rfl
  | pong payload => exact hq ep f hf
  | close frame =>
    refine hq ep f ?_
    revert hf
    cases ep <;> exact id
  | message frame =>
    unfold on_frame at hf
    simp only at hf
    split at hf
    · rw [on_message_frame_pipeline hr] at hf
      exact hq ep f hf
    · exact hq ep f hf

theorem on_frames_queued {pl : Pipeline} (hq : ∀ ep, ∀ f ∈ pl.frame_queue ep, closes f = false)
    (connection : Connection z) (frames : List CompletedFrame) :
    ∀ ep, ∀ f ∈ (on_frames received pl connection frames).pipeline.frame_queue ep,
      closes f = false := by
  induction frames generalizing pl connection with
  | nil => exact hq
  | cons frame frames ih =>
    have hframe := on_frame_queued hr hq connection frame
    rw [on_frames]
    unfold Handled.bind
    split
    · exact hframe
    · exact ih hframe _

end

theorem frame_queue_pop_frame (pl : Pipeline) (destination ep : Endpoint) :
    ∀ f ∈ (pl.pop_frame destination).frame_queue ep, f ∈ pl.frame_queue ep := by
  intro f
  cases destination <;> cases ep <;> first | exact id | exact List.mem_of_mem_tail

theorem inject_frames_queued (frames : List CompletedFrame) {pl : Pipeline}
    (hq : ∀ ep, ∀ f ∈ pl.frame_queue ep, closes f = false) (connection : Connection z) :
    ∀ ep, ∀ f ∈ (inject_frames frames pl connection).pipeline.frame_queue ep, closes f = false := by
  induction frames generalizing pl connection with
  | nil => exact hq
  | cons frame frames ih =>
    rw [inject_frames]
    unfold Handled.bind
    split
    · rw [serialize_pipeline]
      exact hq
    · rw [serialize_pipeline]
      exact ih (fun ep f hf => hq ep f (frame_queue_pop_frame _ _ _ f hf)) _

theorem inject_messages_queued (msgs : List Message) {pl : Pipeline}
    (hq : ∀ ep, ∀ f ∈ pl.frame_queue ep, closes f = false) (connection : Connection z) :
    ∀ ep, ∀ f ∈ (inject_messages msgs pl connection).pipeline.frame_queue ep, closes f = false := by
  induction msgs generalizing pl connection with
  | nil => exact hq
  | cons msg msgs ih =>
    rw [inject_messages]
    unfold Handled.bind
    split
    · rw [send_message_pipeline]
      exact hq
    · rw [send_message_pipeline]
      refine ih (fun ep f hf => hq ep f ?_) _
      revert hf
      cases (send_message pl connection msg).connection.destination_ep <;> cases ep <;> exact id

/-- What `websocket_loop_impl` leaves: all is settled, or it failed before anything was closed. -/
inductive Outcome (managers : Endpoint → FrameParser z) (ep : Endpoint) :
    Service z × Except Error Unit → Prop where
  | settled {s : Service z} (h : Settled managers s) : Outcome managers ep (s, .ok ())
  | failed {s : Service z} {e : Error} (h : Free managers s ep) : Outcome managers ep (s, .error e)

theorem Free.parsed (h : Free managers s ep) :
    Free managers (s.set_loop ep { s.loop ep with connection := parsed (s.loop ep).connection })
      ep := by
  refine ⟨h.toSound.of_loop ?_, ?_, ?_, ?_, h.stops⟩
  · have hparse := Calls.parsed (s.loop ep).connection.input
      (Calls.done (manager_parse (s.loop ep).connection.manager
        (s.loop ep).connection.input).parser (s.loop ep).connection.output)
    have hcalls := (h.calls ep).append hparse
    rw [List.append_nil] at hcalls
    exact hcalls
  · rw [Service.set_loop_self]
    exact h.opened.connection rfl rfl rfl
  · rw [Service.set_loop_self]
    exact h.pending
  · rw [Service.set_loop_other _ _ (flip_ne ep)]
    exact h.other

/-- A handler that writes no close frame and queues none may fail, or leave the rest to the next. -/
theorem Free.return_if_error (h : Free managers s ep)
    {handler : Pipeline → Connection z → Handled z}
    {trace : Pipeline → Connection z → List CompletedFrame}
    {next : Service z → Service z × Except Error Unit}
    (hq : ∀ ep', ∀ f ∈ (handler s.pipeline (s.loop ep).connection).pipeline.frame_queue ep',
      closes f = false)
    (hw : Wrote (s.loop ep).connection (trace s.pipeline (s.loop ep).connection)
      (handler s.pipeline (s.loop ep).connection))
    (hnext : ∀ s', Free managers s' ep → Outcome managers ep (next s')) :
    Outcome managers ep (return_if_error s ep handler trace next) := by
  have hfree := h.absorb hq hw
  unfold websocket_service.return_if_error
  simp only
  rcases (handler s.pipeline (s.loop ep).connection).result with e | _
  · exact .failed hfree
  · exact hnext _ hfree

section

variable {received : Interceptors} (hr : LeavesPipeline received)

include hr

theorem Free.handle_frames (h : Free managers s ep) (frames : List CompletedFrame) :
    Outcome managers ep (handle_frames received s ep frames) := by
  apply h.return_if_error
  · exact on_frames_queued hr h.queued _ frames
  · exact on_frames_wrote received _ _ frames
  intro s1 h1
  by_cases hc : s1.pipeline.closed_ = true
  · rw [if_pos hc]
    exact .settled (h1.handling.close_connection hc)
  rw [if_neg hc]
  apply h1.return_if_error
  · exact inject_frames_queued _ h1.queued _
  · exact inject_frames_wrote (h1.queued _) _ _
  intro s2 h2
  apply h2.return_if_error
  · exact inject_messages_queued _ h2.queued _
  · exact inject_messages_wrote _ _ _
  intro s3 h3
  exact .settled (h3.handling.wait (by decide))

theorem Handling.websocket_loop (h : Handling managers s ep) :
    Settled managers (websocket_loop received s ep) := by
  have himpl : Outcome managers ep (websocket_loop_impl received s ep) := by
    unfold websocket_service.websocket_loop_impl
    by_cases hc : s.pipeline.closed_ = true
    · rw [if_pos hc]
      exact .settled (h.close_connection hc)
    · rw [if_neg hc]
      have hparsed := (h.free (Bool.eq_false_iff.mpr hc)).parsed
      simp only
      rcases (manager_parse (s.loop ep).connection.manager (s.loop ep).connection.input).frames
        with e | frames
      · exact .failed hparsed
      · rcases (manager_parse (s.loop ep).connection.manager
          (s.loop ep).connection.input).should_close with _ | code
        · exact hparsed.handle_frames hr frames
        · exact .settled (hparsed.close _ _)
  unfold websocket_service.websocket_loop
  generalize websocket_service.websocket_loop_impl received s ep = outcome at himpl
  cases himpl with
  | settled h => exact h
  | failed h => exact h.close _ _

end

theorem Handling.on_error (h : Handling managers s ep) (error : IoError) :
    Settled managers (on_error s error ep) := by
  -- The pipeline is closed before the connection is.
  have hclosed : ∃ s', Handling managers s' ep ∧ s'.pipeline.closed_ = true ∧
      s' = if !s.pipeline.closed_ then
          s.set_close_state (s.loop ep).connection.source_ep ⟨.internal_error, error.message⟩
        else s := by
    by_cases hc : s.pipeline.closed_ = true
    · exact ⟨s, h, hc, by simp [hc]⟩
    · have hset := (h.free (Bool.eq_false_iff.mpr hc)).set_close_state
        (s.loop ep).connection.source_ep ⟨.internal_error, error.message⟩
      exact ⟨_, hset, rfl, by simp only [hc, Bool.not_false, if_true]⟩
  obtain ⟨s', h', hc, hs'⟩ := hclosed
  unfold websocket_service.on_error
  simp only
  rw [← hs']
  cases error with
  | eof message => exact (h'.ending hc).finish_connection
  | operation_aborted message => exact h'.close_connection hc
  | other message => exact h'.close_connection hc

theorem Handling.on_source_read {received : Interceptors} (hr : LeavesPipeline received)
    (h : Handling managers s ep) (data : Except IoError (List UInt8)) :
    Settled managers (on_source_read received s data ep) := by
  rcases data with error | bytes
  · cases error with
    | eof message => exact h.on_error (.eof message)
    | other message => exact h.on_error (.other message)
    | operation_aborted message =>
      simp only [websocket_service.on_source_read]
      split
      · rename_i hc
        exact h.close_connection hc
      · exact h.on_error _
  · apply Handling.websocket_loop hr
    refine ⟨h.toSound.of_loop (h.calls ep), ?_, ?_, ?_, h.stops⟩
    · rw [Service.set_loop_self]
      exact h.opened.connection rfl rfl rfl
    · rw [Service.set_loop_self]
      exact h.pending
    · rw [Service.set_loop_other _ _ (flip_ne ep)]
      exact h.other

/-! ## Runs -/

/-- The other loop may be stopped in its turn only when this one is. -/
theorem Settled.stops_zero (h : Settled managers s) (ep : Endpoint)
    (hf : (s.loop ep).connection.finished = false) : s.stops = 0 := by
  rw [h.stops]
  cases ep with
  | client => rw [hf]; rfl
  | server => rw [hf, Bool.and_false]; rfl

theorem Running.only {l : Loop z} (h : Running l) {op : Operation} (hop : op ∈ l.pending) :
    l.pending = [op] := by
  rcases l with ⟨connection, pending, serialized, finishes⟩
  have hone := h.one
  cases pending with
  | nil => cases hop
  | cons first rest =>
    cases rest with
    | nil => rw [List.mem_singleton.mp hop]
    | cons second rest => exact absurd hone (by simp)

/-- The loop whose operation completed is the only one that changes. -/
theorem Settled.begins (h : Settled managers s) (ep : Endpoint) (op : Operation) :
    Sound managers (s.set_loop ep { s.loop ep with pending := (s.loop ep).pending.erase op }) ∧
      Phase s.pipeline ((s.set_loop ep { s.loop ep with
        pending := (s.loop ep).pending.erase op }).loop (flip_endpoint ep)) := by
  refine ⟨h.toSound.of_loop (h.calls ep), ?_⟩
  rw [Service.set_loop_other _ _ (flip_ne ep)]
  exact h.phase _

theorem Settled.handling (h : Settled managers s) (hrun : Running (s.loop ep)) {op : Operation}
    (hop : op ∈ (s.loop ep).pending) :
    Handling managers (s.set_loop ep { s.loop ep with pending := (s.loop ep).pending.erase op })
      ep := by
  obtain ⟨hsound, hother⟩ := h.begins ep op
  refine ⟨hsound, ?_, ?_, hother, ?_⟩
  · rw [Service.set_loop_self]
    exact hrun.toOpened.connection rfl rfl rfl
  · rw [Service.set_loop_self, hrun.only hop]
    exact List.erase_cons_head ..
  · exact h.stops_zero ep hrun.finished

theorem Settled.ending (h : Settled managers s) (closed : s.pipeline.closed_ = true)
    (pending : (s.loop ep).pending = [.on_close])
    (finished : (s.loop ep).connection.finished = false) (finishes : (s.loop ep).finishes = 0)
    (frames : ClosedBy s.pipeline.closed_frame_ (s.loop ep).serialized) :
    Ending managers (s.set_loop ep { s.loop ep with
      pending := (s.loop ep).pending.erase .on_close }) ep := by
  obtain ⟨hsound, hother⟩ := h.begins ep .on_close
  refine ⟨hsound, closed, ?_, ?_, ?_, ?_, hother, ?_⟩
  · rw [Service.set_loop_self]
    exact finished
  · rw [Service.set_loop_self]
    exact finishes
  · rw [Service.set_loop_self]
    exact frames
  · rw [Service.set_loop_self, pending]
    rfl
  · exact h.stops_zero ep finished

theorem settled_step {received : Interceptors} (hr : LeavesPipeline received) {s s' : Service z}
    {e : Event} (h : Settled managers s) (hs : step received s e = some s') :
    Settled managers s' := by
  unfold step at hs
  simp only at hs
  split at hs
  case isFalse => cases hs
  rename_i hop
  cases hs
  rcases e with ⟨ep, completion⟩
  unfold handle
  cases h.phase ep with
  | running hrun =>
    have hhandling := h.handling hrun hop
    cases completion with
    | write error =>
      cases error with
      | none => exact hhandling.wait (by decide)
      | some error => exact hhandling.on_error error
    | read data => exact hhandling.on_source_read hr data
    | close error => exact absurd hop hrun.not_closing
  | closing closed pending finished finishes frames =>
    cases completion with
    | close error =>
      exact (h.ending closed pending finished finishes frames).finish_connection
    -- The only operation under way is the write of the close frame.
    | write error =>
      rw [pending] at hop
      cases List.mem_singleton.mp hop
    | read data =>
      rw [pending] at hop
      cases List.mem_singleton.mp hop
  | finished closed pending =>
    rw [pending] at hop
    cases hop

/-! ## The start -/

/-- The loop of one endpoint leaves that of the other alone. -/
def Keeps (s s' : Service z) (ep : Endpoint) : Prop :=
  s'.loop (flip_endpoint ep) = s.loop (flip_endpoint ep)

theorem keeps_finish_connection (s : Service z) (ep : Endpoint) :
    Keeps s (finish_connection s ep) ep := by
  unfold Keeps finish_connection
  rw [on_finish_eq _ ep]
  exact Service.set_loop_other _ _ (flip_ne ep)

theorem keeps_close_connection (s : Service z) (ep : Endpoint) :
    Keeps s (close_connection s ep) ep := by
  unfold Keeps close_connection
  simp only
  split
  · split
    · exact (keeps_finish_connection _ ep).trans (Service.absorb_other ..)
    · exact (Service.start_async_other ..).trans (Service.absorb_other ..)
  · rw [on_finish_eq s ep]

theorem keeps_return_if_error {s s0 : Service z} {ep : Endpoint}
    {handler : Pipeline → Connection z → Handled z}
    {trace : Pipeline → Connection z → List CompletedFrame}
    {next : Service z → Service z × Except Error Unit} (hs : Keeps s0 s ep)
    (hnext : ∀ s', Keeps s0 s' ep → Keeps s0 (next s').1 ep) :
    Keeps s0 (return_if_error s ep handler trace next).1 ep := by
  have habsorb := (Service.absorb_other s ep (handler s.pipeline (s.loop ep).connection)
    (trace s.pipeline (s.loop ep).connection)).trans hs
  unfold return_if_error
  simp only
  split
  · exact habsorb
  · exact hnext _ habsorb

theorem keeps_websocket_loop (received : Interceptors) (s : Service z) (ep : Endpoint) :
    Keeps s (websocket_loop received s ep) ep := by
  have hhandle : ∀ s' frames, Keeps s s' ep →
      Keeps s (handle_frames received s' ep frames).1 ep := by
    intro s' frames hs'
    apply keeps_return_if_error hs'
    intro s1 h1
    split
    · exact (keeps_close_connection s1 ep).trans h1
    apply keeps_return_if_error h1
    intro s2 h2
    apply keeps_return_if_error h2
    intro s3 h3
    exact (Service.start_async_other ..).trans h3
  have himpl : Keeps s (websocket_loop_impl received s ep).1 ep := by
    unfold websocket_loop_impl
    simp only
    split
    · exact keeps_close_connection s ep
    · have hparsed : Keeps s (s.set_loop ep { s.loop ep with
          connection := parsed (s.loop ep).connection }) ep :=
            Service.set_loop_other _ _ (flip_ne ep)
      split
      · exact hparsed
      · split
        · exact (keeps_close_connection _ ep).trans hparsed
        · exact hhandle _ _ hparsed
  unfold websocket_loop
  generalize websocket_loop_impl received s ep = outcome at himpl
  rcases outcome with ⟨s', e | _⟩
  · exact (keeps_close_connection _ ep).trans himpl
  · exact himpl

theorem settled_start {received : Interceptors} (hr : LeavesPipeline received)
    (should_intercept : Bool) (exts : Endpoint → List (PermessageDeflate z))
    (generator : Endpoint → Nat → UInt32) (input : Endpoint → List UInt8) :
    Settled (fun ep => .new ep (exts ep) (generator ep))
      (start received (.new should_intercept exts generator input)) := by
  have hopened : ∀ ep, Opened ((Service.new should_intercept exts generator input).loop ep) :=
    fun _ => ⟨rfl, rfl, by simp [Service.new]⟩
  have hclient : Handling (fun ep => .new ep (exts ep) (generator ep))
      (.new should_intercept exts generator input) .client := by
    refine ⟨⟨?_, fun _ => .done _ _⟩, hopened _, rfl, .running ⟨hopened _, ?_, ?_⟩, rfl⟩
    · intro ep f hf
      cases ep <;> cases hf
    · exact Nat.zero_le _
    · exact List.not_mem_nil
  have hfirst := hclient.websocket_loop hr
  have hserver : (websocket_loop received (.new should_intercept exts generator input)
      .client).loop .server = (Service.new should_intercept exts generator input).loop .server :=
    keeps_websocket_loop received _ .client
  apply Handling.websocket_loop hr
  refine ⟨hfirst.toSound, ?_, ?_, hfirst.phase _, ?_⟩
  · rw [hserver]
    exact hopened _
  · rw [hserver]
    rfl
  · apply hfirst.stops_zero .server
    rw [hserver]
    rfl

/-! ## The law -/

/-- How the two loops close. -/
structure ClosesOnce (s : Service z) : Prop where
  one_pending : ∀ ep, (s.loop ep).pending.length ≤ 1
  /-- So there is at most one close frame, and nothing after it. -/
  close_last : ∀ ep, ∀ f ∈ (s.loop ep).serialized.dropLast, closes f = false
  same_close : ∀ ep ep' f g, .close f ∈ (s.loop ep).serialized →
    .close g ∈ (s.loop ep').serialized → f = g
  finishes : ∀ ep, (s.loop ep).finishes ≤ 1
  stops : s.stops ≤ 1
  both_finished : s.stops ≠ 0 → ∀ ep, (s.loop ep).connection.finished = true

theorem Phase.closedBy {pl : Pipeline} {l : Loop z} (h : Phase pl l) :
    ClosedBy pl.closed_frame_ l.serialized := by
  cases h with
  | running h => exact closedBy_of_no_close _ h.no_close
  | closing closed pending finished finishes frames => exact frames
  | finished closed pending finished finishes frames => exact frames

theorem Settled.closesOnce (h : Settled managers s) : ClosesOnce s where
  one_pending ep := by
    cases h.phase ep with
    | running h => exact h.one
    | closing closed pending => rw [pending]; exact Nat.le_refl _
    | finished closed pending => rw [pending]; exact Nat.zero_le _
  close_last ep := (h.phase ep).closedBy.before
  same_close ep ep' f g hf hg :=
    ((h.phase ep).closedBy.only f hf).trans ((h.phase ep').closedBy.only g hg).symm
  finishes ep := by
    cases h.phase ep with
    | running h => rw [h.finishes]; exact Nat.zero_le _
    | closing closed pending finished finishes => rw [finishes]; exact Nat.zero_le _
    | finished closed pending finished finishes => rw [finishes]
  stops := by
    rw [h.stops]
    split <;> decide
  both_finished hstops ep := by
    have hone := h.stops
    split at hone
    · rename_i hboth
      rw [Bool.and_eq_true] at hboth
      cases ep with
      | client => exact hboth.1
      | server => exact hboth.2
    · exact absurd hone hstops

/-- Whatever completes, in whatever order: each loop waits for one operation at most, an endpoint
gets one close frame at most and nothing after it, the two close frames are the same, each
connection is finished once at most, and the service is stopped once at most, when both are. -/
theorem the_loops_close_once {received : Interceptors} (hr : LeavesPipeline received)
    (should_intercept : Bool) (exts : Endpoint → List (PermessageDeflate z))
    (generator : Endpoint → Nat → UInt32) (input : Endpoint → List UInt8) (es : List Event) :
    Throughout (step received)
      (fun s => ClosesOnce s ∧ ∀ ep, Calls (.new ep (exts ep) (generator ep)) []
        (s.loop ep).serialized (s.loop ep).connection.manager (s.loop ep).connection.output)
      (start received (.new should_intercept exts generator input)) es := by
  have hsettled : Throughout (step received)
      (Settled fun ep => .new ep (exts ep) (generator ep))
      (start received (.new should_intercept exts generator input)) es :=
    throughout_of_step (fun _ _ _ h hs => settled_step hr h hs)
      (settled_start hr should_intercept exts generator input) es
  exact hsettled.mono fun s h => ⟨h.closesOnce, h.calls⟩

/-- The server closes while the client is read from, and the client is cancelled. -/
theorem the_loops_close_once_when_the_server_ends :
    Throughout (step fun pl msg => (pl, msg))
      (fun s => ClosesOnce s ∧ ∀ ep, Calls (.new ep [] fun _ => 7) [] (s.loop ep).serialized
        (s.loop ep).connection.manager (s.loop ep).connection.output)
      (start (fun pl msg => (pl, msg))
        (.new false (fun _ => ([] : List (PermessageDeflate .inert))) (fun _ _ => 7) fun _ => []))
      [⟨.client, .write none⟩, ⟨.server, .write none⟩,
        ⟨.client, .read (.ok [0x88, 0x02, 0x03, 0xE8])⟩, ⟨.client, .close none⟩,
        ⟨.server, .read (.error (.operation_aborted []))⟩, ⟨.server, .close (some (.eof []))⟩] :=
  the_loops_close_once (fun _ _ => rfl) false _ _ _ _

end proxy.websocket.websocket_service
