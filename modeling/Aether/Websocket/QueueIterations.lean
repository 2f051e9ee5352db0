-- A loop that nobody disturbs: its steps are the iteration of the service, and
-- only the serializer can stop them.
import Aether.Lib.Runs
import Aether.Websocket.QueueSteps

namespace proxy.websocket.queues

open protocol extensions

variable {z : Zlib} {s s' : Service z} {ep : Endpoint} {alter : Message → Message}
  {pl pl' : Pipeline} {connection connection' : Connection z} {point point' : Point}

/-! ## A loop alone -/

/-- Some steps of one loop, and no other. -/
inductive Alone (ep : Endpoint) (alter : Message → Message) : Service z → Service z → Prop
  | done (s : Service z) : Alone ep alter s s
  | next {s s1 s' : Service z} (h : step s (.run ep alter) = some s1)
      (rest : Alone ep alter s1 s') :
      Alone ep alter s s'

theorem Alone.trans {s1 : Service z} (h : Alone ep alter s s1) (h' : Alone ep alter s1 s') :
    Alone ep alter s s' := by
  induction h with
  | done => exact h'
  | next h _ ih => exact .next h (ih h')

/-- Such steps are a run. -/
theorem Alone.is_run (h : Alone ep alter s s') :
    ∃ n, lib.runs.run step s (List.replicate n (.run ep alter)) = some s' := by
  induction h with
  | done s => exact ⟨0, rfl⟩
  | next h _ ih =>
    obtain ⟨n, hn⟩ := ih
    refine ⟨n + 1, ?_⟩
    rw [List.replicate_succ, lib.runs.run, h]
    exact hn

/-- What the handlers of the service see of a state. -/
structure At (s : Service z) (ep : Endpoint) (pl : Pipeline) (connection : Connection z)
    (point : Point) : Prop where
  pipeline : s.pipeline = pl
  connection : (s.loop ep).connection = connection
  point : (s.loop ep).point = point

/-- The loop comes to such a state by itself. -/
def Comes (s : Service z) (ep : Endpoint) (alter : Message → Message) (pl : Pipeline)
    (connection : Connection z) (point : Point) : Prop :=
  ∃ s', Alone ep alter s s' ∧ At s' ep pl connection point

theorem At.comes (h : At s ep pl connection point) : Comes s ep alter pl connection point :=
  ⟨s, .done s, h⟩

theorem Comes.trans (h : Comes s ep alter pl connection point)
    (hrest : ∀ s1, At s1 ep pl connection point → Comes s1 ep alter pl' connection' point') :
    Comes s ep alter pl' connection' point' := by
  obtain ⟨s1, halone, hat⟩ := h
  obtain ⟨s', halone', hat'⟩ := hrest s1 hat
  exact ⟨s', halone.trans halone', hat'⟩

/-- A step of an open pipeline. -/
theorem comes_of_run {s1 : Service z} (h : At s ep pl connection point) (ho : pl.closed_ = false)
    (hrun : run s ep alter = some s1) (hat : At s1 ep pl' connection' point') :
    Comes s ep alter pl' connection' point' := by
  refine ⟨s1, .next ?_ (.done s1), hat⟩
  unfold step
  rw [h.pipeline, ho]
  exact hrun

theorem comes_go (h : At s ep pl connection point) (ho : pl.closed_ = false)
    (hrun : run s ep alter = some ((s.with_pipeline pl').go_to ep point')) :
    Comes s ep alter pl' connection point' := by
  have hself : ((s.with_pipeline pl').go_to ep point').loop ep =
      { s.loop ep with point := point' } := Function.update_self ..
  apply comes_of_run h ho hrun
  refine ⟨rfl, ?_, ?_⟩
  · rw [hself]
    exact h.connection
  · rw [hself]

theorem comes_move (h : At s ep pl connection point) (ho : pl.closed_ = false)
    (hrun : run s ep alter = some (s.go_to ep point')) :
    Comes s ep alter pl connection point' := by
  apply comes_go h ho
  rw [hrun, ← h.pipeline]
  rfl

theorem comes_handle (handled : Handled z) (sent : Sent) (h : At s ep pl connection point)
    (ho : pl.closed_ = false) (hok : handled.result = .ok ())
    (hrun : run s ep alter = return_if_error s ep handled sent point') :
    Comes s ep alter handled.pipeline handled.connection point' := by
  have hself : ((s.with_pipeline handled.pipeline).set_loop ep
      ⟨handled.connection, point', (s.loop ep).sent ++ [sent]⟩).loop ep =
        ⟨handled.connection, point', (s.loop ep).sent ++ [sent]⟩ := Function.update_self ..
  unfold return_if_error at hrun
  rw [hok] at hrun
  apply comes_of_run h ho hrun
  refine ⟨rfl, ?_, ?_⟩
  · rw [hself]
  · rw [hself]

/-! ## The iteration -/

/-- One frame of the queue, in four steps. -/
theorem comes_inject_frame {frame : CompletedFrame} {rest : List CompletedFrame}
    (h : At s ep pl connection .has_frame) (ho : pl.closed_ = false)
    (hq : pl.frame_queue connection.destination_ep = frame :: rest)
    (hok : (serialize pl connection frame).result = .ok ()) :
    Comes s ep alter (pl.pop_frame connection.destination_ep)
      (serialize pl connection frame).connection .has_frame := by
  have hpl := serialize_pipeline pl connection frame
  have hdestination := (serialize_same pl connection frame).2.2
  have h1 : Comes s ep alter pl connection .next_frame := by
    apply comes_move h ho
    simp only [run, h.point, h.pipeline, h.connection, hq]
  have h2 : Comes s ep alter pl connection (.serializing frame) := by
    apply h1.trans
    intro s1 h1
    apply comes_move h1 ho
    simp only [run, h1.point, h1.pipeline, h1.connection, hq]
  have h3 : Comes s ep alter pl (serialize pl connection frame).connection .pop_frame := by
    apply h2.trans
    intro s2 h2
    have hthen : Comes s2 ep alter (serialize pl connection frame).pipeline
        (serialize pl connection frame).connection .pop_frame := by
      apply comes_handle _ (.injected_frame frame) h2 ho hok
      simp only [run, h2.point, h2.pipeline, h2.connection]
    rw [hpl] at hthen
    exact hthen
  apply h3.trans
  intro s3 h3
  apply comes_go h3 ho
  simp only [run, h3.point, h3.pipeline, h3.connection, hdestination, hq]

theorem comes_inject_frames {frames : List CompletedFrame}
    (h : At s ep pl connection .has_frame) (ho : pl.closed_ = false)
    (hq : pl.frame_queue connection.destination_ep = frames)
    (hok : (inject_frames frames pl connection).result = .ok ()) :
    Comes s ep alter (inject_frames frames pl connection).pipeline
      (inject_frames frames pl connection).connection .has_message := by
  induction frames generalizing s pl connection with
  | nil =>
    apply comes_move h ho
    simp only [run, h.point, h.pipeline, h.connection, hq]
  | cons frame frames ih =>
    obtain ⟨hfirst, hrest⟩ := bind_result hok
    rw [inject_frames] at hok ⊢
    rw [hrest, serialize_pipeline] at hok ⊢
    have hdestination := (serialize_same pl connection frame).2.2
    rw [hdestination] at hok ⊢
    apply (comes_inject_frame h ho hq hfirst).trans
    intro s1 h1
    apply ih h1
    · cases connection.destination_ep <;> exact ho
    · rw [hdestination, frame_queue_pop_frame, Function.update_self, hq]
      rfl
    · exact hok

/-- One message of the queue. -/
theorem comes_inject_message {msg : Message} {rest : List Message}
    (h : At s ep pl connection .has_message) (ho : pl.closed_ = false)
    (hq : pl.message_queue connection.destination_ep = msg :: rest)
    (hok : (send_message pl connection msg).result = .ok ()) :
    Comes s ep alter (pl.pop_message connection.destination_ep)
      (send_message pl connection msg).connection .has_message := by
  have hpl := send_message_pipeline pl connection msg
  have hdestination := (send_message_wrote pl connection msg).destination_ep
  have h1 : Comes s ep alter pl connection .next_message := by
    apply comes_move h ho
    simp only [run, h.point, h.pipeline, h.connection, hq]
  have h2 : Comes s ep alter pl connection (.sending msg) := by
    apply h1.trans
    intro s1 h1
    apply comes_move h1 ho
    simp only [run, h1.point, h1.pipeline, h1.connection, hq]
  have h3 : Comes s ep alter pl (send_message pl connection msg).connection .pop_message := by
    apply h2.trans
    intro s2 h2
    have hthen : Comes s2 ep alter (send_message pl connection msg).pipeline
        (send_message pl connection msg).connection .pop_message := by
      apply comes_handle _ (.injected_message msg (send_message_trace pl connection msg)) h2 ho hok
      simp only [run, h2.point, h2.pipeline, h2.connection]
    rw [hpl] at hthen
    exact hthen
  apply h3.trans
  intro s3 h3
  apply comes_go h3 ho
  simp only [run, h3.point, h3.pipeline, h3.connection, hdestination, hq]

theorem comes_inject_messages {msgs : List Message}
    (h : At s ep pl connection .has_message) (ho : pl.closed_ = false)
    (hq : pl.message_queue connection.destination_ep = msgs)
    (hok : (inject_messages msgs pl connection).result = .ok ()) :
    Comes s ep alter (inject_messages msgs pl connection).pipeline
      (inject_messages msgs pl connection).connection .waiting := by
  induction msgs generalizing s pl connection with
  | nil =>
    apply comes_move h ho
    simp only [run, h.point, h.pipeline, h.connection, hq]
  | cons msg msgs ih =>
    obtain ⟨hfirst, hrest⟩ := bind_result hok
    rw [inject_messages] at hok ⊢
    rw [hrest, send_message_pipeline] at hok ⊢
    have hdestination := (send_message_wrote pl connection msg).destination_ep
    rw [hdestination] at hok ⊢
    apply (comes_inject_message h ho hq hfirst).trans
    intro s1 h1
    apply ih h1
    · cases connection.destination_ep <;> exact ho
    · rw [hdestination, message_queue_pop_message, Function.update_self, hq]
      rfl
    · exact hok

/-- The interceptors of a message that only alter it. -/
def altering (alter : Message → Message) : Interceptors := fun pl msg => (pl, alter msg)

theorem leavesClosed_altering : LeavesClosed (altering alter) := fun _ _ hc => hc

theorem comes_on_frame {frame : CompletedFrame} {rest : List CompletedFrame}
    (h : At s ep pl connection (.handling (frame :: rest))) (ho : pl.closed_ = false)
    (hok : (on_frame (altering alter) pl connection frame).result = .ok ()) :
    Comes s ep alter (on_frame (altering alter) pl connection frame).pipeline
      (on_frame (altering alter) pl connection frame).connection (.handling rest) := by
  cases frame with
  | ping payload =>
    have hself : ((s.inject_frame connection.source_ep ⟨.pong payload, true⟩).go_to ep
        (.forwarding payload rest)).loop ep =
          { s.loop ep with point := .forwarding payload rest } := Function.update_self ..
    have h1 : Comes s ep alter (pl.inject_frame connection.source_ep (.pong payload)) connection
        (.forwarding payload rest) := by
      have hrun : run s ep alter = some ((s.inject_frame connection.source_ep
          ⟨.pong payload, true⟩).go_to ep (.forwarding payload rest)) := by
        simp only [run, h.point, handle_frame, h.connection]
      apply comes_of_run h ho hrun
      refine ⟨?_, ?_, ?_⟩
      · rw [← h.pipeline]
        rfl
      · rw [hself]
        exact h.connection
      · rw [hself]
    have ho1 : (pl.inject_frame connection.source_ep (.pong payload)).closed_ = false := by
      cases connection.source_ep <;> exact ho
    apply h1.trans
    intro s1 h1
    apply comes_handle _ (.source (serialized connection (.ping payload))) h1 ho1 hok
    simp only [run, h1.point, h1.pipeline, h1.connection]
    rfl
  | pong payload =>
    apply comes_move h ho
    simp only [run, h.point, handle_frame]
  | close f =>
    apply comes_go h ho
    simp only [run, h.point, handle_frame, h.pipeline, h.connection]
    rfl
  | message f =>
    by_cases ht : f.type = .binary ∨ f.type = .text
    · simp only [on_frame, ht, if_true] at hok ⊢
      apply comes_handle _ (.source (on_message_frame_trace (altering alter) pl connection f))
        h ho hok
      simp only [run, h.point, handle_frame, h.pipeline, h.connection, ht, if_true]
      rfl
    · simp only [on_frame, ht, if_false]
      apply comes_move h ho
      simp only [run, h.point, handle_frame, ht, if_false]

theorem comes_on_frames {frames : List CompletedFrame}
    (h : At s ep pl connection (.handling frames)) (ho : pl.closed_ = false)
    (hok : (on_frames (altering alter) pl connection frames).result = .ok ())
    (hopen : (on_frames (altering alter) pl connection frames).pipeline.closed_ = false) :
    Comes s ep alter (on_frames (altering alter) pl connection frames).pipeline
      (on_frames (altering alter) pl connection frames).connection (.handling []) := by
  induction frames generalizing s pl connection with
  | nil => exact h.comes
  | cons frame frames ih =>
    obtain ⟨hfirst, hrest⟩ := bind_result hok
    rw [on_frames] at hok hopen ⊢
    rw [hrest] at hok hopen ⊢
    have hstill : (on_frame (altering alter) pl connection frame).pipeline.closed_ = false := by
      by_contra hc
      rw [on_frames_closed leavesClosed_altering (Bool.not_eq_false _ ▸ hc)] at hopen
      cases hopen
    apply (comes_on_frame h ho hfirst).trans
    intro s1 h1
    exact ih h1 hstill hok hopen

theorem inject_frames_closed (frames : List CompletedFrame) (pl : Pipeline)
    (connection : Connection z) :
    (inject_frames frames pl connection).pipeline.closed_ = pl.closed_ := by
  induction frames generalizing pl connection with
  | nil => rfl
  | cons frame frames ih =>
    rw [inject_frames]
    unfold Handled.bind
    split
    · rw [serialize_pipeline]
    · rw [ih, serialize_pipeline]
      cases (serialize pl connection frame).connection.destination_ep <;> rfl

/-- Where no other thread comes between, the steps of a loop are the iteration of the service. -/
theorem the_steps_of_a_loop_alone_are_its_iteration {frames : List CompletedFrame}
    (h : At s ep pl connection (.handling frames)) (ho : pl.closed_ = false)
    (hok : (handle_frames (altering alter) pl connection frames).result = .ok ())
    (hopen : (on_frames (altering alter) pl connection frames).pipeline.closed_ = false) :
    ∃ n s', lib.runs.run step s (List.replicate n (.run ep alter)) = some s' ∧
      At s' ep (handle_frames (altering alter) pl connection frames).pipeline
        (handle_frames (altering alter) pl connection frames).connection .waiting := by
  obtain ⟨hframes, hthen⟩ := bind_result hok
  have hcomes := comes_on_frames h ho hframes hopen
  unfold handle_frames at hok ⊢
  rw [hthen] at hok ⊢
  generalize on_frames (altering alter) pl connection frames = h1 at hok hopen hcomes ⊢
  simp only [hopen, Bool.false_eq_true, if_false] at hok ⊢
  obtain ⟨hinject, hthen⟩ := bind_result hok
  rw [hthen] at hok ⊢
  have hopen2 := (inject_frames_closed (h1.pipeline.frame_queue h1.connection.destination_ep)
    h1.pipeline h1.connection).trans hopen
  suffices hwaits : Comes s ep alter _ _ .waiting by
    obtain ⟨s', halone, hat⟩ := hwaits
    obtain ⟨n, hn⟩ := halone.is_run
    exact ⟨n, s', hn, hat⟩
  apply hcomes.trans
  intro s1 hs1
  have hstart : Comes s1 ep alter h1.pipeline h1.connection .has_frame := by
    apply comes_move hs1 hopen
    simp only [run, hs1.point]
  apply hstart.trans
  intro s2 hs2
  apply (comes_inject_frames hs2 hopen rfl hinject).trans
  intro s3 hs3
  exact comes_inject_messages hs3 hopen2 rfl hok

/-! ## What can stop a loop -/

/-- What a loop serializes in its next step. -/
def next_call (s : Service z) (ep : Endpoint) (alter : Message → Message) : Option (Handled z) :=
  let connection := (s.loop ep).connection
  match (s.loop ep).point with
  | .handling (.message f :: _) =>
    some (on_message_frame (altering alter) s.pipeline connection f)
  | .forwarding payload _ => some (serialize s.pipeline connection (.ping payload))
  | .serializing frame => some (serialize s.pipeline connection frame)
  | .sending msg => some (send_message s.pipeline connection msg)
  | _ => none

theorem return_if_error_none {h : Handled z} {sent : Sent}
    (hs : return_if_error s ep h sent point = none) : ∃ e, h.result = .error e := by
  unfold return_if_error at hs
  split at hs
  · rename_i e he
    exact ⟨e, he⟩
  · cases hs

/-- A loop that does not wait can take a step, unless the serializer fails. -/
theorem only_the_serializer_stops_a_loop (ho : s.pipeline.closed_ = false)
    (hw : (s.loop ep).point ≠ .waiting) (hu : (s.loop ep).point ≠ .undefined)
    (hs : step s (.run ep alter) = none) :
    ∃ h e, next_call s ep alter = some h ∧ h.result = .error e := by
  have hrun : run s ep alter = none := by
    unfold step at hs
    rw [ho] at hs
    exact hs
  unfold run at hrun
  unfold next_call
  cases hp : (s.loop ep).point with
  | waiting => exact absurd hp hw
  | undefined => exact absurd hp hu
  | forwarding payload rest =>
    simp only [hp] at hrun ⊢
    obtain ⟨e, he⟩ := return_if_error_none hrun
    exact ⟨_, e, rfl, he⟩
  | serializing frame =>
    simp only [hp] at hrun ⊢
    obtain ⟨e, he⟩ := return_if_error_none hrun
    exact ⟨_, e, rfl, he⟩
  | sending msg =>
    simp only [hp] at hrun ⊢
    obtain ⟨e, he⟩ := return_if_error_none hrun
    exact ⟨_, e, rfl, he⟩
  | handling frames =>
    simp only [hp] at hrun ⊢
    cases frames with
    | nil => cases hrun
    | cons frame rest =>
      cases frame with
      | message f =>
        simp only [handle_frame] at hrun
        split at hrun
        · obtain ⟨e, he⟩ := return_if_error_none hrun
          exact ⟨_, e, rfl, he⟩
        · cases hrun
      | _ => cases hrun
  -- The other points are calls of the pipeline.
  | _ =>
    simp only [hp] at hrun
    split at hrun <;> cases hrun

end proxy.websocket.queues
