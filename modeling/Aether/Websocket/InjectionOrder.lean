-- What is injected for an endpoint is sent by one loop, once and in order,
-- however the calls of the pipeline and the steps of the two loops interleave.
import Aether.Lib.Draining
import Aether.Lib.Runs
import Aether.Websocket.QueueSteps

open lib.runs
open lib.draining (Drain Moves)

namespace proxy.websocket.queues

open protocol extensions

variable {z : Zlib}

/-! ## Each queue as one that is drained -/

def Point.frames : Point → lib.draining.Point CompletedFrame
  | has_frame => .test
  | next_frame => .front
  | serializing frame => .use frame
  | pop_frame => .pop
  | undefined => .broken
  | _ => .outside

def Point.messages : Point → lib.draining.Point Message
  | has_message => .test
  | next_message => .front
  | sending msg => .use msg
  | pop_message => .pop
  | undefined => .broken
  | _ => .outside

def sent_frames (l : Loop z) : List CompletedFrame := l.sent.filterMap Sent.frame?

/-- With those that are blocked, of which nothing is serialized. -/
def sent_messages (l : Loop z) : List Message := l.sent.filterMap Sent.message?

def frames_for (s : Service z) (ep : Endpoint) : Drain CompletedFrame where
  queue := s.pipeline.frame_queue ep
  point := (s.loop ep).point.frames
  pushed := (s.injected_frames ep).map Queued.frame
  used := sent_frames (s.loop ep)

def messages_for (s : Service z) (ep : Endpoint) : Drain Message where
  queue := s.pipeline.message_queue ep
  point := (s.loop ep).point.messages
  pushed := s.injected_messages ep
  used := sent_messages (s.loop ep)

/-- One step of the service is one move of each queue at most. -/
def StepMoves (s s' : Service z) (ep : Endpoint) : Prop :=
  Moves (frames_for s ep) (frames_for s' ep) ∧ Moves (messages_for s ep) (messages_for s' ep)

/-! ## What a step of a loop can do -/

/-- The frames of a whole message. -/
inductive FramesOf (type : Opcode) : List UInt8 → List CompletedFrame → Prop
  | last (content : List UInt8) : FramesOf type content [.message ⟨type, true, content⟩]
  | more (chunk : List UInt8) {content : List UInt8} {frames : List CompletedFrame}
      (h : FramesOf type content frames) :
      FramesOf type (chunk ++ content) (.message ⟨type, false, chunk⟩ :: frames)

/-- A message is serialized whole, unless it is blocked. -/
def Sent.Whole : Sent → Prop
  | injected_message msg frames =>
    if msg.blocked then frames = [] else FramesOf msg.type msg.content frames
  | _ => True

/-- From where to where a loop goes that does nothing else. -/
inductive Goes (frames : List CompletedFrame) (msgs : List Message) : Point → Point → Prop
  | skipped {frame : CompletedFrame} {rest : List CompletedFrame} (h : ping? frame = none) :
      Goes frames msgs (.handling (frame :: rest)) (.handling rest)
  | handled : Goes frames msgs (.handling []) .has_frame
  | no_frame (h : frames = []) : Goes frames msgs .has_frame .has_message
  | has_frame (h : frames ≠ []) : Goes frames msgs .has_frame .next_frame
  | next_frame {frame : CompletedFrame} (h : frames.head? = some frame) :
      Goes frames msgs .next_frame (.serializing frame)
  | no_message (h : msgs = []) : Goes frames msgs .has_message .waiting
  | has_message (h : msgs ≠ []) : Goes frames msgs .has_message .next_message
  | next_message {msg : Message} (h : msgs.head? = some msg) :
      Goes frames msgs .next_message (.sending msg)
  | no_front (h : frames = []) : Goes frames msgs .next_frame .undefined
  | no_pop (h : frames = []) : Goes frames msgs .pop_frame .undefined
  | no_front_message (h : msgs = []) : Goes frames msgs .next_message .undefined
  | no_pop_message (h : msgs = []) : Goes frames msgs .pop_message .undefined

/-- From where to where a loop goes that has serialized something. -/
inductive Writes : Point → Sent → Point → Prop
  | message {frame : CompletedFrame} {rest : List CompletedFrame} (h : ping? frame = none)
      (frames : List CompletedFrame) :
      Writes (.handling (frame :: rest)) (.source frames) (.handling rest)
  | ping (payload : List UInt8) (rest frames : List CompletedFrame) :
      Writes (.forwarding payload rest) (.source frames) (.handling rest)
  | injected_frame (frame : CompletedFrame) :
      Writes (.serializing frame) (.injected_frame frame) .pop_frame
  | injected_message (msg : Message) (frames : List CompletedFrame) :
      Writes (.sending msg) (.injected_message msg frames) .pop_message

/-- What a loop can do in a step. -/
inductive Ran (s : Service z) (ep : Endpoint) : Service z → Prop
  | go {point : Point}
      (h : Goes (s.pipeline.frame_queue (s.loop ep).connection.destination_ep)
        (s.pipeline.message_queue (s.loop ep).connection.destination_ep) (s.loop ep).point point) :
      Ran s ep (s.go_to ep point)
  | write {connection : Connection z} {sent : Sent} {point : Point}
      (h : Writes (s.loop ep).point sent point) (whole : sent.Whole)
      (calls : Calls (s.loop ep).connection.manager (s.loop ep).connection.output sent.frames
        connection.manager connection.output)
      (source_ep : connection.source_ep = (s.loop ep).connection.source_ep)
      (destination_ep : connection.destination_ep = (s.loop ep).connection.destination_ep) :
      Ran s ep (s.set_loop ep ⟨connection, point, (s.loop ep).sent ++ [sent]⟩)
  | answer {payload : List UInt8} {rest : List CompletedFrame}
      (h : (s.loop ep).point = .handling (.ping payload :: rest)) :
      Ran s ep ((s.inject_frame (s.loop ep).connection.source_ep ⟨.pong payload, true⟩).go_to ep
        (.forwarding payload rest))
  | close {f : CloseFrame} {rest : List CompletedFrame}
      (h : (s.loop ep).point = .handling (.close f :: rest)) (closer : Endpoint) :
      Ran s ep ((s.with_pipeline (s.pipeline.set_close_state closer f)).go_to ep (.handling rest))
  | pop_frame (h : (s.loop ep).point = .pop_frame)
      (hq : s.pipeline.frame_queue (s.loop ep).connection.destination_ep ≠ []) :
      Ran s ep ((s.with_pipeline (s.pipeline.pop_frame (s.loop ep).connection.destination_ep)).go_to
        ep .has_frame)
  | pop_message (h : (s.loop ep).point = .pop_message)
      (hq : s.pipeline.message_queue (s.loop ep).connection.destination_ep ≠ []) :
      Ran s ep ((s.with_pipeline
        (s.pipeline.pop_message (s.loop ep).connection.destination_ep)).go_to ep .has_message)

theorem send_loop_frames (ep : Endpoint) (pl : Pipeline) (connection : Connection z) (msg : Message)
    (i : Nat) (hok : (send_loop ep pl connection msg i).result = .ok ()) :
    FramesOf msg.type (msg.content.drop i) (send_loop_trace ep pl connection msg i) := by
  fun_induction send_loop ep pl connection msg i with
  | case1 pl connection i hlast =>
    rw [send_loop_trace, dif_pos hlast, serialized_of_ok hok,
      List.take_of_length_le (by rw [List.length_drop]; omega)]
    exact .last _
  | case2 pl connection i hmore ih =>
    obtain ⟨hfirst, hthen⟩ := bind_result hok
    rw [hthen] at hok
    have hrest := FramesOf.more ((msg.content.drop i).take (chunk_size ep)) (ih _ _ hok)
    rw [← List.drop_drop, List.take_append_drop] at hrest
    rw [send_loop_trace, dif_neg hmore, trace_of_ok hfirst, serialized_of_ok hfirst]
    exact hrest

theorem ran_return_if_error {s s' : Service z} {ep : Endpoint} {h : Handled z} {sent : Sent}
    {point : Point} (hs : return_if_error s ep h sent point = some s')
    (hpl : h.pipeline = s.pipeline) (hw : Writes (s.loop ep).point sent point)
    (hwhole : h.result = .ok () → sent.Whole)
    (hcalls : h.result = .ok () → Calls (s.loop ep).connection.manager
      (s.loop ep).connection.output sent.frames h.connection.manager h.connection.output)
    (hsource : h.connection.source_ep = (s.loop ep).connection.source_ep)
    (hdestination : h.connection.destination_ep = (s.loop ep).connection.destination_ep) :
    Ran s ep s' := by
  unfold return_if_error at hs
  split at hs
  · cases hs
  · rename_i hok
    cases hs
    rw [hpl]
    exact .write hw (hwhole hok) (hcalls hok) hsource hdestination

theorem ran_serialize {s s' : Service z} {ep : Endpoint} {frame : CompletedFrame} {sent : Sent}
    {point : Point}
    (hs : return_if_error s ep (serialize s.pipeline (s.loop ep).connection frame) sent point =
      some s')
    (hw : Writes (s.loop ep).point sent point) (hwhole : sent.Whole)
    (hsent : (serialize s.pipeline (s.loop ep).connection frame).result = .ok () →
      sent.frames = serialized (s.loop ep).connection frame) : Ran s ep s' := by
  have hsame := serialize_same s.pipeline (s.loop ep).connection frame
  apply ran_return_if_error hs (serialize_pipeline ..) hw (fun _ => hwhole)
  · intro hok
    rw [hsent hok]
    exact serialize_calls ..
  · exact hsame.2.1
  · exact hsame.2.2

theorem ran_handle_frame {s s' : Service z} {ep : Endpoint} {alter : Message → Message}
    {frame : CompletedFrame} {rest : List CompletedFrame}
    (hp : (s.loop ep).point = .handling (frame :: rest))
    (hs : handle_frame s ep alter frame rest = some s') : Ran s ep s' := by
  cases frame with
  | ping payload =>
    cases hs
    exact .answer hp
  | pong payload =>
    cases hs
    apply Ran.go
    rw [hp]
    exact .skipped rfl
  | close f =>
    cases hs
    exact .close hp _
  | message f =>
    simp only [handle_frame] at hs
    split at hs
    · have hw := on_message_frame_wrote (fun pl msg => (pl, alter msg)) s.pipeline
        (s.loop ep).connection f
      apply ran_return_if_error hs (on_message_frame_pipeline (fun _ _ => rfl) ..)
      · rw [hp]
        exact .message rfl _
      · intro _
        trivial
      · intro _
        exact hw.calls
      · exact hw.source_ep
      · exact hw.destination_ep
    · cases hs
      apply Ran.go
      rw [hp]
      exact .skipped rfl

theorem ran_of_run {s s' : Service z} {ep : Endpoint} {alter : Message → Message}
    (hs : run s ep alter = some s') : Ran s ep s' := by
  unfold run at hs
  simp only at hs
  cases hp : (s.loop ep).point with
  | waiting =>
    rw [hp] at hs
    cases hs
  | undefined =>
    rw [hp] at hs
    cases hs
  | handling frames =>
    rw [hp] at hs
    cases frames with
    | nil =>
      cases hs
      exact .go (by rw [hp]; exact .handled)
    | cons frame rest => exact ran_handle_frame hp hs
  | forwarding payload rest =>
    rw [hp] at hs
    exact ran_serialize hs (by rw [hp]; exact .ping ..) trivial (fun _ => rfl)
  | serializing frame =>
    rw [hp] at hs
    refine ran_serialize hs (by rw [hp]; exact .injected_frame frame) trivial ?_
    intro hok
    exact (serialized_of_ok hok).symm
  | sending msg =>
    rw [hp] at hs
    have hw := send_message_wrote s.pipeline (s.loop ep).connection msg
    apply ran_return_if_error hs (send_message_pipeline ..)
    · rw [hp]
      exact .injected_message ..
    · intro hok
      unfold send_message at hok
      unfold Sent.Whole send_message_trace
      simp only
      split at hok
      · rename_i hb
        rw [if_pos hb, if_pos hb]
      · rename_i hb
        rw [if_neg hb, if_neg hb]
        exact send_loop_frames _ _ _ _ 0 hok
    · intro _
      exact hw.calls
    · exact hw.source_ep
    · exact hw.destination_ep
  | has_frame =>
    rw [hp] at hs
    simp only at hs
    split at hs
    · cases hs
      exact .go (by rw [hp]; exact .no_frame ‹_›)
    · rename_i hq
      cases hs
      exact .go (by rw [hp]; exact .has_frame (by rw [hq]; exact List.cons_ne_nil _ _))
  | next_frame =>
    rw [hp] at hs
    simp only at hs
    split at hs
    · cases hs
      exact .go (by rw [hp]; exact .no_front ‹_›)
    · rename_i hq
      cases hs
      exact .go (by rw [hp]; exact .next_frame (by rw [hq]; rfl))
  | pop_frame =>
    rw [hp] at hs
    simp only at hs
    split at hs
    · cases hs
      exact .go (by rw [hp]; exact .no_pop ‹_›)
    · rename_i hq
      cases hs
      exact .pop_frame hp (by rw [hq]; exact List.cons_ne_nil _ _)
  | has_message =>
    rw [hp] at hs
    simp only at hs
    split at hs
    · cases hs
      exact .go (by rw [hp]; exact .no_message ‹_›)
    · rename_i hq
      cases hs
      exact .go (by rw [hp]; exact .has_message (by rw [hq]; exact List.cons_ne_nil _ _))
  | next_message =>
    rw [hp] at hs
    simp only at hs
    split at hs
    · cases hs
      exact .go (by rw [hp]; exact .no_front_message ‹_›)
    · rename_i hq
      cases hs
      exact .go (by rw [hp]; exact .next_message (by rw [hq]; rfl))
  | pop_message =>
    rw [hp] at hs
    simp only at hs
    split at hs
    · cases hs
      exact .go (by rw [hp]; exact .no_pop_message ‹_›)
    · rename_i hq
      cases hs
      exact .pop_message hp (by rw [hq]; exact List.cons_ne_nil _ _)

/-! ## What a step does to a queue -/

section

variable (s : Service z) (ep : Endpoint)

@[simp] theorem go_to_pipeline (point : Point) : (s.go_to ep point).pipeline = s.pipeline := rfl

@[simp] theorem go_to_loop_self (point : Point) :
    (s.go_to ep point).loop ep = { s.loop ep with point := point } := Function.update_self ..

@[simp] theorem set_loop_self (l : Loop z) : (s.set_loop ep l).loop ep = l :=
  Function.update_self ..

theorem set_loop_other (l : Loop z) {ep' : Endpoint} (h : ep' ≠ ep) :
    (s.set_loop ep l).loop ep' = s.loop ep' := Function.update_of_ne h ..

theorem go_to_loop_other (point : Point) {ep' : Endpoint} (h : ep' ≠ ep) :
    (s.go_to ep point).loop ep' = s.loop ep' := set_loop_other s ep _ h

end

variable {s s' : Service z} {ep : Endpoint}

theorem stepMoves_of_eq (hf : frames_for s' ep = frames_for s ep)
    (hm : messages_for s' ep = messages_for s ep) : StepMoves s s' ep :=
  ⟨.inl hf, .inl hm⟩

/-- Only its own loop moves what is queued for an endpoint. -/
theorem stepMoves_other {ep' : Endpoint} (hl : s'.loop ep' = s.loop ep')
    (hf : s'.pipeline.frame_queue ep' = s.pipeline.frame_queue ep')
    (hm : s'.pipeline.message_queue ep' = s.pipeline.message_queue ep')
    (hif : s'.injected_frames ep' = s.injected_frames ep')
    (him : s'.injected_messages ep' = s.injected_messages ep') : StepMoves s s' ep' := by
  apply stepMoves_of_eq
  · unfold frames_for
    rw [hl, hf, hif]
  · unfold messages_for
    rw [hl, hm, him]

theorem stepMoves_inject_frame (s : Service z) (destination : Endpoint) (q : Queued)
    (ep : Endpoint) : StepMoves s (s.inject_frame destination q) ep := by
  by_cases hc : closes q.frame = true
  · obtain ⟨hf, hm⟩ := inject_frame_closes s.pipeline destination hc
    refine stepMoves_other rfl ?_ ?_ ?_ ?_
    · exact congrFun hf ep
    · exact congrFun hm ep
    · simp only [Service.inject_frame, hc, if_true]
    · rfl
  · have hpush := inject_frame_open s.pipeline destination (Bool.eq_false_iff.mpr hc)
    by_cases he : ep = destination
    · subst he
      refine ⟨.inr ⟨.push q.frame, ?_⟩, .inl ?_⟩
      · simp [frames_for, Service.inject_frame, hc, hpush, Drain.move]
      · simp [messages_for, Service.inject_frame, hpush]
    · refine stepMoves_other rfl ?_ ?_ ?_ ?_
      all_goals simp [Service.inject_frame, hc, hpush, he]

theorem stepMoves_inject_message (s : Service z) (destination : Endpoint) (msg : Message)
    (ep : Endpoint) : StepMoves s (s.inject_message destination msg) ep := by
  by_cases he : ep = destination
  · subst he
    refine ⟨.inl ?_, .inr ⟨.push msg, ?_⟩⟩
    · simp [frames_for, Service.inject_message]
    · simp [messages_for, Service.inject_message, Drain.move]
  · refine stepMoves_other rfl ?_ ?_ ?_ ?_
    all_goals simp [Service.inject_message, he]

/-- With its loop, a queue has its point and what was sent. -/
theorem frames_for_set_loop (s : Service z) (ep : Endpoint) (l : Loop z) :
    frames_for (s.set_loop ep l) ep =
      { frames_for s ep with point := l.point.frames, used := sent_frames l } := by
  unfold frames_for
  rw [set_loop_self]
  rfl

theorem messages_for_set_loop (s : Service z) (ep : Endpoint) (l : Loop z) :
    messages_for (s.set_loop ep l) ep =
      { messages_for s ep with point := l.point.messages, used := sent_messages l } := by
  unfold messages_for
  rw [set_loop_self]
  rfl

theorem stepMoves_go {frames : List CompletedFrame} {msgs : List Message} {point : Point}
    (hf : s.pipeline.frame_queue ep = frames) (hm : s.pipeline.message_queue ep = msgs)
    (hfits : (frames_for s ep).Fits) (hfitsm : (messages_for s ep).Fits)
    (h : Goes frames msgs (s.loop ep).point point) : StepMoves s (s.go_to ep point) ep := by
  unfold StepMoves Service.go_to
  rw [frames_for_set_loop, messages_for_set_loop]
  unfold frames_for at hfits ⊢
  unfold messages_for at hfitsm ⊢
  rw [hf] at hfits ⊢
  rw [hm] at hfitsm ⊢
  generalize (s.loop ep).point = p at h hfits hfitsm ⊢
  cases h with
  | skipped => exact ⟨.inl rfl, .inl rfl⟩
  | handled => exact ⟨.inr ⟨.enter, rfl⟩, .inl rfl⟩
  | no_frame h => subst h; exact ⟨.inr ⟨.go, rfl⟩, .inr ⟨.enter, rfl⟩⟩
  | has_frame h =>
    obtain ⟨frame, rest, rfl⟩ := List.exists_cons_of_ne_nil h
    exact ⟨.inr ⟨.go, rfl⟩, .inl rfl⟩
  | next_frame h =>
    obtain ⟨rest, rfl⟩ := List.head?_eq_some_iff.mp h
    exact ⟨.inr ⟨.go, rfl⟩, .inl rfl⟩
  | no_message h => subst h; exact ⟨.inl rfl, .inr ⟨.go, rfl⟩⟩
  | has_message h =>
    obtain ⟨msg, rest, rfl⟩ := List.exists_cons_of_ne_nil h
    exact ⟨.inl rfl, .inr ⟨.go, rfl⟩⟩
  | next_message h =>
    obtain ⟨rest, rfl⟩ := List.head?_eq_some_iff.mp h
    exact ⟨.inl rfl, .inr ⟨.go, rfl⟩⟩
  -- A loop is only there when its queue has a front.
  | no_front h => exact absurd h hfits
  | no_pop h => exact absurd h hfits
  | no_front_message h => exact absurd h hfitsm
  | no_pop_message h => exact absurd h hfitsm

theorem stepMoves_write {connection : Connection z} {sent : Sent} {point : Point}
    (h : Writes (s.loop ep).point sent point) :
    StepMoves s (s.set_loop ep ⟨connection, point, (s.loop ep).sent ++ [sent]⟩) ep := by
  unfold StepMoves
  rw [frames_for_set_loop, messages_for_set_loop]
  unfold frames_for messages_for sent_frames sent_messages
  simp only [List.filterMap_append]
  generalize (s.loop ep).point = p at h
  cases h with
  | message h frames => exact ⟨.inl (by simp [Point.frames, Sent.frame?]),
      .inl (by simp [Point.messages, Sent.message?])⟩
  | ping payload rest frames => exact ⟨.inl (by simp [Point.frames, Sent.frame?]),
      .inl (by simp [Point.messages, Sent.message?])⟩
  | injected_frame frame => exact ⟨.inr ⟨.go, rfl⟩,
      .inl (by simp [Point.messages, Sent.message?])⟩
  | injected_message msg frames => exact ⟨.inl (by simp [Point.frames, Sent.frame?]),
      .inr ⟨.go, rfl⟩⟩

theorem stepMoves_pop_frame (hp : (s.loop ep).point = .pop_frame)
    (hq : s.pipeline.frame_queue ep ≠ []) :
    StepMoves s ((s.with_pipeline (s.pipeline.pop_frame ep)).go_to ep .has_frame) ep := by
  obtain ⟨frame, rest, hqueue⟩ := List.exists_cons_of_ne_nil hq
  unfold StepMoves Service.go_to
  rw [frames_for_set_loop, messages_for_set_loop]
  refine ⟨.inr ⟨.go, ?_⟩, .inl ?_⟩
  · simp [frames_for, Service.with_pipeline, hp, hqueue, Point.frames, Drain.move]; rfl
  · simp [messages_for, Service.with_pipeline, hp, Point.messages]; rfl

theorem stepMoves_pop_message (hp : (s.loop ep).point = .pop_message)
    (hq : s.pipeline.message_queue ep ≠ []) :
    StepMoves s ((s.with_pipeline (s.pipeline.pop_message ep)).go_to ep .has_message) ep := by
  obtain ⟨msg, rest, hqueue⟩ := List.exists_cons_of_ne_nil hq
  unfold StepMoves Service.go_to
  rw [frames_for_set_loop, messages_for_set_loop]
  refine ⟨.inl ?_, .inr ⟨.go, ?_⟩⟩
  · simp [frames_for, Service.with_pipeline, hp, Point.frames]; rfl
  · simp [messages_for, Service.with_pipeline, hp, hqueue, Point.messages, Drain.move]; rfl

/-- To go on with the frames of the source is nothing to the queues. -/
theorem quiet_go_to (s : Service z) (ep : Endpoint) (point : Point)
    (hf : point.frames = (s.loop ep).point.frames)
    (hm : point.messages = (s.loop ep).point.messages) (ep' : Endpoint) :
    frames_for (s.go_to ep point) ep' = frames_for s ep' ∧
      messages_for (s.go_to ep point) ep' = messages_for s ep' := by
  by_cases he : ep' = ep
  · subst he
    unfold Service.go_to
    rw [frames_for_set_loop, messages_for_set_loop, hf, hm]
    exact ⟨rfl, rfl⟩
  · unfold frames_for messages_for
    rw [go_to_loop_other s ep point he]
    exact ⟨rfl, rfl⟩

theorem stepMoves_ran (hd : (s.loop ep).connection.destination_ep = ep)
    (hfits : (frames_for s ep).Fits) (hfitsm : (messages_for s ep).Fits) (h : Ran s ep s')
    (ep' : Endpoint) : StepMoves s s' ep' := by
  cases h with
  | go h =>
    by_cases he : ep' = ep
    · subst he
      rw [hd] at h
      exact stepMoves_go rfl rfl hfits hfitsm h
    · exact stepMoves_other (go_to_loop_other s ep _ he) rfl rfl rfl rfl
  | write h =>
    by_cases he : ep' = ep
    · subst he
      exact stepMoves_write h
    · exact stepMoves_other (set_loop_other s ep _ he) rfl rfl rfl rfl
  | @answer payload rest h =>
    have hinject := stepMoves_inject_frame s (s.loop ep).connection.source_ep ⟨.pong payload, true⟩
      ep'
    have hpoint : ((s.inject_frame (s.loop ep).connection.source_ep
        ⟨.pong payload, true⟩).loop ep).point = .handling (.ping payload :: rest) := h
    obtain ⟨hf, hm⟩ := quiet_go_to (s.inject_frame (s.loop ep).connection.source_ep
      ⟨.pong payload, true⟩) ep (.forwarding payload rest) (by rw [hpoint]; rfl)
      (by rw [hpoint]; rfl) ep'
    unfold StepMoves
    rw [hf, hm]
    exact hinject
  | @close f rest h closer =>
    have hclose : StepMoves s (s.with_pipeline (s.pipeline.set_close_state closer f)) ep' := by
      refine stepMoves_other rfl ?_ ?_ rfl rfl <;> cases ep' <;> rfl
    have hpoint : ((s.with_pipeline (s.pipeline.set_close_state closer f)).loop ep).point =
        .handling (.close f :: rest) := h
    obtain ⟨hf, hm⟩ := quiet_go_to (s.with_pipeline (s.pipeline.set_close_state closer f)) ep
      (.handling rest) (by rw [hpoint]; rfl) (by rw [hpoint]; rfl) ep'
    unfold StepMoves
    rw [hf, hm]
    exact hclose
  | pop_frame h hq =>
    rw [hd] at hq ⊢
    by_cases he : ep' = ep
    · subst he
      exact stepMoves_pop_frame h hq
    · refine stepMoves_other (go_to_loop_other _ ep _ he) ?_ ?_ rfl rfl
      · simp [Service.with_pipeline, he]
      · simp [Service.with_pipeline]
  | pop_message h hq =>
    rw [hd] at hq ⊢
    by_cases he : ep' = ep
    · subst he
      exact stepMoves_pop_message h hq
    · refine stepMoves_other (go_to_loop_other _ ep _ he) ?_ ?_ rfl rfl
      · simp [Service.with_pipeline]
      · simp [Service.with_pipeline, he]

/-! ## What holds in every state -/

/-- The pongs that were injected for the pings of an endpoint. -/
def answers (s : Service z) (ep : Endpoint) : List CompletedFrame :=
  ((s.injected_frames ep).filter Queued.answer).map Queued.frame

/-- The pings that the loop has still to answer. -/
def Point.pings : Point → List (List UInt8)
  | handling frames => frames.filterMap ping?
  | forwarding _ frames => frames.filterMap ping?
  | _ => []

/-- What the loop that writes to `ep` has done. It answers the pings of its source. -/
structure Served (managers : Endpoint → FrameParser z) (s : Service z) (ep : Endpoint) : Prop where
  source_ep : (s.loop ep).connection.source_ep = flip_endpoint ep
  destination_ep : (s.loop ep).connection.destination_ep = ep
  answered : (s.received_pings (flip_endpoint ep)).map .pong =
    answers s (flip_endpoint ep) ++ (s.loop ep).point.pings.map .pong
  whole : ∀ sent ∈ (s.loop ep).sent, sent.Whole
  calls : Calls (managers ep) [] ((s.loop ep).sent.flatMap Sent.frames)
    (s.loop ep).connection.manager (s.loop ep).connection.output

structure Good (managers : Endpoint → FrameParser z) (s : Service z) : Prop where
  served : ∀ ep, Served managers s ep
  frames : ∀ ep, (frames_for s ep).Sound
  messages : ∀ ep, (messages_for s ep).Sound

variable {managers : Endpoint → FrameParser z}

theorem Served.of_eq (h : Served managers s ep) (hl : s'.loop ep = s.loop ep)
    (hp : s'.received_pings (flip_endpoint ep) = s.received_pings (flip_endpoint ep))
    (ha : answers s' (flip_endpoint ep) = answers s (flip_endpoint ep)) :
    Served managers s' ep := by
  obtain ⟨hsource, hdestination, hanswered, hwhole, hcalls⟩ := h
  rw [← hl] at hsource hdestination hanswered hwhole hcalls
  rw [← hp, ← ha] at hanswered
  exact ⟨hsource, hdestination, hanswered, hwhole, hcalls⟩

theorem answers_inject_frame (s : Service z) (destination : Endpoint) {q : Queued} {ep : Endpoint}
    (h : q.answer = false ∨ ep ≠ destination) :
    answers (s.inject_frame destination q) ep = answers s ep := by
  unfold answers Service.inject_frame
  simp only
  split
  · rfl
  · by_cases he : ep = destination
    · subst he
      have hq : q.answer = false := h.resolve_right (not_not_intro rfl)
      simp [hq]
    · rw [Function.update_of_ne he]

@[simp] theorem answers_go_to (s : Service z) (ep : Endpoint) (point : Point) (ep' : Endpoint) :
    answers (s.go_to ep point) ep' = answers s ep' := rfl

theorem answers_inject_pong (s : Service z) (ep : Endpoint) (payload : List UInt8) :
    answers (s.inject_frame ep ⟨.pong payload, true⟩) ep = answers s ep ++ [.pong payload] := by
  simp [answers, Service.inject_frame, closes]

/-- Only an answer takes a ping from those that are still to be answered. -/
theorem Goes.pings {frames : List CompletedFrame} {msgs : List Message} {point point' : Point}
    (h : Goes frames msgs point point') : point'.pings = point.pings := by
  cases h with
  | skipped h => simp [Point.pings, h]
  | _ => rfl

theorem Writes.pings {point point' : Point} {sent : Sent} (h : Writes point sent point') :
    point'.pings = point.pings := by
  cases h with
  | message h frames => simp [Point.pings, h]
  | _ => rfl

/-- The loop that only goes on. -/
theorem Served.go_to (h : Served managers s ep) {point point' : Point}
    (hp : (s.loop ep).point = point) (hpings : point'.pings = point.pings) :
    Served managers (s.go_to ep point') ep := by
  obtain ⟨hsource, hdestination, hanswered, hwhole, hcalls⟩ := h
  rw [hp, ← hpings] at hanswered
  refine ⟨?_, ?_, ?_, ?_, ?_⟩
  all_goals rw [go_to_loop_self]
  · exact hsource
  · exact hdestination
  · exact hanswered
  · exact hwhole
  · exact hcalls

theorem Served.own (h : Served managers s ep) (hr : Ran s ep s') : Served managers s' ep := by
  cases hr with
  | go hg => exact h.go_to rfl hg.pings
  | write hw whole calls source_ep destination_ep =>
    refine ⟨?_, ?_, ?_, ?_, ?_⟩
    all_goals rw [set_loop_self]
    · exact source_ep.trans h.source_ep
    · exact destination_ep.trans h.destination_ep
    · simp only [hw.pings]
      exact h.answered
    · intro sent hs
      rcases List.mem_append.mp hs with hs | hs
      · exact h.whole sent hs
      · rw [List.mem_singleton.mp hs]
        exact whole
    · simp only [List.flatMap_append, List.flatMap_cons, List.flatMap_nil, List.append_nil]
      exact h.calls.append calls
  | @answer payload rest hp =>
    refine ⟨?_, ?_, ?_, ?_, ?_⟩
    all_goals rw [go_to_loop_self]
    · exact h.source_ep
    · exact h.destination_ep
    · have hanswered := h.answered
      rw [hp, Point.pings, List.filterMap_cons] at hanswered
      rw [h.source_ep, answers_go_to, answers_inject_pong, List.append_assoc]
      exact hanswered
    · exact h.whole
    · exact h.calls
  | @close f rest hp closer =>
    have hclosed : Served managers (s.with_pipeline (s.pipeline.set_close_state closer f)) ep :=
      h.of_eq rfl rfl rfl
    exact hclosed.go_to hp rfl
  | pop_frame hp =>
    have hpopped : Served managers (s.with_pipeline
        (s.pipeline.pop_frame (s.loop ep).connection.destination_ep)) ep := h.of_eq rfl rfl rfl
    exact hpopped.go_to hp rfl
  | pop_message hp =>
    have hpopped : Served managers (s.with_pipeline
        (s.pipeline.pop_message (s.loop ep).connection.destination_ep)) ep := h.of_eq rfl rfl rfl
    exact hpopped.go_to hp rfl

theorem flip_ne_flip {ep ep' : Endpoint} (h : ep' ≠ ep) : flip_endpoint ep' ≠ flip_endpoint ep := by
  revert h
  cases ep <;> cases ep' <;> simp [flip_endpoint]

theorem Served.other {ep' : Endpoint} (h : Served managers s ep') (he : ep' ≠ ep)
    (hsource : (s.loop ep).connection.source_ep = flip_endpoint ep) (hr : Ran s ep s') :
    Served managers s' ep' := by
  cases hr with
  | go => exact h.of_eq (go_to_loop_other _ _ _ he) rfl rfl
  | write => exact h.of_eq (set_loop_other _ _ _ he) rfl rfl
  | @answer payload rest =>
    refine h.of_eq (go_to_loop_other _ _ _ he) rfl ?_
    rw [answers_go_to, hsource]
    exact answers_inject_frame s (flip_endpoint ep) (.inr (flip_ne_flip he))
  | close => exact h.of_eq (go_to_loop_other _ _ _ he) rfl rfl
  | pop_frame => exact h.of_eq (go_to_loop_other _ _ _ he) rfl rfl
  | pop_message => exact h.of_eq (go_to_loop_other _ _ _ he) rfl rfl

theorem read_eq {data : List UInt8} (hs : read s ep data = some s') :
    (s.loop ep).point = .waiting ∧ ∃ frames : List CompletedFrame,
      s' = { s with
        received_pings := Function.update s.received_pings (s.loop ep).connection.source_ep
          (s.received_pings (s.loop ep).connection.source_ep ++
            frames.filterMap ping?) }.set_loop ep
        ⟨parsed { (s.loop ep).connection with input := (s.loop ep).connection.input ++ data },
          .handling frames, (s.loop ep).sent⟩ := by
  unfold read at hs
  simp only at hs
  split at hs
  case h_2 => cases hs
  rename_i hp
  split at hs
  case h_2 => cases hs
  rename_i frames _ _
  cases hs
  exact ⟨hp, frames, rfl⟩

theorem served_read {data : List UInt8} (h : ∀ ep, Served managers s ep)
    (hs : read s ep data = some s') (ep' : Endpoint) : Served managers s' ep' := by
  obtain ⟨hp, frames, rfl⟩ := read_eq hs
  have hself := h ep
  by_cases he : ep' = ep
  · subst he
    refine ⟨?_, ?_, ?_, ?_, ?_⟩
    all_goals rw [set_loop_self]
    · exact hself.source_ep
    · exact hself.destination_ep
    · have hanswered := hself.answered
      have hnone : (s.loop ep').point.pings = [] := by
        rw [hp]
        rfl
      rw [hnone, List.map_nil, List.append_nil] at hanswered
      simp only [Service.set_loop, hself.source_ep, Function.update_self, List.map_append,
        hanswered]
      rfl
    · exact hself.whole
    · have hparsed := hself.calls.append
        (.parsed ((s.loop ep').connection.input ++ data) (.done _ _))
      rw [List.append_nil] at hparsed
      exact hparsed
  · refine (h ep').of_eq (set_loop_other _ _ _ he) ?_ rfl
    rw [hself.source_ep]
    exact Function.update_of_ne (flip_ne_flip he) ..

theorem stepMoves_read {data : List UInt8} (hs : read s ep data = some s') (ep' : Endpoint) :
    StepMoves s s' ep' := by
  obtain ⟨hp, frames, rfl⟩ := read_eq hs
  by_cases he : ep' = ep
  · subst he
    apply stepMoves_of_eq
    · rw [frames_for_set_loop]
      simp [frames_for, hp, Point.frames, sent_frames]
    · rw [messages_for_set_loop]
      simp [messages_for, hp, Point.messages, sent_messages]
  · exact stepMoves_other (set_loop_other _ _ _ he) rfl rfl rfl rfl

theorem ran_of_step {alter : Message → Message} (hs : step s (.run ep alter) = some s') :
    Ran s ep s' := by
  unfold step at hs
  split at hs
  · cases hs
  · exact ran_of_run hs

theorem stepMoves_step {e : Event} (h : Good managers s) (hs : step s e = some s')
    (ep : Endpoint) : StepMoves s s' ep := by
  unfold step at hs
  split at hs
  · cases hs
  cases e with
  | inject_frame destination frame => cases hs; exact stepMoves_inject_frame s destination _ ep
  | inject_message destination msg => cases hs; exact stepMoves_inject_message s destination msg ep
  | set_interception flag =>
    cases hs
    refine stepMoves_other rfl ?_ ?_ rfl rfl <;> cases ep <;> rfl
  | set_close_state closer frame =>
    cases hs
    refine stepMoves_other rfl ?_ ?_ rfl rfl <;> cases ep <;> rfl
  | read ep' data => exact stepMoves_read hs ep
  | run ep' alter =>
    exact stepMoves_ran (h.served ep').destination_ep (h.frames ep').fits (h.messages ep').fits
      (ran_of_run hs) ep

theorem served_step {e : Event} (h : ∀ ep, Served managers s ep) (hs : step s e = some s')
    (ep : Endpoint) : Served managers s' ep := by
  unfold step at hs
  split at hs
  · cases hs
  cases e with
  | inject_frame destination frame =>
    cases hs
    exact (h ep).of_eq rfl rfl (answers_inject_frame s destination (.inl rfl))
  | inject_message destination msg => cases hs; exact (h ep).of_eq rfl rfl rfl
  | set_interception flag => cases hs; exact (h ep).of_eq rfl rfl rfl
  | set_close_state closer frame => cases hs; exact (h ep).of_eq rfl rfl rfl
  | read ep' data => exact served_read h hs ep
  | run ep' alter =>
    by_cases he : ep = ep'
    · subst he
      exact (h ep).own (ran_of_run hs)
    · exact (h ep).other he (h ep').source_ep (ran_of_run hs)

theorem good_step {e : Event} (h : Good managers s) (hs : step s e = some s') :
    Good managers s' where
  served := served_step h.served hs
  frames ep := (h.frames ep).moves (stepMoves_step h hs ep).1
  messages ep := (h.messages ep).moves (stepMoves_step h hs ep).2

theorem good_new (should_intercept : Bool) (exts : Endpoint → List (PermessageDeflate z))
    (generator : Endpoint → Nat → UInt32) (input : Endpoint → List UInt8) :
    Good (fun ep => .new ep (exts ep) (generator ep))
      (.new should_intercept exts generator input) where
  served ep := ⟨rfl, rfl, rfl, fun _ h => (List.not_mem_nil h).elim, .done _ _⟩
  frames ep := by cases ep <;> exact lib.draining.sound_new
  messages ep := by cases ep <;> exact lib.draining.sound_new

/-! ## One injection -/

def Point.injecting : Point → Bool
  | waiting => false
  | handling _ => false
  | forwarding _ _ => false
  | _ => true

/-- Four steps for each frame and each message, and one from the frames to the messages. -/
def Point.steps : Point → Nat
  | has_frame => 1
  | next_frame => 2
  | serializing _ => 3
  | pop_frame => 0
  | has_message => 2
  | next_message => 3
  | sending _ => 4
  | pop_message => 1
  | _ => 0

def progress (l : Loop z) : Nat :=
  4 * ((sent_frames l).length + (sent_messages l).length) + l.point.steps

/-- A step of the loop in its injection is progress, or ends it behind the messages. -/
theorem progress_ran (hgood : (frames_for s ep).Fits ∧ (messages_for s ep).Fits)
    (hd : (s.loop ep).connection.destination_ep = ep) (hi : (s.loop ep).point.injecting = true)
    (h : Ran s ep s') :
    ((s'.loop ep).point.injecting = true ∧ progress (s'.loop ep) = progress (s.loop ep) + 1) ∨
      ((s.loop ep).point = .has_message ∧ (s'.loop ep).point = .waiting) := by
  cases h with
  | go h =>
    obtain ⟨hfits, hfitsm⟩ := hgood
    rw [hd] at h
    rw [go_to_loop_self]
    unfold frames_for at hfits
    unfold messages_for at hfitsm
    unfold progress sent_frames sent_messages
    generalize s.pipeline.frame_queue ep = frames at h hfits
    generalize s.pipeline.message_queue ep = msgs at h hfitsm
    generalize (s.loop ep).point = p at h hi hfits hfitsm ⊢
    cases h with
    | skipped => cases hi
    | handled => cases hi
    | no_message => exact .inr ⟨rfl, rfl⟩
    | no_front h => exact absurd h hfits
    | no_pop h => exact absurd h hfits
    | no_front_message h => exact absurd h hfitsm
    | no_pop_message h => exact absurd h hfitsm
    | _ => exact .inl ⟨rfl, rfl⟩
  | write h =>
    rw [set_loop_self]
    unfold progress sent_frames sent_messages
    simp only [List.filterMap_append, List.length_append]
    generalize (s.loop ep).point = p at h hi ⊢
    cases h with
    | message => cases hi
    | ping => cases hi
    | injected_frame frame =>
      refine .inl ⟨rfl, ?_⟩
      simp only [List.filterMap_cons, List.filterMap_nil, Sent.frame?, Sent.message?, Point.steps,
        List.length_cons, List.length_nil]
      omega
    | injected_message msg frames =>
      refine .inl ⟨rfl, ?_⟩
      simp only [List.filterMap_cons, List.filterMap_nil, Sent.frame?, Sent.message?, Point.steps,
        List.length_cons, List.length_nil]
      omega
  | answer h => rw [h] at hi; cases hi
  | close h => rw [h] at hi; cases hi
  | pop_frame h =>
    refine .inl ⟨?_, ?_⟩
    all_goals rw [go_to_loop_self]
    · rfl
    · unfold progress
      rw [h]
      rfl
  | pop_message h =>
    refine .inl ⟨?_, ?_⟩
    all_goals rw [go_to_loop_self]
    · rfl
    · unfold progress
      rw [h]
      rfl

/-- All that was injected for the endpoint in the first state is sent in the second. -/
structure SentSince (s s' : Service z) (ep : Endpoint) : Prop where
  frames : (frames_for s ep).pushed <+: sent_frames (s'.loop ep)
  messages : s.injected_messages ep <+: sent_messages (s'.loop ep)

/-- What is so in the `n` steps of the loop since it was in its injection. -/
inductive Since (s s' : Service z) (ep : Endpoint) (n : Nat) : Prop
  | sent (h : SentSince s s' ep)
  | injecting (injecting : (s'.loop ep).point.injecting = true)
    (steps : n + progress (s.loop ep) = progress (s'.loop ep))
    (frames : (frames_for s' ep).point ≠ .outside ∨
      (frames_for s ep).pushed <+: (frames_for s' ep).used)

def Event.runs (ep : Endpoint) : Event → Bool
  | run ep' _ => ep' = ep
  | _ => false

/-- Only its own steps move a loop. -/
theorem loop_of_step {e : Event} (hs : step s e = some s') (hr : e.runs ep = false)
    (hp : (s.loop ep).point ≠ .waiting) : s'.loop ep = s.loop ep := by
  unfold step at hs
  split at hs
  · cases hs
  cases e with
  | inject_frame => cases hs; rfl
  | inject_message => cases hs; rfl
  | set_interception => cases hs; rfl
  | set_close_state => cases hs; rfl
  | read ep' data =>
    simp only [read] at hs
    split at hs
    case h_2 => cases hs
    rename_i hwaiting
    split at hs
    case h_2 => cases hs
    cases hs
    apply set_loop_other
    rintro rfl
    exact hp hwaiting
  | run ep' alter =>
    have hne : ep ≠ ep' := by
      rintro rfl
      simp [Event.runs] at hr
    have hran := ran_of_run hs
    cases hran with
    | write => exact set_loop_other _ _ _ hne
    | _ => exact go_to_loop_other _ _ _ hne

theorem since_step {s0 : Service z} {n : Nat} {e : Event} (h : Good managers s)
    (hf : (frames_for s0 ep).pushed <+: (frames_for s ep).pushed)
    (hm : s0.injected_messages ep <+: s.injected_messages ep) (hn : Since s0 s ep n)
    (hs : step s e = some s') : Since s0 s' ep (n + if e.runs ep then 1 else 0) := by
  obtain ⟨hmoves, hmovesm⟩ := stepMoves_step h hs ep
  cases hn with
  | sent hsent =>
    exact .sent ⟨hsent.frames.trans hmoves.grows.2, hsent.messages.trans hmovesm.grows.2⟩
  | injecting hi hsteps hframes =>
    have hframes' := (h.frames ep).keep hmoves hf hframes
    by_cases hr : e.runs ep = true
    · rw [if_pos hr]
      cases e with
      | run ep' alter =>
        obtain rfl : ep' = ep := by simpa [Event.runs] using hr
        rcases progress_ran ⟨(h.frames ep').fits, (h.messages ep').fits⟩
          (h.served ep').destination_ep hi (ran_of_step hs) with ⟨hi', hprogress⟩ | ⟨hp, hp'⟩
        · exact .injecting hi' (by omega) hframes'
        · -- The frames were all sent before, and now the messages are.
          have hmessages := (h.messages ep').keep hmovesm hm
            (.inl (by simp [messages_for, hp, Point.messages]))
          have hout : (frames_for s' ep').point = .outside := by
            simp [frames_for, hp', Point.frames]
          have houtm : (messages_for s' ep').point = .outside := by
            simp [messages_for, hp', Point.messages]
          exact .sent ⟨hframes'.resolve_left (not_not_intro hout),
            hmessages.resolve_left (not_not_intro houtm)⟩
      | _ => cases hr
    · rw [if_neg hr, Nat.add_zero]
      have hl := loop_of_step hs (Bool.eq_false_iff.mpr hr) (by
        intro hp
        rw [hp] at hi
        cases hi)
      exact .injecting (by rw [hl]; exact hi) (by rw [hl]; exact hsteps) hframes'

theorem since_run {s0 : Service z} {n : Nat} {es : List Event} (h : Good managers s)
    (hf : (frames_for s0 ep).pushed <+: (frames_for s ep).pushed)
    (hm : s0.injected_messages ep <+: s.injected_messages ep) (hn : Since s0 s ep n)
    (hs : lib.runs.run step s es = some s') :
    Good managers s' ∧ Since s0 s' ep (n + es.countP (Event.runs ep)) := by
  induction es generalizing s n with
  | nil =>
    cases hs
    exact ⟨h, hn⟩
  | cons e es ih =>
    rw [lib.runs.run, Option.bind_eq_some_iff] at hs
    obtain ⟨s1, h1, hs⟩ := hs
    obtain ⟨hmoves, hmovesm⟩ := stepMoves_step h h1 ep
    have hlater := ih (good_step h h1) (hf.trans hmoves.grows.1) (hm.trans hmovesm.grows.1)
      (since_step h hf hm hn h1) hs
    rw [List.countP_cons, Nat.add_comm (es.countP _), ← Nat.add_assoc]
    exact hlater

/-! ## The law -/

/-- What is so of an endpoint in a state. The loop that writes to it has never asked an empty queue
for its front; all that was injected was sent by that loop in its order, or is left to be sent; and
each ping of the endpoint was answered with its payload, or is still to be handled by the loop that
reads from it. -/
structure InOrder (manager : FrameParser z) (s : Service z) (ep : Endpoint) : Prop where
  destination_ep : (s.loop ep).connection.destination_ep = ep
  defined : (s.loop ep).point ≠ .undefined
  frames : (s.injected_frames ep).map Queued.frame =
    sent_frames (s.loop ep) ++ (frames_for s ep).left
  messages : s.injected_messages ep = sent_messages (s.loop ep) ++ (messages_for s ep).left
  answered : (s.received_pings ep).map .pong =
    answers s ep ++ (s.loop (flip_endpoint ep)).point.pings.map .pong
  /-- A blocked message is sent as no frame, and any other whole. -/
  whole : ∀ sent ∈ (s.loop ep).sent, sent.Whole
  /-- The frames that were sent are those that the serializer was called with. -/
  calls : Calls manager [] ((s.loop ep).sent.flatMap Sent.frames) (s.loop ep).connection.manager
    (s.loop ep).connection.output

/-- From the start of an injection on: all that was queued is sent, or the loop is still in it, and
has taken four steps at most for each frame or message that was injected and not sent before. -/
def Injects (s : Service z) (ep : Endpoint) : Prop :=
  ∀ es s', lib.runs.run step s es = some s' →
    (sent_frames (s.loop ep) ++ s.pipeline.frame_queue ep <+: sent_frames (s'.loop ep) ∧
      sent_messages (s.loop ep) ++ s.pipeline.message_queue ep <+: sent_messages (s'.loop ep)) ∨
    ((s'.loop ep).point.injecting = true ∧
      es.countP (Event.runs ep) +
          4 * ((sent_frames (s.loop ep)).length + (sent_messages (s.loop ep)).length) ≤
        4 * ((s'.injected_frames ep).length + (s'.injected_messages ep).length) + 3)

theorem Good.inOrder (h : Good managers s) (ep : Endpoint) : InOrder (managers ep) s ep where
  destination_ep := (h.served ep).destination_ep
  defined hp := by
    have hfits := (h.frames ep).fits
    unfold frames_for at hfits
    rw [hp] at hfits
    exact hfits
  frames := (h.frames ep).order
  messages := (h.messages ep).order
  answered := by
    have hanswered := (h.served (flip_endpoint ep)).answered
    have hflip : flip_endpoint (flip_endpoint ep) = ep := by cases ep <;> rfl
    rw [hflip] at hanswered
    exact hanswered
  whole := (h.served ep).whole
  calls := (h.served ep).calls

theorem Good.injects (h : Good managers s) (hp : (s.loop ep).point = .has_frame) :
    Injects s ep := by
  have horder := (h.frames ep).order
  have horderm := (h.messages ep).order
  simp only [Drain.left, frames_for, messages_for, hp, Point.frames,
    Point.messages] at horder horderm
  intro es s' hs
  have hstart : Since s s ep 0 := by
    refine .injecting (by rw [hp]; rfl) (Nat.zero_add _) (.inl ?_)
    simp [frames_for, hp, Point.frames]
  obtain ⟨h', hsince⟩ := since_run h List.prefix_rfl List.prefix_rfl hstart hs
  rw [Nat.zero_add] at hsince
  cases hsince with
  | sent hsent =>
    left
    rw [← horder, ← horderm]
    exact ⟨hsent.frames, hsent.messages⟩
  | injecting hi hsteps hframes =>
    refine .inr ⟨hi, ?_⟩
    have hused := (h'.frames ep).used_le
    have husedm := (h'.messages ep).used_le
    have hfirst : (s.loop ep).point.steps = 1 := by rw [hp]; rfl
    have hlast : (s'.loop ep).point.steps ≤ 4 := by
      cases (s'.loop ep).point <;> simp [Point.steps]
    simp only [frames_for, messages_for, List.length_map] at hused husedm
    unfold progress at hsteps
    omega

/-- However injections, pings and the steps of the two loops interleave: the loop that writes to an
endpoint sends what is injected for it, once and in order, all of it that is queued when it comes to
inject; and each ping is answered by one pong. -/
theorem injections_are_sent_once_in_order (should_intercept : Bool)
    (exts : Endpoint → List (PermessageDeflate z)) (generator : Endpoint → Nat → UInt32)
    (input : Endpoint → List UInt8) (es : List Event) :
    Throughout step
      (fun s => ∀ ep, InOrder (.new ep (exts ep) (generator ep)) s ep ∧
        ((s.loop ep).point = .has_frame → Injects s ep))
      (.new should_intercept exts generator input) es := by
  have hgood : Throughout step (Good fun ep => .new ep (exts ep) (generator ep))
      (.new should_intercept exts generator input) es :=
    throughout_of_step (fun _ _ _ h hs => good_step h hs)
      (good_new should_intercept exts generator input) es
  exact hgood.mono fun s h ep => ⟨h.inOrder ep, fun hp => h.injects hp⟩

end proxy.websocket.queues
