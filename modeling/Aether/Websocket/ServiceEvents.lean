-- The two loops of the service, `websocket_service.cpp`, as the handlers that
-- run when an asynchronous operation completes.
--
-- A handler runs to its end before the next one. What it starts stands in
-- `pending` until it completes, with success or with any error.
import Aether.Websocket.HandlerTrace

namespace proxy.websocket.websocket_service

open protocol extensions

variable {z : Zlib}

/-! ## The state -/

/-- An asynchronous operation of a loop, by the handler that waits for it. -/
inductive Operation where
  | on_destination_write
  | on_source_read
  | on_close
  deriving DecidableEq, Repr

/-- `boost::system::error_code`, for what the service asks of it. -/
inductive IoError where
  | eof (message : List UInt8)
  | operation_aborted (message : List UInt8)
  | other (message : List UInt8)
  deriving DecidableEq, Repr

def IoError.message : IoError → List UInt8
  | .eof message => message
  | .operation_aborted message => message
  | .other message => message

/-- One of the two loops, with the frames that were serialized to its destination and the calls of
`finish_connection` so far. -/
structure Loop (z : Zlib) where
  connection : Connection z
  pending : List Operation
  serialized : List CompletedFrame
  finishes : Nat

/-- `client_connection_` is the loop of the endpoint `client`, to which it writes. -/
structure Service (z : Zlib) where
  pipeline : Pipeline
  loop : Endpoint → Loop z
  stops : Nat

namespace Service

def set_loop (s : Service z) (ep : Endpoint) (l : Loop z) : Service z :=
  { s with loop := fun ep' => if ep' = ep then l else s.loop ep' }

@[simp] theorem set_loop_pipeline (s : Service z) (ep : Endpoint) (l : Loop z) :
    (s.set_loop ep l).pipeline = s.pipeline := rfl

@[simp] theorem set_loop_stops (s : Service z) (ep : Endpoint) (l : Loop z) :
    (s.set_loop ep l).stops = s.stops := rfl

@[simp] theorem set_loop_self (s : Service z) (ep : Endpoint) (l : Loop z) :
    (s.set_loop ep l).loop ep = l := if_pos rfl

@[simp] theorem set_loop_other (s : Service z) {ep ep' : Endpoint} (l : Loop z) (h : ep' ≠ ep) :
    (s.set_loop ep l).loop ep' = s.loop ep' := if_neg h

/-- `write_untimed_async` and `read_async`. -/
def start_async (s : Service z) (ep : Endpoint) (op : Operation) : Service z :=
  s.set_loop ep { s.loop ep with pending := (s.loop ep).pending ++ [op] }

def set_close_state (s : Service z) (closer : Endpoint) (frame : CloseFrame) : Service z :=
  { s with pipeline := s.pipeline.set_close_state closer frame }

/-- What a handler left, and the frames that it serialized. -/
def absorb (s : Service z) (ep : Endpoint) (h : Handled z) (trace : List CompletedFrame) :
    Service z :=
  { s with pipeline := h.pipeline }.set_loop ep
    { s.loop ep with
      connection := h.connection
      serialized := (s.loop ep).serialized ++ trace }

section

variable (s : Service z) (ep : Endpoint) (op : Operation) (h : Handled z)
  (trace : List CompletedFrame)

@[simp] theorem start_async_pipeline : (s.start_async ep op).pipeline = s.pipeline := rfl

@[simp] theorem start_async_stops : (s.start_async ep op).stops = s.stops := rfl

@[simp] theorem start_async_self : (s.start_async ep op).loop ep =
    { s.loop ep with pending := (s.loop ep).pending ++ [op] } := set_loop_self ..

@[simp] theorem start_async_other :
    (s.start_async ep op).loop (flip_endpoint ep) = s.loop (flip_endpoint ep) :=
  set_loop_other _ _ (flip_ne ep)

@[simp] theorem absorb_pipeline : (s.absorb ep h trace).pipeline = h.pipeline := rfl

@[simp] theorem absorb_stops : (s.absorb ep h trace).stops = s.stops := rfl

@[simp] theorem absorb_self : (s.absorb ep h trace).loop ep =
    { s.loop ep with
      connection := h.connection
      serialized := (s.loop ep).serialized ++ trace } := set_loop_self ..

@[simp] theorem absorb_other :
    (s.absorb ep h trace).loop (flip_endpoint ep) = s.loop (flip_endpoint ep) :=
  set_loop_other { s with pipeline := h.pipeline } _ (flip_ne ep)

end

end Service

/-! ## The end of a connection -/

def on_finish (s : Service z) : Service z :=
  if (s.loop .client).connection.finished && (s.loop .server).connection.finished then
    { s with stops := s.stops + 1 }
  else s

def Loop.finish (l : Loop z) : Loop z :=
  { l with connection := { l.connection with finished := true }, finishes := l.finishes + 1 }

/-- The shutdown of the destination shows in what the operations on that socket complete with. -/
def finish_connection (s : Service z) (ep : Endpoint) : Service z :=
  on_finish (s.set_loop ep (s.loop ep).finish)

def close_connection (s : Service z) (ep : Endpoint) : Service z :=
  let l := s.loop ep
  if !l.connection.finished then
    let frame := .close s.pipeline.closed_frame_
    let h := serialize s.pipeline l.connection frame
    let s := s.absorb ep h (serialized l.connection frame)
    match h.result with
    -- A serialization error when closing the connection cannot really be recovered from.
    | .error _ => finish_connection s ep
    | .ok _ => s.start_async ep .on_close
  -- Connection has already been properly closed, just go straight to finish handler.
  else on_finish s

/-! ## The loop -/

/-- A handler on the connection of the loop, and `RETURN_IF_ERROR`. -/
def return_if_error (s : Service z) (ep : Endpoint)
    (handler : Pipeline → Connection z → Handled z)
    (trace : Pipeline → Connection z → List CompletedFrame)
    (next : Service z → Service z × Except Error Unit) : Service z × Except Error Unit :=
  let h := handler s.pipeline (s.loop ep).connection
  let s := s.absorb ep h (trace s.pipeline (s.loop ep).connection)
  match h.result with
  | .error e => (s, .error e)
  | .ok _ => next s

/-- What `websocket_loop_impl` does with the frames that were parsed. -/
def handle_frames (received : Interceptors) (s : Service z) (ep : Endpoint)
    (frames : List CompletedFrame) : Service z × Except Error Unit :=
  return_if_error s ep (fun pl c => on_frames received pl c frames)
    (fun pl c => on_frames_trace received pl c frames) fun s =>
  -- Connection was just closed by an event handler.
  if s.pipeline.closed_ then (close_connection s ep, .ok ())
  else
    -- Inject frames.
    return_if_error s ep (fun pl c => inject_frames (pl.frame_queue c.destination_ep) pl c)
      (fun pl c => inject_frames_trace (pl.frame_queue c.destination_ep) pl c) fun s =>
    -- Inject messages.
    return_if_error s ep (fun pl c => inject_messages (pl.message_queue c.destination_ep) pl c)
      (fun pl c => inject_messages_trace (pl.message_queue c.destination_ep) pl c) fun s =>
    (s.start_async ep .on_destination_write, .ok ())

/-- `websocket_loop_impl`. -/
def websocket_loop_impl (received : Interceptors) (s : Service z) (ep : Endpoint) :
    Service z × Except Error Unit :=
  -- Connection closed, and it closed from the other end.
  if s.pipeline.closed_ then (close_connection s ep, .ok ())
  else
    let l := s.loop ep
    let call := manager_parse l.connection.manager l.connection.input
    let s := s.set_loop ep { l with connection := parsed l.connection }
    match call.frames with
    | .error e => (s, .error e)
    | .ok frames =>
      match call.should_close with
      -- Close connection if parser indicates.
      | some code =>
        (close_connection (s.set_close_state l.connection.source_ep ⟨code, []⟩) ep, .ok ())
      | none => handle_frames received s ep frames

/-- `websocket_loop`. An error is an abnormal closure. -/
def websocket_loop (received : Interceptors) (s : Service z) (ep : Endpoint) : Service z :=
  let (s, result) := websocket_loop_impl received s ep
  match result with
  | .ok _ => s
  | .error e =>
    close_connection
      (s.set_close_state (s.loop ep).connection.source_ep ⟨.protocol_error, Error.reason e⟩) ep

/-! ## The handlers -/

def on_error (s : Service z) (error : IoError) (ep : Endpoint) : Service z :=
  let s := if !s.pipeline.closed_ then
      s.set_close_state (s.loop ep).connection.source_ep ⟨.internal_error, error.message⟩
    else s
  match error with
  -- Looks like the connection closed, no use trying to send a close frame.
  | .eof _ => finish_connection s ep
  | _ => close_connection s ep

def on_destination_write (s : Service z) (error : Option IoError) (ep : Endpoint) : Service z :=
  match error with
  | some error => on_error s error ep
  | none => s.start_async ep .on_source_read

def on_source_read (received : Interceptors) (s : Service z) (data : Except IoError (List UInt8))
    (ep : Endpoint) : Service z :=
  match data with
  | .error (.operation_aborted message) =>
    -- Looks like cancel() was called and the pipeline is closed, so close the connection.
    if s.pipeline.closed_ then close_connection s ep
    else on_error s (.operation_aborted message) ep
  | .error error => on_error s error ep
  | .ok bytes =>
    let l := s.loop ep
    let connection := { l.connection with input := l.connection.input ++ bytes }
    websocket_loop received (s.set_loop ep { l with connection := connection }) ep

/-- An error of the write is only recorded. -/
def on_close (s : Service z) (_error : Option IoError) (ep : Endpoint) : Service z :=
  finish_connection s ep

/-! ## What the loop does to its connection -/

/-- The connection, finished. In `websocket_loop` it is finished by the write of the close frame. -/
def ended (connection : Connection z) : Connection z := { connection with finished := true }

/-- The service has done to the pipeline and to the connection of the loop what the handler did. A
handler that failed has not finished it. -/
structure Does (ep : Endpoint) (r : Service z × Except Error Unit) (h : Handled z) : Prop where
  result : r.2 = h.result
  pipeline : r.1.pipeline = h.pipeline
  connection : ended (r.1.loop ep).connection = ended h.connection
  failed : ∀ e, r.2 = .error e →
    (r.1.loop ep).connection = h.connection ∧ h.connection.finished = false

theorem does_finish_connection (s : Service z) (ep : Endpoint) :
    (finish_connection s ep).pipeline = s.pipeline ∧
      ((finish_connection s ep).loop ep).connection = ended (s.loop ep).connection := by
  have hself : ((s.set_loop ep (s.loop ep).finish).loop ep).connection =
      ended (s.loop ep).connection := by
    rw [Service.set_loop_self]
    rfl
  unfold finish_connection on_finish
  split <;> exact ⟨rfl, hself⟩

theorem does_close_connection {s : Service z} {ep : Endpoint}
    (hf : (s.loop ep).connection.finished = false) :
    Does ep (close_connection s ep, .ok ())
      ⟨(proxy.websocket.close_connection s.pipeline (s.loop ep).connection).1,
        (proxy.websocket.close_connection s.pipeline (s.loop ep).connection).2, .ok ()⟩ := by
  unfold close_connection proxy.websocket.close_connection
  simp only [hf, Bool.not_false, if_true, Bool.false_eq_true, if_false]
  generalize serialize s.pipeline (s.loop ep).connection (.close s.pipeline.closed_frame_) = h
  generalize serialized (s.loop ep).connection (.close s.pipeline.closed_frame_) = trace
  rcases h.result with e | _
  · have hfinish := does_finish_connection (s.absorb ep h trace) ep
    rw [Service.absorb_self] at hfinish
    exact ⟨rfl, hfinish.1, by rw [hfinish.2]; rfl, fun _ he => nomatch he⟩
  · exact ⟨rfl, rfl, by rw [Service.start_async_self, Service.absorb_self]; rfl,
      fun _ he => nomatch he⟩

theorem Does.bind {s : Service z} {ep : Endpoint} (hf : (s.loop ep).connection.finished = false)
    {handler : Pipeline → Connection z → Handled z}
    {trace : Pipeline → Connection z → List CompletedFrame}
    {next : Service z → Service z × Except Error Unit} {h : Handled z}
    {next' : Pipeline → Connection z → Handled z}
    (hh : handler s.pipeline (s.loop ep).connection = h)
    (hfinished : h.connection.finished = (s.loop ep).connection.finished)
    (hnext : ∀ s' : Service z, (s'.loop ep).connection.finished = false →
      Does ep (next s') (next' s'.pipeline (s'.loop ep).connection)) :
    Does ep (return_if_error s ep handler trace next) (h.bind next') := by
  subst hh
  have hthen := hnext (s.absorb ep (handler s.pipeline (s.loop ep).connection)
    (trace s.pipeline (s.loop ep).connection)) (by
      rw [Service.absorb_self]
      exact hfinished.trans hf)
  rw [Service.absorb_self] at hthen
  unfold return_if_error Handled.bind
  simp only
  rcases hres : (handler s.pipeline (s.loop ep).connection).result with e | _
  · refine ⟨hres.symm, rfl, by rw [Service.absorb_self], fun _ _ => ⟨?_, hfinished.trans hf⟩⟩
    rw [Service.absorb_self]
  · exact hthen

theorem bind_ok (h : Handled z) : h.bind (fun pl connection => ⟨pl, connection, .ok ()⟩) = h := by
  rcases h with ⟨pl, connection, e | _⟩ <;> rfl

theorem inject_frames_finished (frames : List CompletedFrame) (pl : Pipeline)
    (connection : Connection z) :
    (inject_frames frames pl connection).connection.finished = connection.finished := by
  induction frames generalizing pl connection with
  | nil => rfl
  | cons frame frames ih =>
    have hsame := (serialize_same pl connection frame).1
    rw [inject_frames]
    unfold Handled.bind
    split
    · exact hsame
    · exact (ih _ _).trans hsame

theorem does_handle_frames (received : Interceptors) {s : Service z} {ep : Endpoint}
    (hf : (s.loop ep).connection.finished = false) (frames : List CompletedFrame) :
    Does ep (handle_frames received s ep frames)
      (proxy.websocket.handle_frames received s.pipeline (s.loop ep).connection frames) := by
  apply Does.bind hf
  · rfl
  · exact (on_frames_wrote received _ _ frames).finished
  intro s1 h1
  by_cases hc : s1.pipeline.closed_ = true
  · rw [if_pos hc, if_pos hc]
    exact does_close_connection h1
  rw [if_neg hc, if_neg hc]
  apply Does.bind h1
  · rfl
  · exact inject_frames_finished _ _ _
  intro s2 h2
  rw [← bind_ok (inject_messages _ _ _)]
  apply Does.bind h2
  · rfl
  · exact (inject_messages_wrote _ _ _).finished
  intro s3 _
  exact ⟨rfl, rfl, by rw [Service.start_async_self], fun _ he => nomatch he⟩

/-- What `websocket_loop` says of one turn of a loop, in which a close frame that is sent ends the
connection. -/
theorem does_websocket_loop (received : Interceptors) {s : Service z} {ep : Endpoint}
    (hf : (s.loop ep).connection.finished = false) :
    (websocket_loop received s ep).pipeline =
        (proxy.websocket.websocket_loop received s.pipeline (s.loop ep).connection).1 ∧
      ended ((websocket_loop received s ep).loop ep).connection =
        ended (proxy.websocket.websocket_loop received s.pipeline (s.loop ep).connection).2 := by
  have himpl : Does ep (websocket_loop_impl received s ep)
      (proxy.websocket.websocket_loop_impl received s.pipeline (s.loop ep).connection) := by
    unfold websocket_loop_impl proxy.websocket.websocket_loop_impl
    by_cases hc : s.pipeline.closed_ = true
    · rw [if_pos hc, if_pos hc]
      exact does_close_connection hf
    · rw [if_neg hc, if_neg hc]
      have hself : (s.set_loop ep { s.loop ep with
          connection := parsed (s.loop ep).connection }).loop ep =
          { s.loop ep with connection := parsed (s.loop ep).connection } := Service.set_loop_self ..
      have hfinished : ((s.set_loop ep { s.loop ep with
          connection := parsed (s.loop ep).connection }).loop ep).connection.finished = false := by
        rw [hself]
        exact hf
      simp only
      rcases (manager_parse (s.loop ep).connection.manager (s.loop ep).connection.input).frames
        with e | frames
      · exact ⟨rfl, rfl, by rw [hself]; rfl, fun _ _ => ⟨by rw [hself]; rfl, hf⟩⟩
      · rcases (manager_parse (s.loop ep).connection.manager
          (s.loop ep).connection.input).should_close with _ | code
        · have hframes := does_handle_frames received hfinished frames
          rw [hself] at hframes
          exact hframes
        · have hclosing : (((s.set_loop ep { s.loop ep with
              connection := parsed (s.loop ep).connection }).set_close_state
                (s.loop ep).connection.source_ep ⟨code, []⟩).loop ep).connection.finished = false :=
            hfinished
          have hclose := does_close_connection hclosing
          rw [show ((s.set_loop ep { s.loop ep with
              connection := parsed (s.loop ep).connection }).set_close_state
                (s.loop ep).connection.source_ep ⟨code, []⟩).loop ep =
              { s.loop ep with connection := parsed (s.loop ep).connection } from hself] at hclose
          exact hclose
  unfold websocket_loop proxy.websocket.websocket_loop
  generalize websocket_loop_impl received s ep = r at himpl
  generalize proxy.websocket.websocket_loop_impl received s.pipeline (s.loop ep).connection = h
    at himpl
  rcases r with ⟨s', result⟩
  rcases h with ⟨pl, connection, result'⟩
  obtain ⟨hresult, hpl, hconnection, hfailed⟩ := himpl
  simp only at hresult hpl hconnection hfailed
  subst hresult hpl
  rcases result with e | _
  · obtain ⟨rfl, hfinished⟩ := hfailed e rfl
    have hopen : ((s'.set_close_state (s'.loop ep).connection.source_ep
        ⟨.protocol_error, Error.reason e⟩).loop ep).connection.finished = false := hfinished
    exact ⟨(does_close_connection hopen).pipeline, (does_close_connection hopen).connection⟩
  · exact ⟨rfl, hconnection⟩

/-! ## Runs -/

/-- What completes, and how. -/
inductive Completion where
  | write (error : Option IoError)
  | read (data : Except IoError (List UInt8))
  | close (error : Option IoError)

def Completion.operation : Completion → Operation
  | .write _ => .on_destination_write
  | .read _ => .on_source_read
  | .close _ => .on_close

/-- One of the operations of a loop completes. -/
structure Event where
  ep : Endpoint
  completion : Completion

def handle (received : Interceptors) (s : Service z) (e : Event) : Service z :=
  match e.completion with
  | .write error => on_destination_write s error e.ep
  | .read data => on_source_read received s data e.ep
  | .close error => on_close s error e.ep

/-- Only an operation that is under way can complete. -/
def step (received : Interceptors) (s : Service z) (e : Event) : Option (Service z) :=
  let l := s.loop e.ep
  if e.completion.operation ∈ l.pending then
    some (handle received
      (s.set_loop e.ep { l with pending := l.pending.erase e.completion.operation }) e)
  else none

/-- The service before `start`. The buffers may hold what was read with the handshake. -/
def Service.new (should_intercept : Bool) (exts : Endpoint → List (PermessageDeflate z))
    (generator : Endpoint → Nat → UInt32) (input : Endpoint → List UInt8) : Service z where
  pipeline := .new should_intercept
  loop ep := ⟨{ Connection.new ep (exts ep) (generator ep) with input := input ep }, [], [], 0⟩
  stops := 0

/-- `start`. The two loops start in the same thread. -/
def start (received : Interceptors) (s : Service z) : Service z :=
  websocket_loop received (websocket_loop received s .client) .server

end proxy.websocket.websocket_service
