-- Messages that are injected while a source streams its own: they stay apart
-- exactly when each is sent with no source message in progress.
import Aether.Websocket.Sending

open lib.rfc6455 (DataType Receiver Piece)

namespace proxy.websocket

open protocol extensions

variable {z : Zlib}

/-! ## Turns of the loop -/

/-- A message that is injected for the destination. -/
structure Injected where
  type : DataType
  origin : Endpoint
  content : List UInt8
  blocked : Bool
  deriving DecidableEq, Repr

def Injected.message (m : Injected) : Message := ⟨typeOpcode m.type, m.origin, m.content, m.blocked⟩

/-- A frame of the source, other than a close frame. -/
inductive Incoming where
  | data (p : Piece)
  | ping (payload : List UInt8)
  | pong (payload : List UInt8)
  deriving DecidableEq, Repr

namespace Incoming

def frame : Incoming → CompletedFrame
  | data p => .message ⟨typeOpcode p.type, p.fin, p.payload⟩
  | ping payload => .ping payload
  | pong payload => .pong payload

def pieces : Incoming → List Piece
  | data p => [p]
  | _ => []

/-- What the parser lets through: a control frame has 125 bytes at most, and no frame `2 ^ 63`. -/
def Fits : Incoming → Prop
  | data p => p.payload.length < 2 ^ 63
  | ping payload => payload.length ≤ 125
  | pong payload => payload.length ≤ 125

end Incoming

/-- One run of the loop for a connection: what is injected for its destination until it sends, with
the pongs that answer the pings of the destination, and the frames that it handles. -/
structure Turn where
  pongs : List (List UInt8)
  injected : List Injected
  frames : List Incoming
  deriving DecidableEq, Repr

namespace Turn

def pieces (t : Turn) : List Piece := t.frames.flatMap Incoming.pieces

/-- The injected messages that are not blocked. -/
def sent (t : Turn) : List lib.rfc6455.Message :=
  (t.injected.filter (!·.blocked)).map fun m => ⟨m.type, m.content⟩

structure Fits (t : Turn) : Prop where
  pongs : ∀ payload ∈ t.pongs, payload.length ≤ 125
  frames : ∀ f ∈ t.frames, f.Fits

/-- The injection, through the interface of interceptors. -/
def arrive (t : Turn) (destination : Endpoint) (pl : Pipeline) : Pipeline :=
  t.injected.foldl (fun pl m => pl.inject_message destination m.message)
    (t.pongs.foldl (fun pl payload => pl.inject_frame destination (.pong payload)) pl)

end Turn

def handle_turn (received : Interceptors) (pl : Pipeline) (connection : Connection z) (t : Turn) :
    Handled z :=
  handle_frames received (t.arrive connection.destination_ep pl) connection
    (t.frames.map Incoming.frame)

/-- The turns up to the first error. -/
def run_turns (received : Interceptors) : Pipeline → Connection z → List Turn → Handled z
  | pl, connection, [] => ⟨pl, connection, .ok ()⟩
  | pl, connection, t :: rest =>
    (handle_turn received pl connection t).bind fun pl connection =>
      run_turns received pl connection rest

/-! ## What should come out -/

/-- What the destination should have: the messages of the source and the injected messages, whole,
in the order in which they are complete, and the message that the source is in the middle of. -/
def expected (r : Receiver) : List Turn → Option Receiver
  | [] => some r
  | t :: rest =>
    (r.pieces t.pieces).bind fun r => expected { r with whole := r.whole ++ t.sent } rest

/-- Whenever an injected message is sent, the source is between two messages. -/
def BetweenMessages (r : Receiver) : List Turn → Prop
  | [] => True
  | t :: rest => ∀ r', r.pieces t.pieces = some r' →
    (t.sent = [] ∨ r'.progress = none) ∧
      BetweenMessages { r' with whole := r'.whole ++ t.sent } rest

/-! ## What does come out

To the serializer an injected message is one more piece of whatever is in progress. -/

def Turn.written (t : Turn) : List Piece :=
  t.pieces ++ t.sent.map fun m => ⟨m.type, m.content, true⟩

/-- A connection that streams to the destination, and what is queued for it. -/
structure Streams (destination : Endpoint) (frames : List CompletedFrame) (msgs : List Message)
    (r : Receiver) (pl : Pipeline) (connection : Connection z) : Prop where
  should_intercept : pl.should_intercept_ = false
  closed : pl.closed_ = false
  frame_queue : pl.frame_queue destination = frames
  message_queue : pl.message_queue destination = msgs
  destination_ep : connection.destination_ep = destination
  source_ep : connection.source_ep = flip_endpoint destination
  sent : Sent connection r

/-- A handler that left such a connection. -/
structure Leaves (destination : Endpoint) (frames : List CompletedFrame) (msgs : List Message)
    (r : Receiver) (h : Handled z) : Prop where
  result : h.result = .ok ()
  streams : Streams destination frames msgs r h.pipeline h.connection

variable {destination : Endpoint} {frames : List CompletedFrame} {msgs : List Message}
  {r r' : Receiver} {pl : Pipeline} {connection : Connection z}

theorem Leaves.bind {frames' : List CompletedFrame} {msgs' : List Message} {h : Handled z}
    {next : Pipeline → Connection z → Handled z} (hl : Leaves destination frames msgs r h)
    (hn : Leaves destination frames' msgs' r' (next h.pipeline h.connection)) :
    Leaves destination frames' msgs' r' (h.bind next) := by
  rw [Handled.bind, hl.result]
  exact hn

theorem bind_refused {h : Handled z} (next : Pipeline → Connection z → Handled z)
    (he : ∃ e, h.result = .error e) : ∃ e, (h.bind next).result = .error e := by
  obtain ⟨e, he⟩ := he
  exact ⟨e, by rw [Handled.bind, he]; exact he⟩

theorem Leaves.bind_refused {h : Handled z} {next : Pipeline → Connection z → Handled z}
    (hl : Leaves destination frames msgs r h)
    (hn : ∃ e, (next h.pipeline h.connection).result = .error e) :
    ∃ e, (h.bind next).result = .error e := by
  rw [Handled.bind, hl.result]
  exact hn

theorem Sends.leaves {h : Handled z} (hs : Streams destination frames msgs r pl connection)
    (h' : Sends pl connection h r') : Leaves destination frames msgs r' h where
  result := h'.result
  streams := by
    rw [h'.pipeline]
    exact ⟨hs.should_intercept, hs.closed, hs.frame_queue, hs.message_queue,
      h'.same.destination_ep.trans hs.destination_ep, h'.same.source_ep.trans hs.source_ep, h'.sent⟩

theorem Streams.not_ready (hs : Streams destination frames msgs r pl connection) :
    Streams destination frames msgs r pl { connection with ready_to_intercept := false } :=
  ⟨hs.should_intercept, hs.closed, hs.frame_queue, hs.message_queue, hs.destination_ep,
    hs.source_ep,
    ⟨hs.sent.exts, hs.sent.output, hs.sent.progress⟩⟩

/-! ## The frames of the source -/

/-- A control frame of 125 bytes at most is written, and is no part of a message. -/
theorem sends_control (fr : CompletedFrame) (type : Opcode) {payload : List UInt8}
    (hc : is_control type = true) (h125 : payload.length ≤ 125) (hs : Sent connection r)
    (h : ∀ fp : FrameParser z, manager_serialize fp fr = serialize_frame fp type payload true)
    (pl : Pipeline) :
    Sends pl connection (serialize pl connection fr) r := by
  have hshort : is_control type = true → payload.length ≤ 125 := fun _ => h125
  have hcall := serialize_frame_plain hs.exts hshort true
  obtain ⟨fs, ho, hlen, hr⟩ := hs.output
  have hcontrol : (wireFrame connection.manager type payload true).isControl = true := by
    rw [← hc]
    cases type <;> rfl
  unfold serialize
  rw [h, hcall]
  refine ⟨rfl, rfl, ⟨by simpa using hs.exts,
    ⟨fs ++ [wireFrame connection.manager type payload true], ?_, ?_, ?_⟩,
    by simpa using hs.progress⟩, ⟨rfl, rfl, rfl, rfl⟩⟩
  · simp only [ho, lib.rfc6455.encodeAll, List.flatMap_append, List.flatMap_cons, List.flatMap_nil,
      List.append_nil]
  · intro g hg
    rcases List.mem_append.mp hg with hg | hg
    · exact hlen g hg
    · obtain rfl := List.mem_singleton.mp hg
      exact lt_of_le_of_lt h125 (by decide)
  · rw [Receiver.receiveAll_append, hr, Option.bind_some, Receiver.receiveAll, Receiver.receive,
      hcontrol]
    rfl

theorem Streams.push_back (hs : Streams destination frames msgs r pl connection)
    (payload : List UInt8) :
    Streams destination frames msgs r (pl.inject_frame connection.source_ep (.pong payload))
      connection := by
  rw [hs.source_ep]
  obtain ⟨hi, hc, hf, hm, hd, hsrc, hsent⟩ := hs
  cases destination
  all_goals exact ⟨hi, hc, hf, hm, hd, hsrc, hsent⟩

theorem on_frame_leaves (received : Interceptors) {f : Incoming} (hf : f.Fits)
    (hs : Streams destination frames msgs r pl connection) (h : r.pieces f.pieces = some r') :
    Leaves destination frames msgs r' (on_frame received pl connection f.frame) := by
  cases f with
  | ping payload =>
    cases h
    exact Sends.leaves (hs.push_back payload)
      (sends_control (.ping payload) .ping rfl hf hs.sent (fun _ => rfl) _)
  | pong payload =>
    cases h
    exact ⟨rfl, hs⟩
  | data p =>
    obtain ⟨r1, h1, h2⟩ := Receiver.pieces_cons h
    cases h2
    have htype : typeOpcode p.type = .binary ∨ typeOpcode p.type = .text := by
      cases p.type <;> simp [typeOpcode]
    simp only [on_frame, Incoming.frame, htype, if_true, on_message_frame, hs.should_intercept,
      Bool.false_eq_true, if_false]
    exact Sends.leaves hs.not_ready (sends_piece hs.not_ready.sent hf h1 pl)

theorem on_frame_refused (received : Interceptors) {f : Incoming}
    (hs : Streams destination frames msgs r pl connection) (h : r.pieces f.pieces = none) :
    ∃ e, (on_frame received pl connection f.frame).result = .error e := by
  cases f with
  | ping payload => cases h
  | pong payload => cases h
  | data p =>
    have h1 : r.piece p.type p.payload p.fin = none := by
      cases hp : r.piece p.type p.payload p.fin with
      | none => rfl
      | some r1 => rw [Incoming.pieces, Receiver.pieces, hp] at h; cases h
    have htype : typeOpcode p.type = .binary ∨ typeOpcode p.type = .text := by
      cases p.type <;> simp [typeOpcode]
    obtain ⟨e, he⟩ := refuses_piece hs.not_ready.sent h1 pl
    refine ⟨e, ?_⟩
    simp only [on_frame, Incoming.frame, htype, if_true, on_message_frame, hs.should_intercept,
      Bool.false_eq_true, if_false]
    rw [he]

theorem on_frames_leaves (received : Interceptors) {fs : List Incoming} (hf : ∀ f ∈ fs, f.Fits)
    (hs : Streams destination frames msgs r pl connection)
    (h : r.pieces (fs.flatMap Incoming.pieces) = some r') :
    Leaves destination frames msgs r'
      (on_frames received pl connection (fs.map Incoming.frame)) := by
  induction fs generalizing r pl connection with
  | nil => cases h; exact ⟨rfl, hs⟩
  | cons f fs ih =>
    rw [List.flatMap_cons, Receiver.pieces_append, Option.bind_eq_some_iff] at h
    obtain ⟨r1, h1, h2⟩ := h
    have hfirst := on_frame_leaves received (hf f (by simp)) hs h1
    exact hfirst.bind (ih (fun g hg => hf g (by simp [hg])) hfirst.streams h2)

theorem on_frames_refused (received : Interceptors) {fs : List Incoming} (hf : ∀ f ∈ fs, f.Fits)
    (hs : Streams destination frames msgs r pl connection)
    (h : r.pieces (fs.flatMap Incoming.pieces) = none) :
    ∃ e, (on_frames received pl connection (fs.map Incoming.frame)).result = .error e := by
  induction fs generalizing r pl connection with
  | nil => cases h
  | cons f fs ih =>
    rw [List.flatMap_cons, Receiver.pieces_append] at h
    cases h1 : r.pieces f.pieces with
    | none => exact bind_refused _ (on_frame_refused received hs h1)
    | some r1 =>
      rw [h1, Option.bind_some] at h
      have hfirst := on_frame_leaves received (hf f (by simp)) hs h1
      exact hfirst.bind_refused (ih (fun g hg => hf g (by simp [hg])) hfirst.streams h)

/-! ## The queues -/

theorem Streams.pop_frame {fr : CompletedFrame}
    (hs : Streams destination (fr :: frames) msgs r pl connection) :
    Streams destination frames msgs r (pl.pop_frame connection.destination_ep) connection := by
  obtain ⟨hi, hc, hf, hm, hd, hsrc, hsent⟩ := hs
  rw [hd]
  cases destination
  all_goals
    simp only [Pipeline.frame_queue] at hf
    exact ⟨hi, hc, by simp [Pipeline.frame_queue, Pipeline.pop_frame, hf], hm, hd, hsrc, hsent⟩

theorem Streams.pop_message {msg : Message}
    (hs : Streams destination frames (msg :: msgs) r pl connection) :
    Streams destination frames msgs r (pl.pop_message connection.destination_ep) connection := by
  obtain ⟨hi, hc, hf, hm, hd, hsrc, hsent⟩ := hs
  rw [hd]
  cases destination
  all_goals
    simp only [Pipeline.message_queue] at hm
    exact ⟨hi, hc, hf, by simp [Pipeline.message_queue, Pipeline.pop_message, hm], hd, hsrc, hsent⟩

theorem inject_frames_leaves {pongs : List (List UInt8)} (h125 : ∀ p ∈ pongs, p.length ≤ 125)
    (hs : Streams destination (pongs.map .pong) msgs r pl connection) :
    Leaves destination [] msgs r (inject_frames (pongs.map .pong) pl connection) := by
  induction pongs generalizing pl connection with
  | nil => exact ⟨rfl, hs⟩
  | cons payload pongs ih =>
    have hfirst := Sends.leaves hs (sends_control (.pong payload) .pong rfl
      (h125 payload (by simp)) hs.sent (fun _ => rfl) pl)
    exact hfirst.bind (ih (fun p hp => h125 p (by simp [hp])) hfirst.streams.pop_frame)

/-- The unblocked messages of a queue, as the serializer takes them. -/
def lastPiecesOf (injected : List Injected) : List Piece :=
  ((injected.filter (!·.blocked)).map fun m => (⟨m.type, m.content⟩ : lib.rfc6455.Message)).map
    fun m => ⟨m.type, m.content, true⟩

theorem lastPiecesOf_cons (m : Injected) (ms : List Injected) :
    lastPiecesOf (m :: ms) =
      if m.blocked then lastPiecesOf ms else ⟨m.type, m.content, true⟩ :: lastPiecesOf ms := by
  unfold lastPiecesOf
  cases hb : m.blocked <;> simp [hb]

theorem send_message_leaves {m : Injected} (hm : m.blocked = false)
    (hs : Streams destination frames msgs r pl connection)
    (h : r.piece m.type m.content true = some r') :
    Leaves destination frames msgs r' (send_message pl connection m.message) := by
  obtain ⟨content, hb, rfl⟩ := Receiver.piece_before h
  exact Sends.leaves hs (send_message_sends m.message rfl hm pl hs.sent hb)

theorem inject_messages_leaves {injected : List Injected}
    (hs : Streams destination frames (injected.map Injected.message) r pl connection)
    (h : r.pieces (lastPiecesOf injected) = some r') :
    Leaves destination frames [] r'
      (inject_messages (injected.map Injected.message) pl connection) := by
  induction injected generalizing r pl connection with
  | nil => cases h; exact ⟨rfl, hs⟩
  | cons m injected ih =>
    rw [lastPiecesOf_cons] at h
    cases hm : m.blocked with
    | true =>
      rw [hm] at h
      have hfirst : Leaves destination frames ((m :: injected).map Injected.message) r
          (send_message pl connection m.message) := by
        have hblocked : m.message.blocked = true := hm
        rw [send_message, hblocked, if_pos rfl]
        exact ⟨rfl, hs⟩
      exact hfirst.bind (ih hfirst.streams.pop_message h)
    | false =>
      rw [hm] at h
      obtain ⟨r1, h1, h2⟩ := Receiver.pieces_cons h
      have hfirst := send_message_leaves hm hs h1
      exact hfirst.bind (ih hfirst.streams.pop_message h2)

theorem inject_messages_refused {injected : List Injected}
    (hs : Streams destination frames (injected.map Injected.message) r pl connection)
    (h : r.pieces (lastPiecesOf injected) = none) :
    ∃ e, (inject_messages (injected.map Injected.message) pl connection).result = .error e := by
  induction injected generalizing r pl connection with
  | nil => cases h
  | cons m injected ih =>
    rw [lastPiecesOf_cons] at h
    cases hm : m.blocked with
    | true =>
      rw [hm] at h
      have hfirst : Leaves destination frames ((m :: injected).map Injected.message) r
          (send_message pl connection m.message) := by
        have hblocked : m.message.blocked = true := hm
        rw [send_message, hblocked, if_pos rfl]
        exact ⟨rfl, hs⟩
      exact hfirst.bind_refused (ih hfirst.streams.pop_message h)
    | false =>
      rw [hm] at h
      cases h1 : r.piece m.type m.content true with
      | none =>
        have hb : r.before m.type = none := by
          rw [Receiver.piece, Option.map_eq_none_iff] at h1
          exact h1
        obtain ⟨e, he⟩ := refuses_message m.message rfl hm hs.sent hb pl
        exact bind_refused _ ⟨e, by rw [he]⟩
      | some r1 =>
        have h2 : r1.pieces (lastPiecesOf injected) = none := by
          simpa [Receiver.pieces, h1] using h
        have hfirst := send_message_leaves hm hs h1
        exact hfirst.bind_refused (ih hfirst.streams.pop_message h2)

/-! ## Whole turns -/

theorem Streams.inject_pongs (pongs : List (List UInt8))
    (hs : Streams destination frames msgs r pl connection) :
    Streams destination (frames ++ pongs.map .pong) msgs r
      (pongs.foldl (fun pl payload => pl.inject_frame destination (.pong payload)) pl)
      connection := by
  induction pongs generalizing frames pl with
  | nil => simpa using hs
  | cons payload pongs ih =>
    have hfirst : Streams destination (frames ++ [.pong payload]) msgs r
        (pl.inject_frame destination (.pong payload)) connection := by
      obtain ⟨hi, hc, hf, hm, hd, hsrc, hsent⟩ := hs
      subst hf
      cases destination
      all_goals exact ⟨hi, hc, rfl, hm, hd, hsrc, hsent⟩
    simpa using ih hfirst

theorem Streams.inject_all (injected : List Injected)
    (hs : Streams destination frames msgs r pl connection) :
    Streams destination frames (msgs ++ injected.map Injected.message) r
      (injected.foldl (fun pl m => pl.inject_message destination m.message) pl) connection := by
  induction injected generalizing msgs pl with
  | nil => simpa using hs
  | cons m injected ih =>
    have hfirst : Streams destination frames (msgs ++ [m.message]) r
        (pl.inject_message destination m.message) connection := by
      obtain ⟨hi, hc, hf, hm, hd, hsrc, hsent⟩ := hs
      subst hm
      cases destination
      all_goals exact ⟨hi, hc, hf, rfl, hd, hsrc, hsent⟩
    simpa using ih hfirst

theorem Streams.arrive (hs : Streams destination [] [] r pl connection) (t : Turn) :
    Streams destination (t.pongs.map .pong) (t.injected.map Injected.message) r
      (t.arrive connection.destination_ep pl) connection := by
  rw [hs.destination_ep]
  simpa [Turn.arrive] using (hs.inject_pongs t.pongs).inject_all t.injected

/-- After the frames of the source, the loop goes on to what is queued for the destination. -/
theorem handle_frames_eq (received : Interceptors) {t : Turn} {h : Handled z}
    (hh : on_frames received pl connection (t.frames.map Incoming.frame) = h)
    (hl : Leaves destination (t.pongs.map .pong) (t.injected.map Injected.message) r h) :
    handle_frames received pl connection (t.frames.map Incoming.frame) =
      (inject_frames (t.pongs.map .pong) h.pipeline h.connection).bind fun pl connection =>
        inject_messages (pl.message_queue connection.destination_ep) pl connection := by
  rw [handle_frames, hh, Handled.bind, hl.result]
  simp only [hl.streams.closed, Bool.false_eq_true, if_false, hl.streams.destination_ep,
    hl.streams.frame_queue]

theorem handle_turn_leaves (received : Interceptors) {t : Turn} (ht : t.Fits)
    (hs : Streams destination [] [] r pl connection) (h : r.pieces t.written = some r') :
    Leaves destination [] [] r' (handle_turn received pl connection t) := by
  rw [Turn.written, Receiver.pieces_append, Option.bind_eq_some_iff] at h
  obtain ⟨r1, h1, h2⟩ := h
  have hframes := on_frames_leaves received ht.frames (hs.arrive t) h1
  have hpongs := inject_frames_leaves ht.pongs hframes.streams
  rw [handle_turn, handle_frames_eq received rfl hframes]
  refine hpongs.bind ?_
  rw [hpongs.streams.destination_ep, hpongs.streams.message_queue]
  exact inject_messages_leaves hpongs.streams h2

theorem handle_turn_refused (received : Interceptors) {t : Turn} (ht : t.Fits)
    (hs : Streams destination [] [] r pl connection) (h : r.pieces t.written = none) :
    ∃ e, (handle_turn received pl connection t).result = .error e := by
  rw [Turn.written, Receiver.pieces_append] at h
  cases h1 : r.pieces t.pieces with
  | none => exact bind_refused _ (on_frames_refused received ht.frames (hs.arrive t) h1)
  | some r1 =>
    rw [h1, Option.bind_some] at h
    have hframes := on_frames_leaves received ht.frames (hs.arrive t) h1
    have hpongs := inject_frames_leaves ht.pongs hframes.streams
    rw [handle_turn, handle_frames_eq received rfl hframes]
    refine hpongs.bind_refused ?_
    rw [hpongs.streams.destination_ep, hpongs.streams.message_queue]
    exact inject_messages_refused hpongs.streams h

/-- The pieces of a run, as the serializer takes them. -/
def writtenAll (turns : List Turn) : List Piece := turns.flatMap Turn.written

theorem run_turns_leaves (received : Interceptors) {turns : List Turn} (ht : ∀ t ∈ turns, t.Fits)
    (hs : Streams destination [] [] r pl connection) (h : r.pieces (writtenAll turns) = some r') :
    Leaves destination [] [] r' (run_turns received pl connection turns) := by
  induction turns generalizing r pl connection with
  | nil => cases h; exact ⟨rfl, hs⟩
  | cons t turns ih =>
    rw [writtenAll, List.flatMap_cons, Receiver.pieces_append, Option.bind_eq_some_iff] at h
    obtain ⟨r1, h1, h2⟩ := h
    have hfirst := handle_turn_leaves received (ht t (by simp)) hs h1
    exact hfirst.bind (ih (fun u hu => ht u (by simp [hu])) hfirst.streams h2)

theorem run_turns_refused (received : Interceptors) {turns : List Turn} (ht : ∀ t ∈ turns, t.Fits)
    (hs : Streams destination [] [] r pl connection) (h : r.pieces (writtenAll turns) = none) :
    ∃ e, (run_turns received pl connection turns).result = .error e := by
  induction turns generalizing r pl connection with
  | nil => cases h
  | cons t turns ih =>
    rw [writtenAll, List.flatMap_cons, Receiver.pieces_append] at h
    cases h1 : r.pieces t.written with
    | none => exact bind_refused _ (handle_turn_refused received (ht t (by simp)) hs h1)
    | some r1 =>
      rw [h1, Option.bind_some] at h
      have hfirst := handle_turn_leaves received (ht t (by simp)) hs h1
      exact hfirst.bind_refused (ih (fun u hu => ht u (by simp [hu])) hfirst.streams h)

theorem streams_new (destination : Endpoint) (generator : Nat → UInt32) :
    Streams destination [] [] .start (Pipeline.new false)
      (Connection.new destination [] generator : Connection z) :=
  ⟨rfl, rfl, by cases destination <;> rfl, by cases destination <;> rfl, rfl, rfl,
    sent_new destination generator⟩

/-- A run has no error and a receiver is at `r` exactly when the pieces of the run lead to `r`. -/
theorem run_turns_iff (received : Interceptors) {turns : List Turn} (ht : ∀ t ∈ turns, t.Fits)
    (hs : Streams destination [] [] .start pl connection) (r : Receiver) :
    ((run_turns received pl connection turns).result = .ok () ∧
        lib.rfc6455.received (run_turns received pl connection turns).connection.output = some r) ↔
      Receiver.start.pieces (writtenAll turns) = some r := by
  cases h : Receiver.start.pieces (writtenAll turns) with
  | none =>
    obtain ⟨e, he⟩ := run_turns_refused received ht hs h
    simp [he]
  | some r' =>
    have hl := run_turns_leaves received ht hs h
    rw [hl.streams.sent.received]
    simp [hl.result]

/-! ## Pieces that are whole messages -/

/-- Between two messages, whole messages go through as they are. -/
theorem pieces_whole (ms : List lib.rfc6455.Message) {r : Receiver} (h : r.progress = none) :
    r.pieces (ms.map fun m => ⟨m.type, m.content, true⟩) =
      some { r with whole := r.whole ++ ms } := by
  induction ms generalizing r with
  | nil => simp [Receiver.pieces]
  | cons m ms ih =>
    have hfirst : r.piece m.type m.content true = some ⟨none, r.whole ++ [m]⟩ := by
      simp [Receiver.piece, Receiver.before, h, Receiver.extend]
    rw [List.map_cons, Receiver.pieces, hfirst, Option.bind_some, ih rfl]
    simp [h]

/-- A whole message ends the message in progress, whichever it is. -/
theorem progress_after_whole {ms : List lib.rfc6455.Message} (hne : ms ≠ []) {r r' : Receiver}
    (h : r.pieces (ms.map fun m => ⟨m.type, m.content, true⟩) = some r') : r'.progress = none := by
  cases ms with
  | nil => exact absurd rfl hne
  | cons m ms =>
    obtain ⟨r1, h1, h2⟩ := Receiver.pieces_cons h
    obtain ⟨content, -, rfl⟩ := Receiver.piece_before h1
    rw [pieces_whole ms rfl] at h2
    cases h2
    rfl

/-- A turn that sends between messages leads where it should. -/
theorem pieces_written {t : Turn} {r r' : Receiver} (h : r.pieces t.pieces = some r')
    (hb : t.sent = [] ∨ r'.progress = none) :
    r.pieces t.written = some { r' with whole := r'.whole ++ t.sent } := by
  rw [Turn.written, Receiver.pieces_append, h, Option.bind_some]
  rcases hb with hnil | hnone
  · simp [hnil, Receiver.pieces]
  · exact pieces_whole t.sent hnone

/-- A turn that sends in the middle of a message does not. -/
theorem pieces_written_ne {t : Turn} {r r' : Receiver} (h : r.pieces t.pieces = some r')
    (hb : ¬ (t.sent = [] ∨ r'.progress = none)) :
    r.pieces t.written ≠ some { r' with whole := r'.whole ++ t.sent } := by
  obtain ⟨hne, hsome⟩ := not_or.mp hb
  rw [Turn.written, Receiver.pieces_append, h, Option.bind_some]
  intro he
  have hnone := progress_after_whole hne he
  exact hsome hnone

theorem expected_cons {t : Turn} {turns : List Turn} {r r' : Receiver}
    (h : expected r (t :: turns) = some r') :
    ∃ r1, r.pieces t.pieces = some r1 ∧
      expected { r1 with whole := r1.whole ++ t.sent } turns = some r' := by
  rw [expected, Option.bind_eq_some_iff] at h
  exact h

theorem betweenMessages_iff {turns : List Turn} {r w : Receiver} (hw : expected r turns = some w) :
    (∀ pre, pre <+: turns → r.pieces (writtenAll pre) = expected r pre) ↔
      BetweenMessages r turns := by
  induction turns generalizing r with
  | nil =>
    refine ⟨fun _ => trivial, fun _ pre hpre => ?_⟩
    obtain rfl := List.prefix_nil.mp hpre
    rfl
  | cons t turns ih =>
    obtain ⟨r1, h1, h2⟩ := expected_cons hw
    have hexpected : ∀ pre, expected r (t :: pre) =
        expected { r1 with whole := r1.whole ++ t.sent } pre := by
      intro pre; rw [expected, h1]; rfl
    have hwritten : ∀ pre, r.pieces (writtenAll (t :: pre)) =
        (r.pieces t.written).bind fun r => r.pieces (writtenAll pre) := by
      intro pre; rw [writtenAll, List.flatMap_cons, Receiver.pieces_append]; rfl
    constructor
    · intro hall r1' h1'
      obtain rfl : r1 = r1' := by rw [h1] at h1'; exact Option.some.inj h1'
      have hhere : t.sent = [] ∨ r1.progress = none := by
        by_contra hb
        have hone := hall [t] (by simp)
        rw [hwritten, hexpected] at hone
        refine pieces_written_ne h1 hb ?_
        cases hp : r.pieces t.written with
        | none => rw [hp] at hone; cases hone
        | some r2 => rw [hp] at hone; exact hone
      refine ⟨hhere, (ih h2).mp fun pre hpre => ?_⟩
      have hmore := hall (t :: pre) (List.cons_prefix_cons.mpr ⟨rfl, hpre⟩)
      rw [hwritten, hexpected, pieces_written h1 hhere] at hmore
      exact hmore
    · intro hb pre hpre
      obtain ⟨hhere, hlater⟩ := hb r1 h1
      cases pre with
      | nil => rfl
      | cons u pre =>
        obtain ⟨rfl, hrest⟩ := List.cons_prefix_cons.mp hpre
        rw [hwritten, hexpected, pieces_written h1 hhere]
        exact (ih h2).mpr hlater pre hrest

theorem expected_prefix {turns : List Turn} {r w : Receiver} (hw : expected r turns = some w)
    {pre : List Turn} (hpre : pre <+: turns) : ∃ w', expected r pre = some w' := by
  induction turns generalizing r pre with
  | nil => obtain rfl := List.prefix_nil.mp hpre; exact ⟨_, rfl⟩
  | cons t turns ih =>
    cases pre with
    | nil => exact ⟨_, rfl⟩
    | cons u pre =>
      obtain ⟨rfl, hrest⟩ := List.cons_prefix_cons.mp hpre
      obtain ⟨r1, h1, h2⟩ := expected_cons hw
      obtain ⟨w', hw'⟩ := ih h2 hrest
      exact ⟨w', by rw [expected, h1]; exact hw'⟩

/-- In every state of a run the destination has the messages of the source and the injected ones
whole and apart, with no error, exactly when no injected message is sent while the source is in the
middle of a message. -/
theorem injected_messages_stay_apart_iff_sent_between_messages (received : Interceptors)
    (destination : Endpoint) (generator : Nat → UInt32) {turns : List Turn}
    (ht : ∀ t ∈ turns, t.Fits) {w : Receiver} (hw : expected .start turns = some w) :
    (∀ pre, pre <+: turns →
        (run_turns received (Pipeline.new false)
          (Connection.new destination [] generator : Connection z) pre).result = .ok () ∧
        lib.rfc6455.received (run_turns received (Pipeline.new false)
          (Connection.new destination [] generator : Connection z) pre).connection.output =
            expected .start pre) ↔
      BetweenMessages .start turns := by
  rw [← betweenMessages_iff hw]
  refine forall_congr' fun pre => imp_congr_right fun hpre => ?_
  obtain ⟨w', hw'⟩ := expected_prefix hw hpre
  rw [hw']
  exact run_turns_iff received (fun t h => ht t (hpre.subset h))
    (streams_new destination generator) w'

/-- A message is injected after the last frame of a message of the source. -/
theorem a_message_injected_between_messages_stays_apart :
    (∀ pre, pre <+: [(⟨[], [⟨.text, .client, [98], false⟩],
          [.data ⟨.text, [97], false⟩, .data ⟨.text, [99], true⟩]⟩ : Turn)] →
        (run_turns (fun pl m => (pl, m)) (Pipeline.new false)
          (Connection.new .server [] (fun _ => 0) : Connection .inert) pre).result = .ok () ∧
        lib.rfc6455.received (run_turns (fun pl m => (pl, m)) (Pipeline.new false)
          (Connection.new .server [] (fun _ => 0) : Connection .inert) pre).connection.output =
            expected .start pre) ↔
      BetweenMessages .start [⟨[], [⟨.text, .client, [98], false⟩],
        [.data ⟨.text, [97], false⟩, .data ⟨.text, [99], true⟩]⟩] :=
  injected_messages_stay_apart_iff_sent_between_messages _ .server _
    (by
      intro t ht
      obtain rfl := List.mem_singleton.mp ht
      exact ⟨by simp, by simp [Incoming.Fits]⟩)
    rfl

/-- The source sends "ac" in two frames, and "b" is injected after the first: the destination gets a
message that is neither. -/
theorem an_injected_message_is_merged_with_the_one_in_progress :
    ∃ r, lib.rfc6455.received (run_turns (fun pl m => (pl, m)) (Pipeline.new false)
        (Connection.new .server [] (fun _ => 0) : Connection .inert)
        [⟨[], [⟨.text, .client, [98], false⟩], [.data ⟨.text, [97], false⟩]⟩,
          ⟨[], [], [.data ⟨.text, [99], true⟩]⟩]).connection.output = some r ∧
      ¬ ∀ m ∈ r.whole, m = ⟨.text, [97, 99]⟩ ∨ m = ⟨.text, [98]⟩ := by
  refine ⟨⟨none, [⟨.text, [97, 98]⟩, ⟨.text, [99]⟩]⟩, ?_, by decide⟩
  refine ((run_turns_iff _ ?_ (streams_new .server _) _).mpr (by decide)).2
  intro t ht
  rcases List.mem_cons.mp ht with rfl | ht
  · exact ⟨by simp, by simp [Incoming.Fits]⟩
  · obtain rfl := List.mem_singleton.mp ht
    exact ⟨by simp, by simp [Incoming.Fits]⟩

end proxy.websocket
