-- Which frames of a stream the service handles, when an error or a close ends
-- it: a frame that came in the same piece as the end may be lost, or one too
-- many may be handled.
import Aether.Websocket.FrameReading
import Aether.Websocket.ParserCalls
import Aether.Websocket.WebsocketService

open lib.resumable

namespace proxy.websocket

open protocol extensions

variable {z : Zlib}

/-! ## The calls of the service -/

/-- A frame that closes the pipeline. -/
def closes : CompletedFrame → Bool
  | .close _ => true
  | _ => false

/-- The frames that `websocket_loop_impl` handles after a call of the manager: none where the call
fails, or where the parser asks for a close. -/
def handled (call : ManagerCall z) : List CompletedFrame :=
  match call.frames, call.should_close with
  | .ok frames, none => frames
  | _, _ => []

/-- The manager is called again, for the pipeline is not closed. -/
def called_again (call : ManagerCall z) : Bool :=
  match call.frames, call.should_close with
  | .ok frames, none => !frames.any closes
  | _, _ => false

/-- The frames that are handled as the pieces of a stream come in. -/
def handled_frames (fp : FrameParser z) (inp : List UInt8) :
    List (List UInt8) → List CompletedFrame
  | [] => []
  | piece :: pieces =>
    let call := manager_parse fp (inp ++ piece)
    handled call ++
      if called_again call then handled_frames call.parser call.input pieces else []

/-! ## The service makes these calls -/

/-- The connection after a call of the manager. -/
def parsed (connection : Connection z) : Connection z :=
  { connection with
    manager := (manager_parse connection.manager connection.input).parser
    input := (manager_parse connection.manager connection.input).input }

/-- The frames are handled that are said to be. -/
theorem websocket_loop_impl_handles (received : Interceptors) {pl : Pipeline}
    {connection : Connection z} (ho : pl.closed_ = false)
    (h : called_again (manager_parse connection.manager connection.input) = true) :
    websocket_loop_impl received pl connection = handle_frames received pl (parsed connection)
      (handled (manager_parse connection.manager connection.input)) := by
  unfold websocket_loop_impl parsed
  rw [if_neg (by simp [ho])]
  revert h
  rcases manager_parse connection.manager connection.input with ⟨fp, inp, _ | code, e | frames⟩ <;>
    simp [called_again, handled]

theorem serialize_pipeline (pl : Pipeline) (connection : Connection z) (frame : CompletedFrame) :
    (serialize pl connection frame).pipeline = pl := by
  unfold serialize
  simp only
  split <;> rfl

theorem close_connection_pipeline (pl : Pipeline) (connection : Connection z) :
    (close_connection pl connection).1 = pl := by
  unfold close_connection
  split
  · rfl
  · exact serialize_pipeline pl connection _

theorem send_loop_pipeline (ep : Endpoint) (pl : Pipeline) (connection : Connection z)
    (msg : Message) (i : Nat) : (send_loop ep pl connection msg i).pipeline = pl := by
  fun_induction send_loop ep pl connection msg i with
  | case1 pl connection i h => exact serialize_pipeline pl connection _
  | case2 pl connection i h ih =>
    have hpl := serialize_pipeline pl connection
      (.message ⟨msg.type, false, (msg.content.drop i).take (chunk_size ep)⟩)
    unfold Handled.bind
    split
    · exact hpl
    · rw [ih, hpl]

theorem send_message_pipeline (pl : Pipeline) (connection : Connection z) (msg : Message) :
    (send_message pl connection msg).pipeline = pl := by
  unfold send_message
  split
  · rfl
  · exact send_loop_pipeline _ pl connection msg 0

/-- Interceptors that leave the pipeline alone are all that could change it. -/
theorem on_message_frame_pipeline {received : Interceptors}
    (hr : ∀ pl msg, (received pl msg).1 = pl)
    (pl : Pipeline) (connection : Connection z) (frame : MessageFrame) :
    (on_message_frame received pl connection frame).pipeline = pl := by
  unfold on_message_frame
  split_ifs
  · rfl
  · rfl
  · simp only [send_message_pipeline]
    exact hr _ _
  · rfl
  · exact serialize_pipeline ..

/-- An interceptor that does not open a pipeline that is closed. -/
def LeavesClosed (received : Interceptors) : Prop :=
  ∀ pl msg, pl.closed_ = true → (received pl msg).1.closed_ = true

section

variable {received : Interceptors} (hr : LeavesClosed received)

include hr

theorem on_frame_closed {pl : Pipeline} (hc : pl.closed_ = true) (connection : Connection z)
    (frame : CompletedFrame) : (on_frame received pl connection frame).pipeline.closed_ = true := by
  cases frame with
  | ping payload =>
    simp only [on_frame, on_ping_frame, serialize_pipeline, Pipeline.inject_frame]
    cases connection.source_ep <;> exact hc
  | pong payload => exact hc
  | close f => rfl
  | message f =>
    simp only [on_frame, on_message_frame]
    split_ifs
    · exact hc
    · exact hc
    · simp only [send_message_pipeline]
      exact hr _ _ hc
    · exact hc
    · simp only [serialize_pipeline]
      exact hc
    · exact hc

theorem on_frames_closed {pl : Pipeline} (hc : pl.closed_ = true) (connection : Connection z)
    (frames : List CompletedFrame) :
    (on_frames received pl connection frames).pipeline.closed_ = true := by
  induction frames generalizing pl connection with
  | nil => exact hc
  | cons frame frames ih =>
    have hframe := on_frame_closed hr hc connection frame
    rw [on_frames]
    unfold Handled.bind
    split
    · exact hframe
    · exact ih hframe _

/-- A close frame among those that are handled closes the pipeline. -/
theorem on_frames_closes {frames : List CompletedFrame} (h : frames.any closes = true)
    (pl : Pipeline) (connection : Connection z)
    (hok : (on_frames received pl connection frames).result = .ok ()) :
    (on_frames received pl connection frames).pipeline.closed_ = true := by
  induction frames generalizing pl connection with
  | nil => cases h
  | cons frame frames ih =>
    rw [on_frames] at hok ⊢
    unfold Handled.bind at hok ⊢
    split at hok
    · rename_i he
      rw [he] at hok
      cases hok
    rename_i hframe
    simp only
    cases hcl : closes frame with
    | true =>
      cases frame with
      | close f => exact on_frames_closed hr rfl _ frames
      | _ => cases hcl
    | false =>
      rw [List.any_cons, hcl, Bool.false_or] at h
      exact ih h _ _ hok

/-- Where the manager is not called again, the pipeline is closed. -/
theorem websocket_loop_closes {pl : Pipeline} {connection : Connection z}
    (ho : pl.closed_ = false)
    (h : called_again (manager_parse connection.manager connection.input) = false) :
    (websocket_loop received pl connection).1.closed_ = true := by
  unfold websocket_loop
  simp only
  cases hres : (websocket_loop_impl received pl connection).result with
  | error e =>
    simp only [close_connection_pipeline]
    rfl
  | ok _ =>
    simp only
    revert hres
    unfold websocket_loop_impl
    rw [if_neg (by simp [ho])]
    revert h
    rcases manager_parse connection.manager connection.input with ⟨fp, inp, _ | code, e | frames⟩
    · intro _ hres
      cases hres
    · intro h hres
      simp only [called_again, Bool.not_eq_false'] at h
      simp only [handle_frames] at hres ⊢
      generalize hc : ({ connection with manager := fp, input := inp } : Connection z) = c at *
      unfold Handled.bind at hres ⊢
      cases hf : (on_frames received pl c frames).result with
      | error e =>
        simp only [hf] at hres
        cases hres
      | ok _ =>
        have hclosed := on_frames_closes hr h pl c hf
        simp only [hclosed, if_true, close_connection_pipeline]
    · intro _ hres
      cases hres
    · intro _ _
      simp only [close_connection_pipeline]
      rfl

end

/-! ## The frames of a stream -/

/-- The frames that stand completed in the bytes. -/
def frames_of (fp : FrameParser z) (bs : List UInt8) : List CompletedFrame :=
  (drainAll manager_step pending fp bs).items.flatten

/-- The error, or the close code, that the bytes end with. -/
def halt_of (fp : FrameParser z) (bs : List UInt8) : Option Halt :=
  (drainAll manager_step pending fp bs).halted

/-- The frames up to the first that closes the pipeline. -/
def up_to_close : List CompletedFrame → List CompletedFrame
  | [] => []
  | f :: fs => if closes f then [f] else f :: up_to_close fs

/-- Nothing in the bytes ends the connection. -/
def Open (fp : FrameParser z) (bs : List UInt8) : Prop :=
  halt_of fp bs = none ∧ (frames_of fp bs).any closes = false

/-- A division in which the piece that an error or a close code falls in completes no frame before
it, and the piece that completes a close frame completes none behind it. -/
structure Apart (fp : FrameParser z) (pieces : List (List UInt8)) : Prop where
  halt : ∀ before piece after, pieces = before ++ piece :: after → Open fp before.flatten →
    halt_of fp (before.flatten ++ piece) ≠ none →
    frames_of fp (before.flatten ++ piece) = frames_of fp before.flatten
  close : ∀ before piece after, pieces = before ++ piece :: after → Open fp before.flatten →
    halt_of fp (before.flatten ++ piece) = none →
    up_to_close (frames_of fp (before.flatten ++ piece)) = frames_of fp (before.flatten ++ piece)

theorem up_to_close_append {fs : List CompletedFrame} (h : fs.any closes = false)
    (gs : List CompletedFrame) : up_to_close (fs ++ gs) = fs ++ up_to_close gs := by
  induction fs with
  | nil => rfl
  | cons f fs ih =>
    simp only [List.any_cons, Bool.or_eq_false_iff] at h
    rw [List.cons_append, up_to_close, h.1, ih h.2]
    rfl

theorem up_to_close_append_closed {fs : List CompletedFrame} (h : fs.any closes = true)
    (gs : List CompletedFrame) : up_to_close (fs ++ gs) = up_to_close fs := by
  induction fs with
  | nil => cases h
  | cons f fs ih =>
    rw [List.cons_append, up_to_close, up_to_close]
    cases hf : closes f with
    | true => rfl
    | false =>
      rw [List.any_cons, hf, Bool.false_or] at h
      rw [ih h]

theorem up_to_close_eq_nil {fs : List CompletedFrame} : up_to_close fs = [] ↔ fs = [] := by
  cases fs with
  | nil => exact ⟨fun _ => rfl, fun _ => rfl⟩
  | cons f fs =>
    rw [up_to_close]
    split <;> simp

/-! ## The pieces one after another -/

/-- The parser behind the bytes. -/
def parser_after (fp : FrameParser z) (bs : List UInt8) : FrameParser z :=
  (drainAll manager_step pending fp bs).state

section

variable {fp : FrameParser z} (ht : Tidy fp)

include ht

theorem tidy_after {a : List UInt8} (ho : halt_of fp a = none) : Tidy (parser_after fp a) :=
  (drainAll_open resumable_manager_step ht a ho).2

theorem frames_of_append {a : List UInt8} (ho : halt_of fp a = none) (b : List UInt8) :
    frames_of fp (a ++ b) = frames_of fp a ++ frames_of (parser_after fp a) b ∧
      halt_of fp (a ++ b) = halt_of (parser_after fp a) b := by
  have h := drainAll_append resumable_manager_step ht a b ho
  unfold frames_of halt_of parser_after
  rw [h]
  exact ⟨List.flatten_append, rfl⟩

theorem frames_of_append_halted {a : List UInt8} (he : halt_of fp a ≠ none) (b : List UInt8) :
    frames_of fp (a ++ b) = frames_of fp a ∧ halt_of fp (a ++ b) ≠ none := by
  obtain ⟨e, he⟩ := Option.ne_none_iff_exists'.mp he
  have h := drainAll_append_halted resumable_manager_step ht a b he
  unfold frames_of halt_of
  rw [h]
  refine ⟨rfl, ?_⟩
  rw [show (Drained.pad _ b).halted = _ from he]
  simp

/-- A parser that waits comes to nothing without input. -/
theorem nothing_after {a : List UInt8} (ho : halt_of fp a = none) :
    Open (parser_after fp a) [] := by
  obtain ⟨hframes, hhalt⟩ := frames_of_append ht ho []
  rw [List.append_nil] at hframes hhalt
  refine ⟨hhalt.symm.trans ho, ?_⟩
  rw [List.self_eq_append_right.mp hframes]
  rfl

theorem open_append {a b : List UInt8} :
    Open fp (a ++ b) ↔ Open fp a ∧ Open (parser_after fp a) b := by
  by_cases ho : halt_of fp a = none
  · obtain ⟨hframes, hhalt⟩ := frames_of_append ht ho b
    unfold Open
    rw [hframes, hhalt, List.any_append, Bool.or_eq_false_iff]
    exact ⟨fun h => ⟨⟨ho, h.2.1⟩, h.1, h.2.2⟩, fun h => ⟨h.2.1, h.1.2, h.2.2⟩⟩
  · have hhalt := (frames_of_append_halted ht ho b).2
    exact ⟨fun h => absurd h.1 hhalt, fun h => absurd h.1.1 ho⟩

/-- The first piece, and the others behind it where it ends nothing. -/
theorem apart_cons (hn : Open fp []) (hnil : frames_of fp [] = []) (piece : List UInt8)
    (pieces : List (List UInt8)) :
    Apart fp (piece :: pieces) ↔
      (halt_of fp piece ≠ none → frames_of fp piece = []) ∧
      (halt_of fp piece = none → up_to_close (frames_of fp piece) = frames_of fp piece) ∧
      (Open fp piece → Apart (parser_after fp piece) pieces) := by
  constructor
  · intro h
    refine ⟨?_, ?_, ?_⟩
    · intro he
      rw [← hnil]
      exact h.halt [] piece pieces rfl hn he
    · intro ho
      exact h.close [] piece pieces rfl hn ho
    · intro ho
      have happ := fun b => frames_of_append ht ho.1 b
      constructor
      · intro before p after heq hopen he
        have h' := h.halt (piece :: before) p after (by rw [heq]; rfl)
          ((open_append ht).mpr ⟨ho, hopen⟩)
        simp only [List.flatten_cons, List.append_assoc, happ] at h'
        exact List.append_cancel_left (h' he)
      · intro before p after heq hopen he
        have h' := h.close (piece :: before) p after (by rw [heq]; rfl)
          ((open_append ht).mpr ⟨ho, hopen⟩)
        simp only [List.flatten_cons, List.append_assoc, happ, up_to_close_append ho.2] at h'
        exact List.append_cancel_left (h' he)
  · rintro ⟨hhalt, hclose, hrest⟩
    constructor
    · intro before p after heq hopen he
      rcases before with _ | ⟨q, before⟩
      · cases heq
        exact (hhalt he).trans hnil.symm
      · cases heq
        obtain ⟨ho, hopen'⟩ := (open_append ht).mp hopen
        have happ := fun b => frames_of_append ht ho.1 b
        simp only [List.flatten_cons, List.append_assoc, happ] at he ⊢
        rw [(hrest ho).halt before p after rfl hopen' he]
    · intro before p after heq hopen he
      rcases before with _ | ⟨q, before⟩
      · cases heq
        exact hclose he
      · cases heq
        obtain ⟨ho, hopen'⟩ := (open_append ht).mp hopen
        have happ := fun b => frames_of_append ht ho.1 b
        simp only [List.flatten_cons, List.append_assoc, happ, up_to_close_append ho.2] at he ⊢
        rw [(hrest ho).close before p after rfl hopen' he]

/-- A call of the manager with one piece. -/
theorem handled_piece (piece : List UInt8) :
    (halt_of fp piece = none → handled (manager_parse fp piece) = frames_of fp piece ∧
      called_again (manager_parse fp piece) = !(frames_of fp piece).any closes ∧
      (manager_parse fp piece).parser = parser_after fp piece ∧
      (manager_parse fp piece).input = []) ∧
    (halt_of fp piece ≠ none → handled (manager_parse fp piece) = [] ∧
      called_again (manager_parse fp piece) = false) := by
  rw [manager_parse_eq ht]
  unfold halt_of frames_of parser_after handled called_again
  constructor
  · intro ho
    obtain ⟨hr, -⟩ := drainAll_open resumable_manager_step ht piece ho
    simp only [ho, hr]
    exact ⟨trivial, trivial, trivial, trivial⟩
  · intro he
    obtain ⟨e, he⟩ := Option.ne_none_iff_exists'.mp he
    simp only [he]
    rcases e with e | code <;> exact ⟨rfl, rfl⟩

end

/-- The pieces behind a parser that waits. -/
theorem handled_frames_iff {fp : FrameParser z} (ht : Tidy fp) (hn : Open fp [])
    (hnil : frames_of fp [] = []) (pieces : List (List UInt8)) :
    handled_frames fp [] pieces = up_to_close (frames_of fp pieces.flatten) ↔ Apart fp pieces := by
  induction pieces generalizing fp with
  | nil =>
    rw [List.flatten_nil, hnil]
    refine ⟨fun _ => ⟨?_, ?_⟩, fun _ => rfl⟩ <;> intro before p after heq <;> simp at heq
  | cons piece pieces ih =>
    obtain ⟨hopen, hhalted⟩ := handled_piece ht piece
    rw [apart_cons ht hn hnil, handled_frames, List.flatten_cons]
    simp only [List.nil_append]
    by_cases ho : halt_of fp piece = none
    swap
    · -- The call gives none of its frames.
      obtain ⟨hnone, hagain⟩ := hhalted ho
      rw [hnone, hagain, (frames_of_append_halted ht ho _).1]
      simp only [Bool.false_eq_true, if_false, List.append_nil]
      rw [eq_comm, up_to_close_eq_nil]
      exact ⟨fun h => ⟨fun _ => h, fun h' => absurd h' ho, fun h' => absurd h'.1 ho⟩,
        fun h => h.1 ho⟩
    obtain ⟨hframes, hagain, hparser, hinput⟩ := hopen ho
    rw [hframes, hagain, hparser, hinput, (frames_of_append ht ho _).1]
    cases hc : (frames_of fp piece).any closes with
    | true =>
      -- A close frame: the others of the piece are handled, and nothing after it.
      rw [up_to_close_append_closed hc]
      simp only [Bool.not_true, Bool.false_eq_true, if_false, List.append_nil]
      refine ⟨fun h => ⟨fun h' => absurd ho h', fun _ => h.symm, fun h' => ?_⟩,
        fun h => (h.2.1 ho).symm⟩
      have hopen := h'.2
      rw [hc] at hopen
      cases hopen
    | false =>
      rw [up_to_close_append hc]
      simp only [Bool.not_false, if_true]
      have hnothing := nothing_after ht ho
      have hself := up_to_close_append hc []
      simp only [up_to_close, List.append_nil] at hself
      rw [List.append_cancel_left_eq, ih (tidy_after ht ho) hnothing ?_]
      · exact ⟨fun h => ⟨fun h' => absurd ho h', fun _ => hself, fun _ => h⟩,
          fun h => h.2.2 ⟨ho, hc⟩⟩
      · have happ := (frames_of_append ht ho []).1
        rw [List.append_nil] at happ
        exact List.self_eq_append_right.mp happ

/-! ## The law -/

/-- For a stream in any pieces, the frames that are handled are those completed before the error or
the close code, up to the first close frame, exactly when no frame is completed in the same piece
before the end or behind the close frame. -/
theorem the_frames_before_the_end_are_handled_iff_their_pieces_are_apart (destination : Endpoint)
    (exts : List (PermessageDeflate z)) (generator : Nat → UInt32) (pieces : List (List UInt8)) :
    handled_frames (FrameParser.new destination exts generator) [] pieces =
        up_to_close (frames_of (FrameParser.new destination exts generator) pieces.flatten) ↔
      Apart (FrameParser.new destination exts generator) pieces := by
  have hmore : (manager_step (FrameParser.new destination exts generator) []).outcome = .more := by
    have hparse := parse_nil (idle_new destination exts generator)
    simp only [manager_step, hparse]
  have hnil := drainAll_more (m := pending) hmore
  have hframes : frames_of (FrameParser.new destination exts generator) [] = [] := by
    rw [frames_of, hnil]
    rfl
  apply handled_frames_iff (tidy_new _ _ _) _ hframes
  refine ⟨?_, ?_⟩
  · rw [halt_of, hnil]
  · rw [hframes]
    rfl

/-- A ping is handled, or lost with the bad frame that came in its piece. -/
theorem the_frames_that_are_handled_depend_on_the_pieces :
    ¬ ∀ pieces pieces' : List (List UInt8), pieces.flatten = pieces'.flatten →
      handled_frames (FrameParser.new .client [] (fun _ => 0) : FrameParser .inert) [] pieces =
        handled_frames (FrameParser.new .client [] (fun _ => 0) : FrameParser .inert) []
          pieces' := by
  have hlost : handled_frames (FrameParser.new .client [] (fun _ => 0) : FrameParser .inert) []
      [[0x89, 0x00, 0x09, 0x00]] = [] := by decide
  have hkept : handled_frames (FrameParser.new .client [] (fun _ => 0) : FrameParser .inert) []
      [[0x89, 0x00], [0x09, 0x00]] = [.ping []] := by decide
  intro h
  have hsame := h [[0x89, 0x00, 0x09, 0x00]] [[0x89, 0x00], [0x09, 0x00]] rfl
  rw [hlost, hkept] at hsame
  cases hsame

end proxy.websocket
