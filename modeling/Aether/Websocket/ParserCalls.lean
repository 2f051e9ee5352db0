-- The calls of the parser and of the manager as bytes come in: both may be
-- given their stream in any pieces.
import Aether.Lib.Resumable
import Aether.Websocket.FrameParserCuts
import Aether.Websocket.WebsocketManager

namespace proxy.websocket.protocol

open extensions lib.resumable

variable {z : Zlib} {β : Type}

/-! ## Calls that read frames -/

/-- What ends the calls for good: an error, or a close code. -/
abbrev Halt := Error ⊕ CloseCode

/-- A call of `parse`, and what is made of the frame that it returns. -/
def frame_step (read : Frame → Except Error β) (fp : FrameParser z) (inp : List UInt8) :
    Call (FrameParser z) UInt8 Halt β :=
  let call := parse fp inp
  { state := call.parser
    rest := call.input
    outcome :=
      match call.parsed with
      | .error e => .halt (.inl e)
      | .close code => .halt (.inr code)
      | .more => .more
      | .frame frame =>
        match read frame with
        | .error e => .halt (.inl e)
        | .ok b => .item b }

/-- The frames that may come without a byte of input. -/
def pending (fp : FrameParser z) : Nat := if fp.state_ = .header then 0 else 1

theorem frame_step_more {read : Frame → Except Error β} {fp : FrameParser z} {a : List UInt8}
    (h : (frame_step read fp a).outcome = .more) : (parse fp a).parsed = .more := by
  unfold frame_step at h
  simp only at h
  split at h
  · cases h
  · cases h
  · assumption
  · split at h <;> cases h

theorem frame_step_item {read : Frame → Except Error β} {fp : FrameParser z} {a : List UInt8}
    {b : β} (h : (frame_step read fp a).outcome = .item b) :
    ∃ f, (parse fp a).parsed = .frame f ∧ read f = .ok b := by
  unfold frame_step at h
  simp only at h
  split at h
  · cases h
  · cases h
  · cases h
  · rename_i f hf
    refine ⟨f, hf, ?_⟩
    split at h
    · cases h
    · rename_i hc
      cases h
      exact hc

/-- The calls may be given their stream in any pieces. -/
theorem resumable_frame_step (read : Frame → Except Error β) :
    Resumable (frame_step (z := z) read) Tidy pending where
  keeps_more {fp a} ht h := by
    have hs := parse_stop ht a
    have hm := frame_step_more h
    rcases hc : parse fp a with ⟨fp', r, p⟩
    rw [hc] at hs hm
    simp only at hm
    subst hm
    simp only [frame_step, hc]
    exact ((cut_stages ht).more hs).1
  keeps_item {fp a b} ht h := by
    have hs := parse_stop ht a
    obtain ⟨f, hf, -⟩ := frame_step_item h
    rcases hc : parse fp a with ⟨fp', r, p⟩
    rw [hc] at hs hf
    simp only at hf
    subst hf
    simp only [frame_step, hc]
    exact (stages_frame ht hs).1
  takes {fp a b} ht h := by
    have hs := parse_stop ht a
    obtain ⟨f, hf, -⟩ := frame_step_item h
    rcases hc : parse fp a with ⟨fp', r, p⟩
    rw [hc] at hs hf
    simp only at hf
    subst hf
    obtain ⟨-, hst, hle, hlt⟩ := stages_frame ht hs
    simp only [frame_step, hc, pending, hst, if_true]
    split
    · rename_i he
      exact Nat.lt_of_lt_of_le (hlt he) (Nat.le_refl _)
    · omega
  all_taken {fp a} ht h := by
    have hs := parse_stop ht a
    have hm := frame_step_more h
    rcases hc : parse fp a with ⟨fp', r, p⟩
    rw [hc] at hs hm
    simp only at hm
    subst hm
    simp only [frame_step, hc]
    exact ((cut_stages ht).more hs).2.1
  resumed {fp a} ht h b := by
    have hs := parse_stop ht a
    have hm := frame_step_more h
    rcases hc : parse fp a with ⟨fp', r, p⟩
    rw [hc] at hs hm
    simp only at hm
    subst hm
    have hb := ((cut_stages ht).more hs).2.2 b
    have hstate : (frame_step read fp a).state = fp' := by simp only [frame_step, hc]
    rw [hstate, frame_step, frame_step, parse_eq, hb, ← parse_eq]
  left {fp a} ht h b := by
    have hs := parse_stop ht a
    rcases hc : parse fp a with ⟨fp', r, p⟩
    rw [hc] at hs
    have hp : p ≠ .more := by
      rintro rfl
      exact h (by simp only [frame_step, hc])
    have hb := ((cut_stages ht).stop hs hp).2 b
    have hparse : parse fp (a ++ b) = ⟨fp', r ++ b, p⟩ := by rw [parse_eq, hb]; rfl
    simp only [frame_step, hparse, hc, Call.pad]

/-- One call of `parse`, with the frame as it is returned. -/
def parse_step : FrameParser z → List UInt8 → Call (FrameParser z) UInt8 Halt Frame :=
  frame_step .ok

theorem resumable_parse_step : Resumable (parse_step (z := z)) Tidy pending :=
  resumable_frame_step _

/-! ## The manager's loop -/

/-- One turn of the manager's loop. -/
def manager_step (fp : FrameParser z) (inp : List UInt8) :
    Call (FrameParser z) UInt8 Halt (List CompletedFrame) :=
  let call := parse fp inp
  { state := call.parser
    rest := call.input
    outcome :=
      match call.parsed with
      | .error e => .halt (.inl e)
      | .close code => .halt (.inr code)
      | .more => .more
      | .frame frame =>
        match complete frame with
        | .error e => .halt (.inl e)
        | .ok frames => .item frames }

theorem manager_step_eq : manager_step (z := z) = frame_step complete := by
  funext fp inp
  simp only [manager_step, frame_step]
  cases (parse fp inp).parsed with
  | error e => rfl
  | close code => rfl
  | more => rfl
  | frame f =>
    simp only
    cases complete f <;> rfl

theorem manager_step_item {fp : FrameParser z} {a : List UInt8} {frames : List CompletedFrame}
    (h : (manager_step fp a).outcome = .item frames) :
    ∃ f, (parse fp a).parsed = .frame f ∧ complete f = .ok frames := by
  rw [manager_step_eq] at h
  exact frame_step_item h

/-- The manager may be given its stream in any pieces. -/
theorem resumable_manager_step : Resumable (manager_step (z := z)) Tidy pending := by
  rw [manager_step_eq]
  exact resumable_frame_step complete

/-- The loop of the manager is the drain of its turns. -/
theorem parse_loop_eq (fuel : Nat) (fp : FrameParser z) (inp : List UInt8)
    (result : List CompletedFrame) :
    parse_loop fuel fp inp result =
      let d := drain manager_step fuel fp inp
      ⟨d.state, d.rest,
        (match d.halted with | some (.inr code) => some code | _ => none),
        (match d.halted with
          | some (.inl e) => .error e
          | _ => .ok (result ++ d.items.flatten))⟩ := by
  induction fuel generalizing fp inp result with
  | zero => simp [parse_loop, drain]
  | succ fuel ih =>
    rw [parse_loop, drain]
    simp only [manager_step]
    cases hp : (parse fp inp).parsed with
    | error e => rfl
    | close code => simp
    | more => simp
    | frame f =>
      cases hc : complete f with
      | error e => simp only [hc]
      | ok frames =>
        simp only [hc, ih, Drained.after, List.flatten_cons, List.cons_append, List.nil_append,
          List.append_assoc]

theorem pending_le (fp : FrameParser z) : pending fp ≤ 1 := by
  unfold pending; split <;> omega

/-- `manager_parse` runs until the parser stops: its fuel is always enough. -/
theorem manager_parse_eq {fp : FrameParser z} (ht : Tidy fp) (inp : List UInt8) :
    manager_parse fp inp =
      let d := drainAll manager_step pending fp inp
      ⟨d.state, d.rest,
        (match d.halted with | some (.inr code) => some code | _ => none),
        (match d.halted with | some (.inl e) => .error e | _ => .ok d.items.flatten)⟩ := by
  have hle := pending_le fp
  rw [manager_parse, parse_loop_eq, drain_enough resumable_manager_step ht (by omega)]
  rfl

/-! ## The calls of the manager as bytes come in -/

/-- What a sequence of calls leaves: the parser, the input buffer, the frames of all the calls, and
the error or the close code that ended them. -/
structure ManagerRun (z : Zlib) where
  parser : FrameParser z
  input : List UInt8
  frames : List CompletedFrame
  ended : Option Halt

/-- One call of `manager_parse` for each piece of the stream, appended to what is left of the input.
A call that fails gives no frames, and ends the connection. -/
def parse_calls (fp : FrameParser z) (inp : List UInt8) : List (List UInt8) → ManagerRun z
  | [] => ⟨fp, inp, [], none⟩
  | piece :: pieces =>
    let call := manager_parse fp (inp ++ piece)
    match call.frames, call.should_close with
    | .error e, _ => ⟨call.parser, call.input, [], some (.inl e)⟩
    | .ok frames, some code => ⟨call.parser, call.input, frames, some (.inr code)⟩
    | .ok frames, none =>
      let run := parse_calls call.parser call.input pieces
      { run with frames := frames ++ run.frames }

/-- The calls end as the drain of the whole stream does, and where they do not end, they give its
frames. -/
theorem parse_calls_eq {fp : FrameParser z} (ht : Tidy fp) {pieces : List (List UInt8)}
    (hne : pieces ≠ []) :
    (parse_calls fp [] pieces).ended = (drainAll manager_step pending fp pieces.flatten).halted ∧
      ((drainAll manager_step pending fp pieces.flatten).halted = none →
        (parse_calls fp [] pieces).frames =
          (drainAll manager_step pending fp pieces.flatten).items.flatten) := by
  obtain ⟨b, hb⟩ := feed_eq_drainAll resumable_manager_step ht hne
  rw [hb]
  simp only [Drained.pad]
  clear hb hne
  induction pieces generalizing fp with
  | nil => exact ⟨rfl, fun _ => rfl⟩
  | cons piece pieces ih =>
    simp only [parse_calls, feed, List.nil_append, manager_parse_eq ht]
    cases hh : (drainAll manager_step pending fp piece).halted with
    | some e => cases e <;> simp [hh]
    | none =>
      obtain ⟨hr, ht'⟩ := drainAll_open resumable_manager_step ht piece hh
      obtain ⟨h1, h2⟩ := ih ht'
      simp only [hr, Drained.after, List.flatten_append]
      exact ⟨h1, fun h => by rw [h2 h]⟩

end proxy.websocket.protocol
