-- The fragments of a data message through the parser: every one comes out of
-- the manager with the type of its message, but for the last.
import Aether.Websocket.FrameReading
import Aether.Websocket.ParserCalls

open lib.rfc6455 (DataType)

namespace proxy.websocket.protocol

open lib.resumable extensions

variable {z : Zlib}

/-! ## A message in fragments -/

/-- A data frame as a server sends it, with no extension. -/
def dataFrame (opcode : Fin 16) (fin : Bool) (payload : List UInt8) : lib.rfc6455.Frame :=
  ⟨fin, false, false, false, opcode, none, payload⟩

/-- The first frame with the opcode, the rest continuations, and FIN on the last. -/
def fragmentsFrom (opcode : Fin 16) : List (List UInt8) → List lib.rfc6455.Frame
  | [] => []
  | [p] => [dataFrame opcode true p]
  | p :: q :: ps => dataFrame opcode false p :: fragmentsFrom 0 (q :: ps)

def fragments (type : DataType) (payloads : List (List UInt8)) : List lib.rfc6455.Frame :=
  fragmentsFrom type.opcode payloads

/-- The opcode of the proxy for a type of message. -/
def typeOpcode : DataType → Opcode
  | .text => .text
  | .binary => .binary

/-- The frames of the interface for the fragments: each with the type of the message, and the last
one finished. -/
def messageFrames (type : Opcode) : List (List UInt8) → List CompletedFrame
  | [] => []
  | [p] => [.message ⟨type, true, p⟩]
  | p :: q :: ps => .message ⟨type, false, p⟩ :: messageFrames type (q :: ps)

open lib.rfc6455 in
theorem receiveAll_fragmentsFrom_zero (type : DataType) (before : List UInt8)
    (whole : List lib.rfc6455.Message) {payloads : List (List UInt8)} (h : payloads ≠ []) :
    Receiver.receiveAll ⟨some ⟨type, before⟩, whole⟩ (fragmentsFrom 0 payloads) =
      some ⟨none, whole ++ [⟨type, before ++ payloads.flatten⟩]⟩ := by
  induction payloads generalizing before with
  | nil => exact absurd rfl h
  | cons p ps ih =>
    cases ps with
    | nil =>
      simp [fragmentsFrom, dataFrame, Receiver.receiveAll, Receiver.receive, Frame.isControl,
        Receiver.extend]
    | cons q ps =>
      have hstep : Receiver.receive ⟨some ⟨type, before⟩, whole⟩ (dataFrame 0 false p) =
          some ⟨some ⟨type, before ++ p⟩, whole⟩ := rfl
      rw [fragmentsFrom, Receiver.receiveAll, hstep, Option.bind_some, ih (before ++ p) (by simp)]
      simp

open lib.rfc6455 in
/-- The fragments are legal: a receiver makes of them the message, and nothing else. -/
theorem fragments_make_the_message (type : DataType) {payloads : List (List UInt8)}
    (h : payloads ≠ []) :
    Receiver.receiveAll .start (fragments type payloads) =
      some ⟨none, [⟨type, payloads.flatten⟩]⟩ := by
  match payloads, h with
  | [p], _ =>
    cases type <;> simp [fragments, fragmentsFrom, dataFrame, Receiver.receiveAll, Receiver.receive,
      Frame.isControl, Receiver.extend, Receiver.start, DataType.opcode]
  | p :: q :: ps, _ =>
    have hstep : Receiver.receive .start (dataFrame type.opcode false p) =
        some ⟨some ⟨type, p⟩, []⟩ := by cases type <;> rfl
    have hne : q :: ps ≠ [] := by simp
    rw [fragments, fragmentsFrom, Receiver.receiveAll, hstep, Option.bind_some,
      receiveAll_fragmentsFrom_zero type p [] hne]
    simp

/-! ## One fragment -/

/-- A parser between two messages of a server. -/
structure Between (fp : FrameParser z) : Prop extends Plain fp where
  expected : fp.effective_opcode_in_ = none

/-- A parser inside a message of a server. -/
structure Inside (type : DataType) (fp : FrameParser z) : Prop extends Plain fp where
  expected : fp.effective_opcode_in_ = some (typeOpcode type)

theorem between_new (generator : Nat → UInt32) :
    Between (FrameParser.new .client [] generator : FrameParser z) := ⟨plain_new _, rfl⟩

theorem cast_opcode (type : DataType) : Opcode.cast type.opcode = typeOpcode type := by
  cases type <;> rfl

@[simp] theorem is_control_typeOpcode (type : DataType) : is_control (typeOpcode type) = false := by
  cases type <;> decide

@[simp] theorem is_control_continuation : is_control .continuation = false := by decide

theorem Between.takes {fp : FrameParser z} (h : Between fp) (type : DataType) (fin : Bool)
    (p : List UInt8) : Takes fp (dataFrame type.opcode fin p) where
  control hc := by cases type <;> cases hc
  expected he := by rw [h.expected] at he; cases he

theorem takes_continuation (fp : FrameParser z) (fin : Bool)
    (p : List UInt8) : Takes fp (dataFrame 0 fin p) where
  control hc := by cases hc
  expected _ := rfl

theorem Between.first {fp : FrameParser z} (h : Between fp) (type : DataType) (fin : Bool)
    (p : List UInt8) : effectiveOpcode fp (dataFrame type.opcode fin p) =
      (typeOpcode type, if fin then none else some (typeOpcode type)) := by
  simp only [effectiveOpcode, effective_opcode, h.expected, dataFrame, cast_opcode,
    is_control_typeOpcode]
  cases fin <;> rfl

theorem Inside.next {fp : FrameParser z} {type : DataType} (h : Inside type fp) (fin : Bool)
    (p : List UInt8) : effectiveOpcode fp (dataFrame 0 fin p) =
      if fin then (.continuation, none) else (typeOpcode type, some (typeOpcode type)) := by
  have hcast : Opcode.cast (0 : Fin 16) = .continuation := rfl
  simp only [effectiveOpcode, effective_opcode, h.expected, dataFrame, hcast,
    is_control_continuation]
  cases fin <;> rfl

/-- What the manager makes of a frame that the parser takes. -/
def frameItems (fp : FrameParser z) (f : lib.rfc6455.Frame) (content : List UInt8) :
    List CompletedFrame :=
  match (effectiveOpcode fp f).1 with
  | .text => [.message ⟨.text, f.fin, content⟩]
  | .binary => [.message ⟨.binary, f.fin, content⟩]
  | _ => []

theorem frameItems_type {fp : FrameParser z} {f : lib.rfc6455.Frame} {type : DataType}
    (h : (effectiveOpcode fp f).1 = typeOpcode type) (content : List UInt8) :
    frameItems fp f content = [.message ⟨typeOpcode type, f.fin, content⟩] := by
  unfold frameItems
  rw [h]
  cases type <;> rfl

theorem complete_returned {fp : FrameParser z} {f : lib.rfc6455.Frame} {n : Nat}
    {content : List UInt8} (h : is_control (effectiveOpcode fp f).1 = false) :
    complete (returned fp f n content) = .ok (frameItems fp f content) := by
  unfold complete frameItems returned
  simp only [readFrame]
  cases ho : (effectiveOpcode fp f).1
  all_goals first
    | rfl
    | (rw [ho] at h; cases h)

/-- A data frame that the parser takes, with a payload below 2^31. -/
theorem drainAll_frame {fp : FrameParser z} {f : lib.rfc6455.Frame} (hp : Plain fp)
    (ht : Takes fp f) (hm : f.maskKey = none) (hn : f.payload.length < 2 ^ 31)
    (hc : is_control (effectiveOpcode fp f).1 = false) (rest : List UInt8) :
    drainAll manager_step pending fp (lib.rfc6455.encode f ++ rest) =
      (drainAll manager_step pending (afterFrame fp f f.payload.length) rest).after
        [frameItems fp f f.payload] := by
  have hparse := parse_encode hp ht hm hn rest
  have hout : (manager_step fp (lib.rfc6455.encode f ++ rest)).outcome =
      .item (frameItems fp f f.payload) := by
    simp only [manager_step, hparse, complete_returned hc]
  rw [drainAll_item resumable_manager_step hp.tidy hout]
  simp only [manager_step, hparse]

/-- The same with a longer payload: the calls halt, or the frame comes out shorter. -/
theorem drainAll_frame_large {fp : FrameParser z} {f : lib.rfc6455.Frame} (hp : Plain fp)
    (ht : Takes fp f) (hm : f.maskKey = none) (hn : 2 ^ 31 ≤ f.payload.length)
    (h63 : f.payload.length < 2 ^ 63) (hc : is_control (effectiveOpcode fp f).1 = false)
    (rest : List UInt8) :
    (drainAll manager_step pending fp (lib.rfc6455.encode f ++ rest)).halted ≠ none ∨
    ∃ n, 0 < n ∧ n < f.payload.length ∧
      drainAll manager_step pending fp (lib.rfc6455.encode f ++ rest) =
        (drainAll manager_step pending (afterFrame fp f n) (f.payload.drop n ++ rest)).after
          [frameItems fp f (f.payload.take n)] := by
  rcases parse_encode_large hp ht hm hn h63 rest with ⟨e, he⟩ | ⟨n, h0, hlt, hparse⟩
  · left
    have hout : (manager_step fp (lib.rfc6455.encode f ++ rest)).outcome = .halt (.inl e) := by
      simp only [manager_step, he]
    rw [drainAll_halt hout]
    simp
  · right
    refine ⟨n, h0, hlt, ?_⟩
    have hout : (manager_step fp (lib.rfc6455.encode f ++ rest)).outcome =
        .item (frameItems fp f (f.payload.take n)) := by
      simp only [manager_step, hparse, complete_returned hc]
    rw [drainAll_item resumable_manager_step hp.tidy hout]
    simp only [manager_step, hparse]

theorem drainAll_nil {fp : FrameParser z} (hp : Plain fp) :
    drainAll manager_step pending fp [] = ⟨fp, [], [], none⟩ := by
  have hparse := parse_nil hp.toIdle
  have hout : (manager_step fp []).outcome = .more := by simp only [manager_step, hparse]
  rw [drainAll_more hout]
  simp only [manager_step, hparse]

theorem message_of_complete {f : Frame} {frames : List CompletedFrame} {m : MessageFrame}
    (h : complete f = .ok frames) (hm : .message m ∈ frames) : m.payload = f.content := by
  unfold complete at h
  split at h
  · cases h; simp at hm
  · cases h; simp at hm
  · rcases hc : process_close_frame f.content with e | c
    · rw [hc] at h; cases h
    · rw [hc] at h; cases h; simp at hm
  · cases h
    simp only [List.mem_singleton, CompletedFrame.message.injEq] at hm
    rw [hm]
  · cases h
    simp only [List.mem_singleton, CompletedFrame.message.injEq] at hm
    rw [hm]
  · cases h; simp at hm

/-- No message frame is longer than the input. -/
theorem message_length_le {fp : FrameParser z} (hp : Plain fp) (a : List UInt8) (m : MessageFrame)
    (hm : .message m ∈ (drainAll manager_step pending fp a).items.flatten) :
    m.payload.length ≤ a.length := by
  revert hp hm
  refine fun hp => drain_induction (P := fun fp a => Plain fp →
    .message m ∈ (drainAll manager_step pending fp a).items.flatten → m.payload.length ≤ a.length)
    resumable_manager_step ?_ ?_ ?_ hp.tidy a hp
  · intro fp a _ hc _ hm
    rw [drainAll_more hc] at hm
    simp at hm
  · intro fp a e _ hc _ hm
    rw [drainAll_halt hc] at hm
    simp at hm
  · intro fp a frames ht hc ih hp hm
    obtain ⟨f, hf, hcomplete⟩ := manager_step_item hc
    rcases hparse : parse fp a with ⟨fp', r, p⟩
    rw [hparse] at hf
    simp only at hf
    subst hf
    obtain ⟨hp', hlen, hr⟩ := parse_plain hp hparse
    rw [drainAll_item resumable_manager_step ht hc] at hm
    simp only [manager_step, hparse] at ih hm
    simp only [Drained.after, List.flatten_append, List.mem_append, List.flatten_cons,
      List.flatten_nil, List.append_nil] at hm
    rcases hm with hm | hm
    · rw [message_of_complete hcomplete hm]
      exact hlen
    · exact Nat.le_trans (ih hp' hm) hr

/-! ## Whole messages -/

theorem messageFrames_cons (type : Opcode) (p : List UInt8) {ps : List (List UInt8)} (h : ps ≠ []) :
    messageFrames type (p :: ps) = .message ⟨type, false, p⟩ :: messageFrames type ps := by
  match ps, h with
  | q :: ps, _ => rfl

theorem fragmentsFrom_cons (opcode : Fin 16) (p : List UInt8) {ps : List (List UInt8)}
    (h : ps ≠ []) :
    fragmentsFrom opcode (p :: ps) = dataFrame opcode false p :: fragmentsFrom 0 ps := by
  match ps, h with
  | q :: ps, _ => rfl

theorem after_frames {d : Drained (FrameParser z) UInt8 Halt (List CompletedFrame)}
    (frames : List CompletedFrame) :
    (d.after [frames]).items.flatten = frames ++ d.items.flatten := by
  simp [Drained.after]

/-- What the manager must give for the rest of a message. -/
def Comes (fp : FrameParser z) (bytes : List UInt8) (frames : List CompletedFrame) : Prop :=
  (drainAll manager_step pending fp bytes).halted = none ∧
    (drainAll manager_step pending fp bytes).items.flatten = frames

/-- A frame of a message that comes out with less than its payload is not the frame. -/
theorem not_comes_shorter {fp : FrameParser z} {bytes : List UInt8} {type type' : Opcode}
    {fin fin' : Bool} {p q : List UInt8} {frames frames' : List CompletedFrame}
    (hlen : q.length ≠ p.length)
    (hd : (drainAll manager_step pending fp bytes).items.flatten =
      .message ⟨type', fin', q⟩ :: frames') :
    ¬ Comes fp bytes (.message ⟨type, fin, p⟩ :: frames) := by
  rintro ⟨-, hc⟩
  rw [hd] at hc
  simp only [List.cons.injEq, CompletedFrame.message.injEq, MessageFrame.mk.injEq] at hc
  exact hlen (by rw [hc.1.2.2])

/-- The last fragment of a message in progress never comes out. -/
theorem last_fragment_is_lost {fp : FrameParser z} {type : DataType} (hi : Inside type fp)
    {p : List UInt8} (h63 : p.length < 2 ^ 63) :
    ¬ Comes fp (lib.rfc6455.encode (dataFrame 0 true p)) [.message ⟨typeOpcode type, true, p⟩] := by
  have ht := takes_continuation fp true p
  have hnext := hi.next true p
  have hc : is_control (effectiveOpcode fp (dataFrame 0 true p)).1 = false := by
    rw [hnext]; exact is_control_continuation
  have hitems : ∀ q, frameItems fp (dataFrame 0 true p) q = [] := by
    intro q; simp only [frameItems, hnext, if_true]
  rintro ⟨hh, hitem⟩
  rw [← List.append_nil (lib.rfc6455.encode _)] at hh hitem
  by_cases hn : p.length < 2 ^ 31
  · rw [drainAll_frame hi.toPlain ht rfl hn hc, after_frames, hitems] at hitem
    -- Nothing is left, so nothing comes.
    have hm : CompletedFrame.message ⟨typeOpcode type, true, p⟩ ∈
        (drainAll manager_step pending (afterFrame fp (dataFrame 0 true p) p.length)
          []).items.flatten := by
      rw [List.nil_append] at hitem
      exact hitem ▸ List.mem_singleton_self _
    rw [drainAll_nil (plain_afterFrame hi.toPlain _ _)] at hm
    simp at hm
  · rcases drainAll_frame_large hi.toPlain ht rfl (by simpa [dataFrame] using hn) h63 hc [] with
      h | ⟨n, h0, hlt, hd⟩
    · exact h hh
    · rw [hd, after_frames, hitems, List.nil_append] at hitem
      have hm : CompletedFrame.message ⟨typeOpcode type, true, p⟩ ∈
          (drainAll manager_step pending (afterFrame fp (dataFrame 0 true p) n)
            (p.drop n ++ [])).items.flatten := hitem ▸ List.mem_singleton_self _
      have hle := message_length_le (plain_afterFrame hi.toPlain _ n) _ _ hm
      simp only [List.append_nil, List.length_drop] at hle
      simp only [dataFrame] at hlt
      omega

/-- The rest of a message in progress never comes out whole, whatever its fragments are. -/
theorem rest_of_a_message_is_lost {type : DataType} {payloads : List (List UInt8)}
    (hne : payloads ≠ []) (h63 : ∀ p ∈ payloads, p.length < 2 ^ 63) {fp : FrameParser z}
    (hi : Inside type fp) :
    ¬ Comes fp (lib.rfc6455.encodeAll (fragmentsFrom 0 payloads))
      (messageFrames (typeOpcode type) payloads) := by
  induction payloads generalizing fp with
  | nil => exact absurd rfl hne
  | cons p ps ih =>
    have hp63 := h63 p (by simp)
    by_cases hps : ps = []
    · subst hps
      simp only [fragmentsFrom, messageFrames, lib.rfc6455.encodeAll, List.flatMap_cons,
        List.flatMap_nil, List.append_nil]
      exact last_fragment_is_lost hi hp63
    · have ht := takes_continuation fp false p
      have hnext := hi.next false p
      have hc : is_control (effectiveOpcode fp (dataFrame 0 false p)).1 = false := by
        rw [hnext]; exact is_control_typeOpcode type
      have hitems : ∀ q, frameItems fp (dataFrame 0 false p) q =
          [.message ⟨typeOpcode type, false, q⟩] := frameItems_type (by rw [hnext]; rfl)
      have hinside : ∀ n, Inside type (afterFrame fp (dataFrame 0 false p) n) := fun n =>
        ⟨plain_afterFrame hi.toPlain _ n, by simp [hnext]⟩
      rw [fragmentsFrom_cons 0 p hps, messageFrames_cons _ p hps, lib.rfc6455.encodeAll,
        List.flatMap_cons]
      by_cases hn : p.length < 2 ^ 31
      · rintro ⟨hh, hitem⟩
        rw [drainAll_frame hi.toPlain ht rfl hn hc] at hh hitem
        rw [after_frames, hitems] at hitem
        exact ih hps (fun q hq => h63 q (by simp [hq])) (hinside _)
          ⟨hh, List.tail_eq_of_cons_eq hitem⟩
      · rcases drainAll_frame_large hi.toPlain ht rfl (by simpa [dataFrame] using hn) hp63 hc _ with
          h | ⟨n, h0, hlt, hd⟩
        · exact fun hcomes => h hcomes.1
        · refine not_comes_shorter ?_ (by rw [hd, after_frames, hitems]; rfl)
          simp only [dataFrame] at hlt ⊢
          rw [List.length_take]
          omega

/-- A message that starts between two messages comes out whole exactly when it is one frame with a
payload below 2^31. -/
theorem comes_iff {type : DataType} {payloads : List (List UInt8)} (hne : payloads ≠ [])
    (h63 : ∀ p ∈ payloads, p.length < 2 ^ 63) {fp : FrameParser z} (hb : Between fp) :
    Comes fp (lib.rfc6455.encodeAll (fragments type payloads))
        (messageFrames (typeOpcode type) payloads) ↔
      ∃ p, payloads = [p] ∧ p.length < 2 ^ 31 := by
  match payloads, hne with
  | p :: ps, _ =>
    have hp63 := h63 p (by simp)
    have hfirst := fun fin => hb.first type fin p
    have hc : ∀ fin, is_control (effectiveOpcode fp (dataFrame type.opcode fin p)).1 = false := by
      intro fin; rw [hfirst]; exact is_control_typeOpcode type
    have hitems : ∀ fin q, frameItems fp (dataFrame type.opcode fin p) q =
        [.message ⟨typeOpcode type, fin, q⟩] := fun fin => frameItems_type (by rw [hfirst])
    -- A payload from 2^31 on spoils the first frame, whatever follows.
    have hlarge : ∀ fin rest frames, 2 ^ 31 ≤ p.length → ¬ Comes fp
        (lib.rfc6455.encode (dataFrame type.opcode fin p) ++ rest)
        (.message ⟨typeOpcode type, fin, p⟩ :: frames) := by
      intro fin rest frames hn
      rcases drainAll_frame_large hb.toPlain (hb.takes type fin p) rfl hn hp63 (hc fin) rest with
        h | ⟨n, h0, hlt, hd⟩
      · exact fun hcomes => h hcomes.1
      · refine not_comes_shorter ?_ (by rw [hd, after_frames, hitems]; rfl)
        simp only [dataFrame] at hlt ⊢
        rw [List.length_take]
        omega
    by_cases hps : ps = []
    · subst hps
      simp only [fragments, fragmentsFrom, messageFrames, lib.rfc6455.encodeAll, List.flatMap_cons,
        List.flatMap_nil]
      by_cases hn : p.length < 2 ^ 31
      · have hd := drainAll_frame hb.toPlain (hb.takes type true p) rfl hn (hc true) []
        rw [drainAll_nil (plain_afterFrame hb.toPlain _ _), hitems] at hd
        constructor
        · intro _
          exact ⟨p, rfl, hn⟩
        · intro _
          rw [Comes, hd]
          exact ⟨rfl, rfl⟩
      · constructor
        · intro h
          exact absurd h (hlarge true [] [] (by omega))
        · rintro ⟨q, hq, hlt⟩
          cases hq
          exact absurd hlt hn
    · have hfrags : fragments type (p :: ps) =
          dataFrame type.opcode false p :: fragmentsFrom 0 ps :=
        fragmentsFrom_cons _ p hps
      rw [hfrags, messageFrames_cons _ p hps, lib.rfc6455.encodeAll, List.flatMap_cons]
      constructor
      · intro h
        by_cases hn : p.length < 2 ^ 31
        · obtain ⟨hh, hitem⟩ := h
          rw [drainAll_frame hb.toPlain (hb.takes type false p) rfl hn (hc false)] at hh hitem
          rw [after_frames, hitems] at hitem
          have hinside : Inside type (afterFrame fp (dataFrame type.opcode false p) p.length) :=
            ⟨plain_afterFrame hb.toPlain _ _, by simp [hfirst]⟩
          exact absurd ⟨hh, List.tail_eq_of_cons_eq hitem⟩
            (rest_of_a_message_is_lost hps (fun q hq => h63 q (by simp [hq])) hinside)
        · exact absurd h (hlarge false _ _ (by omega))
      · rintro ⟨q, hq, -⟩
        simp only [List.cons.injEq] at hq
        exact absurd hq.2 hps

/-! ## The law -/

/-- The frames of a message, in whatever pieces their bytes come in, come out of the manager one for
one with the message's type, exactly when there is one frame, with a payload below 2^31. -/
theorem a_fragmented_message_comes_out_iff_it_is_one_short_frame {fp : FrameParser z}
    (hb : Between fp) (type : DataType) {payloads : List (List UInt8)} (hne : payloads ≠ [])
    (h63 : ∀ p ∈ payloads, p.length < 2 ^ 63) {pieces : List (List UInt8)}
    (hpieces : pieces.flatten = lib.rfc6455.encodeAll (fragments type payloads)) :
    ((parse_calls fp [] pieces).ended = none ∧
        (parse_calls fp [] pieces).frames = messageFrames (typeOpcode type) payloads) ↔
      ∃ p, payloads = [p] ∧ p.length < 2 ^ 31 := by
  have hnonempty : pieces ≠ [] := by
    rintro rfl
    match payloads, hne with
    | [p], _ => cases hpieces
    | p :: q :: ps, _ => cases hpieces
  obtain ⟨hended, hframes⟩ := parse_calls_eq hb.tidy hnonempty
  rw [← comes_iff hne h63 hb, ← hpieces, Comes, hended]
  constructor
  · rintro ⟨h1, h2⟩
    exact ⟨h1, by rw [← hframes h1]; exact h2⟩
  · rintro ⟨h1, h2⟩
    exact ⟨h1, by rw [hframes h1]; exact h2⟩

/-- A message of one frame, whose bytes come in two pieces. -/
theorem a_message_of_one_frame_comes_out :
    ((parse_calls (FrameParser.new .client [] (fun _ => 0) : FrameParser .inert) []
          [[0x81, 0x02, 0x48], [0x69]]).ended = none ∧
        (parse_calls (FrameParser.new .client [] (fun _ => 0) : FrameParser .inert) []
          [[0x81, 0x02, 0x48], [0x69]]).frames = messageFrames .text [[0x48, 0x69]]) ↔
      ∃ p : List UInt8, [[0x48, 0x69]] = [p] ∧ p.length < 2 ^ 31 :=
  have hne : ([[0x48, 0x69]] : List (List UInt8)) ≠ [] := by simp
  a_fragmented_message_comes_out_iff_it_is_one_short_frame (between_new _) .text hne (by simp)
    (by decide)

/-- The text in two fragments of one byte: the second never comes out. -/
theorem a_message_of_two_frames_does_not_come_out :
    [[0x01, 0x01, 0x48, 0x80, 0x01, 0x69]].flatten =
        lib.rfc6455.encodeAll (fragments .text [[0x48], [0x69]]) ∧
      (parse_calls (FrameParser.new .client [] (fun _ => 0) : FrameParser .inert) []
          [[0x01, 0x01, 0x48, 0x80, 0x01, 0x69]]).frames = [.message ⟨.text, false, [0x48]⟩] ∧
      (parse_calls (FrameParser.new .client [] (fun _ => 0) : FrameParser .inert) []
          [[0x01, 0x01, 0x48, 0x80, 0x01, 0x69]]).frames ≠
        messageFrames .text [[0x48], [0x69]] := by
  decide

end proxy.websocket.protocol
