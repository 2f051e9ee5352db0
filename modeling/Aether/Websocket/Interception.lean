-- Interception that is switched on and off while messages go through: what is
-- sent then is what was received, exactly when no message is cut by a switch.
import Aether.Websocket.Sending
import Mathlib.Algebra.Order.BigOperators.Group.List

open lib.rfc6455 (DataType Receiver Piece)

namespace proxy.websocket

open protocol extensions

variable {z : Zlib}

/-! ## A connection as a relay of pieces -/

/-- The frame of the interface for a piece. -/
def pieceFrame (p : Piece) : MessageFrame := ⟨typeOpcode p.type, p.fin, p.payload⟩

/-- The frames of one endpoint as they are handled, each with the interception that holds then. -/
def run_frames (received : Interceptors) :
    Pipeline → Connection z → List (Bool × Piece) → Handled z
  | pl, connection, [] => ⟨pl, connection, .ok ()⟩
  | pl, connection, (intercept, p) :: rest =>
    (on_message_frame received (pl.set_interception intercept) connection (pieceFrame p)).bind
      fun pl connection => run_frames received pl connection rest

/-- What a connection has in hand: whether it is ready to intercept, the message that it has
collected, and what a receiver has of it. -/
structure Relay where
  ready : Bool
  collected : List UInt8
  sent : Receiver
  deriving DecidableEq, Repr

namespace Relay

def start : Relay := ⟨true, [], .start⟩

/-- One piece. Nothing comes of a piece that the serializer refuses. -/
def step (s : Relay) (intercept : Bool) (p : Piece) : Option Relay :=
  if intercept then
    if !s.ready then some { s with ready := p.fin }
    else if p.fin then
      (s.sent.piece p.type (s.collected ++ p.payload) true).map fun sent => ⟨true, [], sent⟩
    else some { s with collected := s.collected ++ p.payload }
  else (s.sent.piece p.type p.payload p.fin).map fun sent => ⟨false, s.collected, sent⟩

/-- The pieces up to the first that is refused. -/
def run (s : Relay) : List (Bool × Piece) → Relay
  | [] => s
  | x :: rest =>
    match s.step x.1 x.2 with
    | none => s
    | some s => s.run rest

end Relay

/-- A connection that has in hand what the relay has. -/
structure Follows (connection : Connection z) (s : Relay) : Prop where
  sent : Sent connection s.sent
  ready : connection.ready_to_intercept = s.ready
  collected : connection.next_message_content = s.collected

/-- Interceptors that neither alter nor block a message. They may use the pipeline. -/
def LeavesMessages (received : Interceptors) : Prop := ∀ pl m, (received pl m).2 = m

theorem Sent.with_state {connection : Connection z} {r : Receiver} (h : Sent connection r)
    (ready : Bool) (content : List UInt8) :
    Sent { connection with ready_to_intercept := ready, next_message_content := content } r :=
  ⟨h.exts, h.output, h.progress⟩

/-- A piece that the relay takes is handled, and the connection follows the relay. -/
theorem follows_step {received : Interceptors} (hr : LeavesMessages received)
    {connection : Connection z} {s s' : Relay} (hf : Follows connection s) {intercept : Bool}
    {p : Piece} (h63 : p.payload.length < 2 ^ 63) (h : s.step intercept p = some s')
    (pl : Pipeline) :
    (on_message_frame received (pl.set_interception intercept) connection (pieceFrame p)).result =
        .ok () ∧
      Follows (on_message_frame received (pl.set_interception intercept) connection
        (pieceFrame p)).connection s' := by
  unfold Relay.step at h
  unfold on_message_frame pieceFrame
  cases intercept with
  | false =>
    simp only [Bool.false_eq_true, if_false, Option.map_eq_some_iff] at h
    obtain ⟨sent, hp, rfl⟩ := h
    simp only [Pipeline.set_interception, Bool.false_eq_true, if_false]
    have hsent : Sent { connection with ready_to_intercept := false } s.sent :=
      hf.sent.with_state false _
    have hsends := sends_piece hsent h63 hp { pl with should_intercept_ := false }
    exact ⟨hsends.result, hsends.sent, hsends.same.ready_to_intercept,
      hsends.same.next_message_content.trans hf.collected⟩
  | true =>
    simp only [if_true] at h
    simp only [Pipeline.set_interception, if_true, hf.ready]
    by_cases hready : s.ready = true
    · rw [hready] at h ⊢
      simp only [Bool.not_true, Bool.false_eq_true, if_false] at h ⊢
      by_cases hfin : p.fin = true
      · simp only [hfin, if_true, Option.map_eq_some_iff] at h ⊢
        obtain ⟨sent, hp, rfl⟩ := h
        obtain ⟨content, hb, rfl⟩ := Receiver.piece_before hp
        rw [hr]
        rw [hf.collected]
        have hsent : Sent { connection with ready_to_intercept := true, next_message_content := [] }
            s.sent := hf.sent.with_state true []
        have hsends := send_message_sends ⟨typeOpcode p.type, connection.source_ep,
          s.collected ++ p.payload, false⟩ rfl rfl
          (received { pl with should_intercept_ := true } ⟨typeOpcode p.type, connection.source_ep,
            s.collected ++ p.payload, false⟩).1 hsent hb
        exact ⟨hsends.result, hsends.sent, hsends.same.ready_to_intercept,
          hsends.same.next_message_content⟩
      · simp only [hfin, Bool.false_eq_true, if_false, Option.some.injEq] at h ⊢
        subst h
        exact ⟨trivial, hf.sent.with_state _ _, rfl, by rw [hf.collected]⟩
    · have hready : s.ready = false := by simpa using hready
      rw [hready] at h ⊢
      simp only [Bool.not_false, if_true, Option.some.injEq] at h ⊢
      subst h
      by_cases hfin : p.fin = true
      · simp only [hfin, if_true]
        exact ⟨trivial, hf.sent.with_state _ _, rfl, hf.collected⟩
      · simp only [hfin, Bool.false_eq_true, if_false]
        exact ⟨trivial, hf.sent, by simp [hf.ready, hready], hf.collected⟩

/-- A piece that the relay refuses ends the handling, and nothing is sent of it. -/
theorem follows_refused {received : Interceptors} (hr : LeavesMessages received)
    {connection : Connection z} {s : Relay} (hf : Follows connection s) {intercept : Bool}
    {p : Piece} (h : s.step intercept p = none) (pl : Pipeline) :
    ∃ e, (on_message_frame received (pl.set_interception intercept) connection
        (pieceFrame p)).result = .error e ∧
      Sent (on_message_frame received (pl.set_interception intercept) connection
        (pieceFrame p)).connection s.sent := by
  unfold Relay.step at h
  unfold on_message_frame pieceFrame
  cases intercept with
  | false =>
    simp only [Bool.false_eq_true, if_false, Option.map_eq_none_iff] at h
    simp only [Pipeline.set_interception, Bool.false_eq_true, if_false]
    have hsent : Sent { connection with ready_to_intercept := false } s.sent :=
      hf.sent.with_state false _
    obtain ⟨e, he⟩ := refuses_piece hsent h { pl with should_intercept_ := false }
    rw [he]
    exact ⟨e, rfl, hsent⟩
  | true =>
    simp only [if_true] at h
    simp only [Pipeline.set_interception, if_true, hf.ready]
    by_cases hready : s.ready = true
    · rw [hready] at h ⊢
      simp only [Bool.not_true, Bool.false_eq_true, if_false] at h ⊢
      by_cases hfin : p.fin = true
      · simp only [hfin, if_true, Option.map_eq_none_iff] at h ⊢
        have hb : s.sent.before p.type = none := by
          rw [Receiver.piece, Option.map_eq_none_iff] at h
          exact h
        rw [hr]
        have hsent : Sent { connection with ready_to_intercept := true, next_message_content := [] }
            s.sent := hf.sent.with_state true []
        obtain ⟨e, he⟩ := refuses_message ⟨typeOpcode p.type, connection.source_ep,
          connection.next_message_content ++ p.payload, false⟩ rfl rfl hsent hb
          (received { pl with should_intercept_ := true } ⟨typeOpcode p.type, connection.source_ep,
            connection.next_message_content ++ p.payload, false⟩).1
        rw [he]
        exact ⟨e, rfl, hsent⟩
      · simp only [hfin, Bool.false_eq_true, if_false] at h
        cases h
    · have hready : s.ready = false := by simpa using hready
      rw [hready] at h
      simp only [Bool.not_false, if_true] at h
      cases h

/-- After all the pieces a receiver has what the relay has sent. -/
theorem run_frames_sends {received : Interceptors} (hr : LeavesMessages received)
    {frames : List (Bool × Piece)} (h63 : ∀ x ∈ frames, x.2.payload.length < 2 ^ 63)
    {connection : Connection z} {s : Relay} (hf : Follows connection s) (pl : Pipeline) :
    Sent (run_frames received pl connection frames).connection (s.run frames).sent := by
  induction frames generalizing connection s pl with
  | nil => exact hf.sent
  | cons x rest ih =>
    obtain ⟨intercept, p⟩ := x
    rw [run_frames, Relay.run]
    cases hstep : s.step intercept p with
    | none =>
      obtain ⟨e, he, hsent⟩ := follows_refused hr hf hstep pl
      simp only [Handled.bind, he]
      exact hsent
    | some s' =>
      obtain ⟨hok, hf'⟩ := follows_step hr hf (h63 (intercept, p) (by simp)) hstep pl
      simp only [Handled.bind, hok]
      exact ih (fun y hy => h63 y (by simp [hy])) hf' _

/-! ## Messages that no switch cuts -/

/-- Once frames stream through, a frame that finds interception on is dropped: it must be one that
brings nothing and ends nothing. -/
def Streamed (frames : List (Bool × Piece)) : Prop :=
  ∀ x ∈ frames, x.1 = true → x.2.fin = false ∧ x.2.payload = []

/-- The switches cut no message. While interception is on from the start, `collected` is what the
message in progress has so far; when it is first switched off there must be nothing of it yet. -/
def Undisturbed : List UInt8 → List (Bool × Piece) → Prop
  | _, [] => True
  | collected, (true, p) :: rest =>
    Undisturbed (if p.fin then [] else collected ++ p.payload) rest
  | collected, (false, _) :: rest => collected = [] ∧ Streamed rest

/-- What has been sent is all that was received, but perhaps for the start of a message with no
bytes yet. -/
structure Lags (sent received : Receiver) : Prop where
  whole : sent.whole = received.whole
  progress : sent.progress = received.progress ∨
    sent.progress = none ∧ ∃ type, received.progress = some ⟨type, []⟩

theorem Lags.piece {sent r r' : Receiver} (h : Lags sent r) {p : Piece}
    (hp : r.piece p.type p.payload p.fin = some r') :
    sent.piece p.type p.payload p.fin = some r' := by
  obtain ⟨content, hb, rfl⟩ := Receiver.piece_before hp
  have hbefore : sent.before p.type = some content := by
    unfold Receiver.before at hb ⊢
    rcases h.progress with he | ⟨hnone, type, hsome⟩
    · rw [he]; exact hb
    · rw [hsome] at hb
      simp only at hb
      split at hb
      · cases hb; rw [hnone]
      · cases hb
  rw [Receiver.piece, hbefore]
  simp only [Option.map_some, Receiver.extend, h.whole]

theorem Lags.drop {sent r r' : Receiver} (h : Lags sent r) {p : Piece} (hfin : p.fin = false)
    (hpayload : p.payload = []) (hp : r.piece p.type p.payload p.fin = some r') :
    Lags sent r' := by
  obtain ⟨content, hb, rfl⟩ := Receiver.piece_before hp
  rw [hfin, hpayload, List.append_nil]
  refine ⟨h.whole, ?_⟩
  simp only [Receiver.extend, Bool.false_eq_true, if_false]
  unfold Receiver.before at hb
  rcases hprog : r.progress with _ | m
  · rw [hprog] at hb
    cases hb
    rcases h.progress with he | ⟨hnone, -⟩
    · exact .inr ⟨he.trans hprog, p.type, rfl⟩
    · exact .inr ⟨hnone, p.type, rfl⟩
  · rw [hprog] at hb
    simp only at hb
    split at hb
    · rename_i ht
      cases hb
      rw [← ht]
      rcases h.progress with he | ⟨hnone, type, hsome⟩
      · exact .inl (he.trans hprog)
      · rw [hprog] at hsome
        cases hsome
        exact .inr ⟨hnone, type, rfl⟩
    · cases hb

namespace Relay

theorem streamed_run {frames : List (Bool × Piece)} (hs : Streamed frames) {s : Relay}
    (hready : s.ready = false) {r : Receiver} (hl : Lags s.sent r) {msgs : List lib.rfc6455.Message}
    (hr : r.pieces (frames.map (·.2)) = some ⟨none, msgs⟩) :
    (s.run frames).sent.whole = msgs := by
  induction frames generalizing s r with
  | nil => cases hr; exact hl.whole
  | cons x rest ih =>
    obtain ⟨intercept, p⟩ := x
    obtain ⟨r1, h1, h2⟩ := Receiver.pieces_cons hr
    have hrest : Streamed rest := fun y hy => hs y (List.mem_cons_of_mem _ hy)
    rw [run]
    cases intercept with
    | false =>
      have hstep : s.step false p = some ⟨false, s.collected, r1⟩ := by
        simp [step, hl.piece h1]
      simp only [hstep]
      exact ih hrest rfl ⟨rfl, .inl rfl⟩ h2
    | true =>
      obtain ⟨hfin, hpayload⟩ := hs _ List.mem_cons_self rfl
      have hstep : s.step true p = some { s with ready := p.fin } := by simp [step, hready]
      simp only [hstep]
      exact ih hrest hfin (hl.drop hfin hpayload h1) h2

/-- What the relay holds while interception has been on from the start. -/
def holding (r : Receiver) : Relay :=
  ⟨true, (r.progress.map (·.content)).getD [], ⟨none, r.whole⟩⟩

theorem before_holding {r : Receiver} {type : DataType} {content : List UInt8}
    (h : r.before type = some content) : (holding r).collected = content := by
  unfold Receiver.before at h
  unfold holding
  rcases hp : r.progress with _ | m
  · rw [hp] at h; cases h; rfl
  · rw [hp] at h
    simp only at h
    split at h
    · cases h; rfl
    · cases h

theorem step_holding {r r' : Receiver} {p : Piece}
    (h : r.piece p.type p.payload p.fin = some r') :
    (holding r).step true p = some (holding r') ∧
      (holding r').collected = if p.fin then [] else (holding r).collected ++ p.payload := by
  obtain ⟨content, hb, rfl⟩ := Receiver.piece_before h
  have hc := before_holding hb
  rw [← hc]
  cases hfin : p.fin with
  | false => simp [step, hfin, Receiver.extend, holding]
  | true => simp [step, hfin, Receiver.extend, holding, Receiver.piece, Receiver.before]

theorem undisturbed_run {frames : List (Bool × Piece)} {r : Receiver}
    (hu : Undisturbed (holding r).collected frames) {msgs : List lib.rfc6455.Message}
    (hr : r.pieces (frames.map (·.2)) = some ⟨none, msgs⟩) :
    ((holding r).run frames).sent.whole = msgs := by
  induction frames generalizing r with
  | nil => cases hr; rfl
  | cons x rest ih =>
    obtain ⟨intercept, p⟩ := x
    obtain ⟨r1, h1, h2⟩ := Receiver.pieces_cons hr
    cases intercept with
    | true =>
      obtain ⟨hstep, hcollected⟩ := step_holding h1
      rw [run, hstep]
      rw [Undisturbed, ← hcollected] at hu
      exact ih hu h2
    | false =>
      obtain ⟨hnil, hstreamed⟩ := hu
      have hl : Lags (holding r).sent r := by
        refine ⟨rfl, ?_⟩
        unfold holding at hnil ⊢
        rcases hp : r.progress with _ | ⟨type, content⟩
        · exact .inl rfl
        · rw [hp] at hnil
          exact .inr ⟨rfl, type, by simpa using hnil⟩
      have hstep : (holding r).step false p = some ⟨false, (holding r).collected, r1⟩ := by
        simp [step, hl.piece h1]
      rw [run, hstep]
      exact streamed_run hstreamed rfl ⟨rfl, .inl rfl⟩ h2

/-! ## Nothing is made up for what is dropped -/

theorem step_whole {s s' : Relay} {intercept : Bool} {p : Piece}
    (h : s.step intercept p = some s') :
    s'.sent.whole.length ≤ s.sent.whole.length + p.fin.toNat := by
  unfold step at h
  split_ifs at h with hi hready hfin
  · cases h; exact Nat.le_add_right _ _
  · rw [Option.map_eq_some_iff] at h
    obtain ⟨sent, hp, rfl⟩ := h
    rw [hfin]
    exact (Receiver.piece_counts hp).1.le
  · cases h; exact Nat.le_add_right _ _
  · rw [Option.map_eq_some_iff] at h
    obtain ⟨sent, hp, rfl⟩ := h
    exact (Receiver.piece_counts hp).1.le

/-- No more messages come out than last pieces went in. -/
theorem run_whole (s : Relay) (frames : List (Bool × Piece)) :
    (s.run frames).sent.whole.length ≤
      s.sent.whole.length + Receiver.lastPieces (frames.map (·.2)) := by
  induction frames generalizing s with
  | nil => exact Nat.le_refl _
  | cons x rest ih =>
    rw [run]
    simp only [Receiver.lastPieces, List.map_cons, List.sum_cons] at ih ⊢
    cases hstep : s.step x.1 x.2 with
    | none => exact Nat.le_add_right _ _
    | some s' =>
      have hs := step_whole hstep
      have hrest := ih s'
      simp only
      omega

/-- A last piece that is dropped is a message that is lost. -/
theorem run_whole_lt {s : Relay} (hready : s.ready = false) {frames : List (Bool × Piece)}
    (h : ∃ x ∈ frames, x.1 = true ∧ x.2.fin = true) :
    (s.run frames).sent.whole.length <
      s.sent.whole.length + Receiver.lastPieces (frames.map (·.2)) := by
  induction frames generalizing s with
  | nil => obtain ⟨x, hx, -⟩ := h; cases hx
  | cons x rest ih =>
    obtain ⟨intercept, p⟩ := x
    have hcons : Receiver.lastPieces (((intercept, p) :: rest).map (·.2)) =
        p.fin.toNat + Receiver.lastPieces (rest.map (·.2)) := rfl
    rw [run, hcons]
    by_cases hhere : intercept = true ∧ p.fin = true
    · obtain ⟨rfl, hfin⟩ := hhere
      have hstep : s.step true p = some { s with ready := p.fin } := by simp [step, hready]
      have hrest := run_whole { s with ready := p.fin } rest
      simp only [hstep, hfin, Bool.toNat_true] at hrest ⊢
      omega
    · obtain ⟨y, hy, hyi, hyf⟩ := h
      have hlater : ∃ x ∈ rest, x.1 = true ∧ x.2.fin = true := by
        rcases List.mem_cons.mp hy with rfl | hy
        · exact absurd ⟨hyi, hyf⟩ hhere
        · exact ⟨y, hy, hyi, hyf⟩
      cases hstep : s.step intercept p with
      | none =>
        have hrest := ih hready hlater
        have hle : (s.run rest).sent.whole.length < s.sent.whole.length +
          Receiver.lastPieces (rest.map (·.2)) := hrest
        have hpos : 0 < Receiver.lastPieces (rest.map (·.2)) := by
          obtain ⟨y, hy, -, hyf⟩ := hlater
          have hmem : y.2.fin.toNat ∈ (rest.map (·.2)).map fun p => p.fin.toNat :=
            List.mem_map_of_mem (List.mem_map_of_mem hy)
          have := List.single_le_sum (by simp) _ hmem
          rw [hyf] at this
          exact this
        simp only
        omega
      | some s' =>
        have hs := step_whole hstep
        have hready' : s'.ready = false := by
          unfold step at hstep
          split_ifs at hstep with hi hr hf
          · cases hstep
            simpa [hi] using hhere
          · simp [hready] at hr
          · simp [hready] at hr
          · rw [Option.map_eq_some_iff] at hstep
            obtain ⟨sent, -, rfl⟩ := hstep
            rfl
        have hrest := ih hready' hlater
        simp only
        omega

/-- The bytes of the frames that find interception on. -/
def onBytes (frames : List (Bool × Piece)) : Nat :=
  (frames.map fun x => if x.1 then x.2.payload.length else 0).sum

/-- A relay that never gets ready sends no byte of what it drops. -/
theorem run_bytes {s : Relay} (hready : s.ready = false) {frames : List (Bool × Piece)}
    (h : ∀ x ∈ frames, x.1 = true → x.2.fin = false) :
    (s.run frames).sent.bytes + onBytes frames ≤
      s.sent.bytes + Receiver.pieceBytes (frames.map (·.2)) := by
  induction frames generalizing s with
  | nil => exact Nat.le_refl _
  | cons x rest ih =>
    obtain ⟨intercept, p⟩ := x
    have hcons : Receiver.pieceBytes (((intercept, p) :: rest).map (·.2)) =
        p.payload.length + Receiver.pieceBytes (rest.map (·.2)) := rfl
    have hrest : ∀ x ∈ rest, x.1 = true → x.2.fin = false :=
      fun y hy => h y (List.mem_cons_of_mem _ hy)
    rw [run, hcons]
    cases intercept with
    | true =>
      have hfin := h _ List.mem_cons_self rfl
      have hstep : s.step true p = some { s with ready := p.fin } := by simp [step, hready]
      have hon : onBytes ((true, p) :: rest) = p.payload.length + onBytes rest := rfl
      have hle := ih (s := { s with ready := p.fin }) hfin hrest
      simp only [hstep, hon] at hle ⊢
      omega
    | false =>
      have hon : onBytes ((false, p) :: rest) = onBytes rest := by simp [onBytes]
      have hle : onBytes rest ≤ Receiver.pieceBytes (rest.map (·.2)) := by
        simp only [onBytes, Receiver.pieceBytes, List.map_map]
        refine List.sum_le_sum fun x _ => ?_
        simp only [Function.comp]
        split <;> omega
      cases hp : s.sent.piece p.type p.payload p.fin with
      | none =>
        have hstep : s.step false p = none := by simp [step, hp]
        simp only [hstep, hon]
        omega
      | some sent =>
        have hstep : s.step false p = some ⟨false, s.collected, sent⟩ := by simp [step, hp]
        have hb := (Receiver.piece_counts hp).2
        have hrun := ih (s := ⟨false, s.collected, sent⟩) rfl hrest
        simp only [hstep, hon] at hrun ⊢
        omega

/-- If all that was received comes out, then no switch cut a message. -/
theorem undisturbed_of_run {frames : List (Bool × Piece)} {r : Receiver}
    {msgs : List lib.rfc6455.Message}
    (hr : r.pieces (frames.map (·.2)) = some ⟨none, msgs⟩)
    (h : ((holding r).run frames).sent.whole = msgs) :
    Undisturbed (holding r).collected frames := by
  induction frames generalizing r with
  | nil => trivial
  | cons x rest ih =>
    obtain ⟨intercept, p⟩ := x
    obtain ⟨r1, h1, h2⟩ := Receiver.pieces_cons hr
    rw [run] at h
    cases intercept with
    | true =>
      obtain ⟨hstep, hcollected⟩ := step_holding h1
      rw [hstep] at h
      rw [Undisturbed, ← hcollected]
      exact ih h2 h
    | false =>
      obtain ⟨sent, hp⟩ : ∃ sent, (holding r).sent.piece p.type p.payload p.fin = some sent :=
        ⟨_, rfl⟩
      have hstep : (holding r).step false p = some ⟨false, (holding r).collected, sent⟩ := by
        simp [step, hp]
      rw [hstep] at h
      simp only at h
      -- As many messages as last pieces, so that none was dropped, and then as many bytes.
      obtain ⟨hwhole1, hbytes1⟩ := Receiver.piece_counts h1
      obtain ⟨hwhole2, hbytes2⟩ := Receiver.pieces_counts h2
      obtain ⟨hwhole, hbytes⟩ := Receiver.piece_counts hp
      have hlast : ∀ x ∈ rest, x.1 = true → x.2.fin = false := by
        intro x hx hxi
        by_contra hxf
        have hlt := run_whole_lt (s := ⟨false, (holding r).collected, sent⟩) rfl
          ⟨x, hx, hxi, by simpa using hxf⟩
        rw [h] at hlt
        have hsame : (holding r).sent.whole = r.whole := rfl
        rw [hsame] at hwhole
        simp only at hwhole1 hwhole2 hlt
        omega
      have hle := run_bytes (s := ⟨false, (holding r).collected, sent⟩) rfl hlast
      have hmsgs : (Receiver.mk none msgs).bytes ≤
          ((⟨false, (holding r).collected, sent⟩ : Relay).run rest).sent.bytes := by
        simp [Receiver.bytes, h]
      have hheld : r.bytes = (holding r).sent.bytes + (holding r).collected.length := by
        unfold Receiver.bytes holding
        cases r.progress <;> simp
      simp only at hle hbytes1
      have hnone : (holding r).collected.length + onBytes rest = 0 := by omega
      refine ⟨List.length_eq_zero_iff.mp (by omega), fun x hx hxi => ⟨hlast x hx hxi, ?_⟩⟩
      have hmem : x.2.payload.length ∈
          rest.map fun x => if x.1 then x.2.payload.length else 0 :=
        List.mem_map.mpr ⟨x, hx, by simp [hxi]⟩
      have hx0 := List.single_le_sum (by simp) _ hmem
      have hon : onBytes rest =
        (rest.map fun x => if x.1 then x.2.payload.length else 0).sum := rfl
      exact List.length_eq_zero_iff.mp (by omega)

end Relay

theorem follows_new (destination : Endpoint) (generator : Nat → UInt32) :
    Follows (Connection.new destination [] generator : Connection z) (Relay.holding .start) :=
  ⟨sent_new destination generator, rfl, rfl⟩

/-- The messages that were received come out, under any schedule of interception, exactly when no
switch cuts one of them. -/
theorem messages_come_out_iff_no_switch_cuts_them {received : Interceptors}
    (hr : LeavesMessages received) (destination : Endpoint) (generator : Nat → UInt32)
    (pl : Pipeline) {frames : List (Bool × Piece)}
    (h63 : ∀ x ∈ frames, x.2.payload.length < 2 ^ 63) {msgs : List lib.rfc6455.Message}
    (hm : Receiver.start.pieces (frames.map (·.2)) = some ⟨none, msgs⟩) :
    (lib.rfc6455.received (run_frames received pl
        (Connection.new destination [] generator : Connection z) frames).connection.output).map
          (·.whole) = some msgs ↔
      Undisturbed [] frames := by
  have hsent := run_frames_sends hr h63 (follows_new (z := z) destination generator) pl
  rw [hsent.received, Option.map_some, Option.some.injEq]
  exact ⟨Relay.undisturbed_of_run hm, fun hu => Relay.undisturbed_run (r := .start) hu hm⟩

/-- A message in two frames, with interception on throughout. -/
theorem a_held_message_comes_out :
    (lib.rfc6455.received (run_frames (fun pl m => (pl, m)) (Pipeline.new true)
        (Connection.new .server [] (fun _ => 0) : Connection .inert)
        [(true, ⟨.text, [72], false⟩), (true, ⟨.text, [105], true⟩)]).connection.output).map
          (·.whole) = some [⟨.text, [72, 105]⟩] ↔
      Undisturbed [] [(true, ⟨.text, [72], false⟩), (true, ⟨.text, [105], true⟩)] :=
  messages_come_out_iff_no_switch_cuts_them (fun _ _ => rfl) .server _ _ (by simp) rfl

/-- Interception is switched on between two whole messages, and the second one is lost. -/
theorem the_message_after_the_switch_is_lost :
    (lib.rfc6455.received (run_frames (fun pl m => (pl, m)) (Pipeline.new false)
        (Connection.new .server [] (fun _ => 0) : Connection .inert)
        [(false, ⟨.text, [97], true⟩), (true, ⟨.text, [98], true⟩)]).connection.output).map
          (·.whole) ≠ some [⟨.text, [97]⟩, ⟨.text, [98]⟩] := by
  have hleaves : LeavesMessages fun pl m => (pl, m) := fun _ _ => rfl
  have h63 : ∀ x ∈ [(false, (⟨.text, [97], true⟩ : Piece)), (true, ⟨.text, [98], true⟩)],
      x.2.payload.length < 2 ^ 63 := by simp
  have hsent := run_frames_sends (z := .inert) hleaves h63 (follows_new .server fun _ => 0)
    (Pipeline.new false)
  rw [hsent.received]
  decide

end proxy.websocket
