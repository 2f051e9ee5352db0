-- Which frames the parser lets through when no extension is negotiated, over
-- whole streams: the rules of RFC 6455 that it checks, and those it does not.
import Aether.Websocket.FrameChunks
import Aether.Websocket.FrameHeaders
import Mathlib.Data.List.Forall2

open util.bytes lib.big_endian
open lib.rfc6455 (Head)

namespace proxy.websocket.protocol

open extensions lib.resumable

variable {z : Zlib}

/-! ## The frames at the front of a stream -/

/-- A frame as its bytes stand on the wire, legal or not. -/
structure Wire where
  head : Head
  payload : List UInt8

namespace Wire

def bytes (w : Wire) : List UInt8 := w.head.bytes ++ w.payload

/-- The frame ends where the length in its header, as the parser reads lengths, says. -/
structure Whole (w : Wire) : Prop where
  shaped : w.head.Shaped
  length : w.payload.length = declared_length w.head

/-- Where a frame ends does not depend on what is behind it. -/
theorem Whole.unique {w w' : Wire} {t t' : List UInt8} (hw : w.Whole) (hw' : w'.Whole)
    (h : w.bytes ++ t = w'.bytes ++ t') : w = w' ∧ t = t' := by
  obtain ⟨⟨b0, b1, extended, key⟩, payload⟩ := w
  obtain ⟨⟨c0, c1, extended', key'⟩, payload'⟩ := w'
  simp only [bytes, Head.bytes, List.cons_append, List.append_assoc, List.cons.injEq] at h
  obtain ⟨rfl, rfl, hrest⟩ := h
  have hext : extended.length = extended'.length :=
    hw.shaped.extended.trans hw'.shaped.extended.symm
  obtain ⟨rfl, hbehind⟩ := List.append_inj hrest hext
  have hkey : key.length = key'.length := hw.shaped.key.trans hw'.shaped.key.symm
  obtain ⟨rfl, hdata⟩ := List.append_inj hbehind hkey
  have hlen : payload.length = payload'.length := hw.length.trans hw'.length.symm
  obtain ⟨rfl, htail⟩ := List.append_inj hdata hlen
  exact ⟨rfl, htail⟩

end Wire

/-- The stream starts with the frames, one after another. -/
def StartsWith (bs : List UInt8) (ws : List Wire) : Prop :=
  (∀ w ∈ ws, w.Whole) ∧ ∃ tail, bs = ws.flatMap Wire.bytes ++ tail

theorem startsWith_prefix {bs : List UInt8} {ws ws' : List Wire} (h : StartsWith bs ws)
    (h' : StartsWith bs ws') (hlen : ws.length ≤ ws'.length) : ws <+: ws' := by
  obtain ⟨hw, tail, hbs⟩ := h
  obtain ⟨hw', tail', hbs'⟩ := h'
  rw [hbs] at hbs'
  clear hbs
  induction ws generalizing ws' with
  | nil => exact List.nil_prefix
  | cons w ws ih =>
    match ws', hlen with
    | w' :: ws', hlen =>
      rw [List.flatMap_cons, List.flatMap_cons, List.append_assoc, List.append_assoc] at hbs'
      obtain ⟨rfl, hrest⟩ := (hw w (List.mem_cons_self ..)).unique
        (hw' w' (List.mem_cons_self ..)) hbs'
      have hlater : ∀ v ∈ ws, v.Whole := fun v hv => hw v (List.mem_cons_of_mem _ hv)
      have hlater' : ∀ v ∈ ws', v.Whole := fun v hv => hw' v (List.mem_cons_of_mem _ hv)
      exact List.cons_prefix_cons.mpr
        ⟨rfl, ih (Nat.le_of_succ_le_succ hlen) hlater hlater' hrest⟩

/-! ## The rules -/

/-- The rules that the parser checks: a control frame is final and short, a data frame inside of a
message is a continuation (so is a control frame there), the length has the fewest bytes and a clear
top bit, and there is a mask exactly towards a server. -/
structure Checked (destination : Endpoint) (inMessage : Bool) (h : Head) : Prop where
  control : h.isControl = true → h.fin = true ∧ h.length7 ≤ 125
  expected : inMessage = true → h.opcode = 0
  length : LengthTaken h
  masked : h.masked = decide (destination = .server)

/-- The rules that it does not check: the reserved bits are clear, the opcode is not a reserved one,
and a continuation continues a message. -/
structure Ordinary (inMessage : Bool) (h : Head) : Prop where
  reserved : h.rsv1 = false ∧ h.rsv2 = false ∧ h.rsv3 = false
  opcode : h.opcode.val ∈ [0, 1, 2, 8, 9, 10]
  continuation : h.opcode = 0 → inMessage = true

/-- A property of each header, with whether it stands inside of a fragmented message. -/
def Each (P : Bool → Head → Prop) : Bool → List Wire → Prop
  | _, [] => True
  | inMessage, w :: ws => P inMessage w.head ∧ Each P (w.head.inMessageAfter inMessage) ws

theorem Each.mono {P Q : Bool → Head → Prop} {ws : List Wire} {inMessage : Bool}
    (himp : ∀ inMessage, ∀ w ∈ ws, P inMessage w.head → Q inMessage w.head)
    (h : Each P inMessage ws) : Each Q inMessage ws := by
  induction ws generalizing inMessage with
  | nil => exact h
  | cons w ws ih =>
    refine ⟨himp inMessage w (List.mem_cons_self ..) h.1, ih ?_ h.2⟩
    exact fun inMessage v hv => himp inMessage v (List.mem_cons_of_mem _ hv)

theorem Each.and {P Q : Bool → Head → Prop} {ws : List Wire} {inMessage : Bool}
    (h : Each P inMessage ws) (h' : Each Q inMessage ws) :
    Each (fun inMessage head => P inMessage head ∧ Q inMessage head) inMessage ws := by
  induction ws generalizing inMessage with
  | nil => exact h
  | cons w ws ih => exact ⟨⟨h.1, h'.1⟩, ih h.2 h'.2⟩

theorem Each.front {P : Bool → Head → Prop} {ws ws' : List Wire} {inMessage : Bool}
    (h : Each P inMessage ws') (hp : ws <+: ws') : Each P inMessage ws := by
  induction ws generalizing ws' inMessage with
  | nil => exact trivial
  | cons w ws ih =>
    obtain ⟨rest, rfl⟩ := hp
    exact ⟨h.1, ih h.2 (List.prefix_append ws rest)⟩

/-- A length that is read as more than its fewest bytes could hold, with a clear top bit, has them
on the wire. -/
theorem LengthTaken.wire {h : Head} (hs : h.Shaped) (ht : LengthTaken h) :
    (h.length7 = 126 → 125 < ofBigEndian h.extended) ∧
      (h.length7 = 127 → 65535 < ofBigEndian h.extended ∧ ofBigEndian h.extended < 2 ^ 63) := by
  have hext := hs.extended
  constructor
  · intro h126
    have hlen : h.extended.length = 2 := by rw [hext, h126]; rfl
    have hd : declared_length h = ofBigEndian h.extended := by
      rw [declared_length, if_pos h126, parse_two hlen]
    rw [← hd]
    exact ht.1 h126
  · intro h127
    have hlen : h.extended.length = 8 := by rw [hext, h127]; rfl
    have hd : declared_length h = parse_network_byte_order 8 h.extended := by
      rw [declared_length, h127]
      rfl
    obtain ⟨hmost, hmsb⟩ := ht.2 h127
    rw [hd] at hmost hmsb
    constructor
    · by_contra hle
      rw [parse_eight hlen (by omega)] at hmost
      omega
    · by_contra hge
      have hbig := parse_eight_msb hlen (by omega)
      omega

theorem Checked.legal {destination : Endpoint} {inMessage : Bool} {h : Head} (hs : h.Shaped)
    (hc : Checked destination inMessage h) (ho : Ordinary inMessage h) :
    h.Legal (decide (destination = .server)) inMessage where
  opcode := ho.opcode
  reserved := ho.reserved
  control := hc.control
  minimal := ⟨(hc.length.wire hs).1, fun h127 => ((hc.length.wire hs).2 h127).1⟩
  msb h127 := ((hc.length.wire hs).2 h127).2
  masked := hc.masked
  continuation := ho.continuation
  first hfirst := by
    rcases hm : inMessage with _ | _
    · rfl
    · rw [hc.expected hm] at hfirst
      rcases hfirst with h | h <;> cases h

theorem ordinary_of_legal {toServer inMessage : Bool} {h : Head} (hl : h.Legal toServer inMessage) :
    Ordinary inMessage h := ⟨hl.reserved, hl.opcode, hl.continuation⟩

/-! ## The calls of the parser -/

/-- A parser without extensions between two frames of a stream. -/
structure Bare (destination : Endpoint) (inMessage : Bool) (fp : FrameParser z) : Prop
    extends Idle fp where
  exts : fp.extensions_ = []
  destination : fp.destination_ = destination
  expected : fp.effective_opcode_in_.isSome = inMessage

theorem bare_new (destination : Endpoint) (generator : Nat → UInt32) :
    Bare destination false (FrameParser.new destination [] generator : FrameParser z) :=
  ⟨idle_new _ _ _, rfl, rfl, rfl⟩

theorem Bare.taken_iff {destination : Endpoint} {inMessage : Bool} {fp : FrameParser z}
    (hb : Bare destination inMessage fp) (h : Head) :
    Taken fp.destination_ fp.effective_opcode_in_ h ↔ Checked destination inMessage h := by
  rw [hb.destination]
  constructor
  · intro ht
    refine ⟨ht.header.1, ?_, ht.length, ht.masked⟩
    rw [← hb.expected]
    exact ht.header.2
  · intro hc
    refine ⟨⟨hc.control, ?_⟩, hc.length, hc.masked⟩
    rw [hb.expected]
    exact hc.expected

theorem Reads.bare {destination : Endpoint} {inMessage : Bool} {fp : FrameParser z} {h : Head}
    {payload rest : List UInt8} {call : ParseCall z} (hr : Reads fp h payload rest call)
    (hb : Bare destination inMessage fp) :
    Bare destination (h.inMessageAfter inMessage) call.parser := by
  have hexts : call.parser.extensions_ = [] := by
    have hlen := hr.exts
    rw [hb.exts] at hlen
    exact List.length_eq_zero_iff.mp hlen
  refine ⟨hr.idle, hexts, hr.destination.trans hb.destination, ?_⟩
  have hcontrol : is_control (Opcode.cast h.opcode) = h.isControl := is_control_cast h.opcode
  rw [hr.expected]
  unfold effective_opcode Head.inMessageAfter
  rw [hcontrol]
  rcases h.isControl with _ | _
  · rcases h.fin with _ | _
    · rcases fp.effective_opcode_in_ with _ | _ <;> rfl
    · rfl
  · exact hb.expected

/-- What is returned for a frame on the wire. -/
def Stands (g : Frame) (w : Wire) : Prop :=
  StandsFor g w.head (lib.rfc6455.unmask w.head.maskKey w.payload)

section

variable {destination : Endpoint} {inMessage : Bool} {fp : FrameParser z}

/-- A frame that is checked is returned, and the calls go on behind it. -/
theorem drainAll_checked (hb : Bare destination inMessage fp) {w : Wire} (hw : w.Whole)
    (hc : Checked destination inMessage w.head) (tail : List UInt8) :
    ∃ g fp', Stands g w ∧ Bare destination (w.head.inMessageAfter inMessage) fp' ∧
      drainAll parse_step pending fp (w.bytes ++ tail) =
        (drainAll parse_step pending fp' tail).after [g] := by
  have hq : Quiet w.head.rsv1 fp.extensions_ := by
    rw [hb.exts]
    exact quiet_nil _
  have hr := parse_taken hb.toIdle hw.shaped hq ((hb.taken_iff _).mpr hc) hw.length tail
  rw [← List.append_assoc] at hr
  obtain ⟨g, hg, hstands, -⟩ := hr.frame
  have hitem : (parse_step fp (w.bytes ++ tail)).outcome = .item g := by
    simp only [parse_step, frame_step, Wire.bytes, hg]
  refine ⟨g, _, hstands, hr.bare hb, ?_⟩
  rw [drainAll_item resumable_parse_step hb.tidy hitem]
  simp only [parse_step, frame_step]
  rw [show (parse fp (w.bytes ++ tail)).input = tail from hr.input]
  rfl

/-- A frame that is not ends the calls with an error. -/
theorem drainAll_unchecked (hb : Bare destination inMessage fp) {w : Wire} (hw : w.Whole)
    (hc : ¬ Checked destination inMessage w.head) (tail : List UInt8) :
    ∃ e, (drainAll parse_step pending fp (w.bytes ++ tail)).halted = some (.inl e) := by
  have hq : Quiet w.head.rsv1 fp.extensions_ := by
    rw [hb.exts]
    exact quiet_nil _
  obtain ⟨e, he⟩ := parse_refused hb.toIdle hw.shaped hq (fun ht => hc ((hb.taken_iff _).mp ht))
    (w.payload ++ tail)
  rw [← List.append_assoc] at he
  have hhalt : (parse_step fp (w.bytes ++ tail)).outcome = .halt (.inl e) := by
    simp only [parse_step, frame_step, Wire.bytes, he]
  refine ⟨e, ?_⟩
  rw [drainAll_halt hhalt]

/-- Frames at the front of the input that are all checked are all returned. -/
theorem checked_are_returned {ws : List Wire} (hw : ∀ w ∈ ws, w.Whole)
    (hb : Bare destination inMessage fp) (hc : Each (Checked destination) inMessage ws)
    (tail : List UInt8) :
    ws.length ≤ (drainAll parse_step pending fp (ws.flatMap Wire.bytes ++ tail)).items.length := by
  induction ws generalizing inMessage fp with
  | nil => exact Nat.zero_le _
  | cons w ws ih =>
    obtain ⟨g, fp', -, hb', hd⟩ := drainAll_checked hb (hw w (List.mem_cons_self ..)) hc.1
      (ws.flatMap Wire.bytes ++ tail)
    have hlater := ih (fun v hv => hw v (List.mem_cons_of_mem _ hv)) hb' hc.2
    rw [List.flatMap_cons, List.append_assoc, hd]
    simp only [Drained.after, List.cons_append, List.nil_append, List.length_cons]
    omega

/-- Where one is not checked, the calls end with an error. -/
theorem unchecked_is_an_error {ws : List Wire} (hw : ∀ w ∈ ws, w.Whole)
    (hb : Bare destination inMessage fp) (hc : ¬ Each (Checked destination) inMessage ws)
    (tail : List UInt8) :
    ∃ e, (drainAll parse_step pending fp (ws.flatMap Wire.bytes ++ tail)).halted =
      some (.inl e) := by
  induction ws generalizing inMessage fp with
  | nil => exact absurd trivial hc
  | cons w ws ih =>
    have hwhole := hw w (List.mem_cons_self ..)
    rw [List.flatMap_cons, List.append_assoc]
    by_cases hfirst : Checked destination inMessage w.head
    · obtain ⟨g, fp', -, hb', hd⟩ := drainAll_checked hb hwhole hfirst
        (ws.flatMap Wire.bytes ++ tail)
      rw [hd]
      exact ih (fun v hv => hw v (List.mem_cons_of_mem _ hv)) hb' fun h => hc ⟨hfirst, h⟩
    · exact drainAll_unchecked hb hwhole hfirst _

/-- The frames that are returned stood at the front of the input, and were checked. -/
theorem returned_stood_on_the_wire (hb : Bare destination inMessage fp) (a : List UInt8) :
    ∃ ws, StartsWith a ws ∧ List.Forall₂ Stands (drainAll parse_step pending fp a).items ws ∧
      Each (Checked destination) inMessage ws := by
  refine drain_induction (P := fun fp a => ∀ inMessage, Bare destination inMessage fp →
    ∃ ws, StartsWith a ws ∧ List.Forall₂ Stands (drainAll parse_step pending fp a).items ws ∧
      Each (Checked destination) inMessage ws) resumable_parse_step ?_ ?_ ?_ hb.tidy a inMessage hb
  · intro fp a _ hc inMessage hb
    rw [drainAll_more hc]
    exact ⟨[], ⟨by simp, a, rfl⟩, .nil, trivial⟩
  · intro fp a e _ hc inMessage hb
    rw [drainAll_halt hc]
    exact ⟨[], ⟨by simp, a, rfl⟩, .nil, trivial⟩
  · intro fp a g _ hc ih inMessage hb
    obtain ⟨g', hg, hread⟩ := frame_step_item hc
    cases hread
    have hcall : parse fp a = ⟨(parse fp a).parser, (parse fp a).input, .frame g⟩ := by rw [← hg]
    obtain ⟨head, payload, hs, hlen, ha, ht⟩ := parse_frame hb.toIdle hb.exts hcall
    have hq : Quiet head.rsv1 fp.extensions_ := by
      rw [hb.exts]
      exact quiet_nil _
    have hr := parse_taken hb.toIdle hs hq ht hlen (parse fp a).input
    rw [← ha] at hr
    obtain ⟨g', hg', hstands, -⟩ := hr.frame
    rw [hg] at hg'
    cases hg'
    obtain ⟨ws, ⟨hws, tail, htail⟩, hframes, hchecked⟩ := ih _ (hr.bare hb)
    simp only [parse_step, frame_step] at htail
    refine ⟨⟨head, payload⟩ :: ws, ⟨?_, tail, ?_⟩, ?_, (hb.taken_iff head).mp ht, hchecked⟩
    · intro w hw
      rcases List.mem_cons.mp hw with rfl | hw
      · exact ⟨hs, hlen⟩
      · exact hws w hw
    · rw [List.flatMap_cons, List.append_assoc, ← htail, Wire.bytes, List.append_assoc]
      exact ha
    · rw [drainAll_item resumable_parse_step hb.tidy hc]
      exact .cons hstands hframes

end

/-! ## The law -/

/-- Only legal frames of the stream are returned, each where it is legal, and an illegal one makes
an error. -/
structure OnlyLegal (destination : Endpoint) (bs : List UInt8)
    (d : Drained (FrameParser z) UInt8 Halt Frame) : Prop where
  returned : ∃ ws, StartsWith bs ws ∧ List.Forall₂ Stands d.items ws ∧
    Each (fun inMessage head => head.Legal (decide (destination = .server)) inMessage) false ws
  refused : ∀ ws, StartsWith bs ws →
    ¬ Each (fun inMessage head => head.Legal (decide (destination = .server)) inMessage) false ws →
    ∃ e, d.halted = some (.inl e)

/-- For a stream in any pieces, only legal frames are returned and every other makes an error
exactly when, as far as the frames of the stream pass the checks, none of them has a reserved bit or
a reserved opcode, or is a continuation of nothing. -/
theorem only_legal_frames_are_returned_iff_the_checked_ones_are_ordinary (destination : Endpoint)
    (generator : Nat → UInt32) (pieces : List (List UInt8)) :
    OnlyLegal destination pieces.flatten
        (feed parse_step pending (FrameParser.new destination [] generator : FrameParser z) []
          pieces) ↔
      ∀ ws, StartsWith pieces.flatten ws → Each (Checked destination) false ws →
        Each Ordinary false ws := by
  have hb := bare_new (z := z) destination generator
  obtain ⟨hitems, hhalted⟩ := feed_parse_step hb.toIdle pieces
  have hlegal : ∀ {ws}, (∀ w ∈ ws, w.Whole) → Each (Checked destination) false ws →
      Each Ordinary false ws →
      Each (fun inMessage head => head.Legal (decide (destination = .server)) inMessage) false
        ws := by
    intro ws hws hc ho
    exact (hc.and ho).mono fun _ w hw h => h.1.legal (hws w hw).shaped h.2
  constructor
  · intro h ws hws hc
    obtain ⟨ws', hws', hframes, hl⟩ := h.returned
    -- The checked frames are all among those that were returned.
    obtain ⟨hwhole, tail, hbs⟩ := hws
    have hcount := checked_are_returned hwhole hb hc tail
    rw [← hbs, ← hitems, hframes.length_eq] at hcount
    have hprefix := startsWith_prefix ⟨hwhole, tail, hbs⟩ hws' hcount
    exact (hl.front hprefix).mono fun _ _ _ => ordinary_of_legal
  · intro h
    constructor
    · obtain ⟨ws, hws, hframes, hc⟩ := returned_stood_on_the_wire hb pieces.flatten
      rw [hitems]
      exact ⟨ws, hws, hframes, hlegal hws.1 hc (h ws hws hc)⟩
    · intro ws hws hn
      have hc : ¬ Each (Checked destination) false ws :=
        fun hc => hn (hlegal hws.1 hc (h ws hws hc))
      obtain ⟨hwhole, tail, hbs⟩ := hws
      rw [hhalted, hbs]
      exact unchecked_is_an_error hwhole hb hc tail

/-- A ping with a reserved bit is returned. -/
theorem a_frame_with_a_reserved_bit_is_returned :
    ¬ OnlyLegal .client [[0xA9, 0x00]].flatten
      (feed parse_step pending (FrameParser.new .client [] (fun _ => 0) : FrameParser .inert) []
        [[0xA9, 0x00]]) := by
  have hfed : (feed parse_step pending (FrameParser.new .client [] (fun _ => 0) :
      FrameParser .inert) [] [[0xA9, 0x00]]).halted = none := by decide
  have hwhole : (Wire.mk ⟨0xA9, 0x00, [], []⟩ []).Whole := ⟨⟨by decide, by decide⟩, by decide⟩
  intro h
  obtain ⟨e, he⟩ := h.refused [⟨⟨0xA9, 0x00, [], []⟩, []⟩]
    ⟨by simpa using hwhole, [], by decide⟩ fun hl => by
      have := hl.1.reserved.2.1
      revert this
      decide
  rw [hfed] at he
  cases he

end proxy.websocket.protocol
