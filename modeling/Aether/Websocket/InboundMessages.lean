-- What permessage-deflate hands to `inflate` for the frames of one compressed
-- message: the payload of each frame, with the flush marker behind each.
import Aether.Websocket.InboundDeflate

open util.bytes

namespace proxy.websocket.protocol

open extensions

variable {z : Zlib}

/-! ## The bytes of each frame -/

/-- What `inflate` is given where the payload of a frame goes to it. -/
def handed_data (payload : List UInt8) : List UInt8 :=
  (payload ++ flush_marker).take ((payload ++ flush_marker).length % 2 ^ 32)

/-- What the hooks of a frame hand to `inflate`. -/
def handed_by (ext : PermessageDeflate z) (f : lib.rfc6455.Frame) : List UInt8 :=
  let (ext, result) := on_inbound_frame_header ext (headerOf f)
  if result.close = none ∧ inflates ext then handed_data f.payload else []

/-- What is handed for each of the frames, up to the one that ends the connection. -/
def handed_each (ext : PermessageDeflate z) : List lib.rfc6455.Frame → List (List UInt8)
  | [] => []
  | f :: fs =>
    handed_by ext f ::
      match inbound_hooks ext (headerOf f) f.payload with
      | .error _ => []
      | .ok call =>
        match call.close with
        | some _ => []
        | none => handed_each call.ext fs

/-- The trace of `inflate` grows by what is handed. -/
theorem handed_by_trace {ext : PermessageDeflate z} {f : lib.rfc6455.Frame} {call : HookCall z}
    (h : inbound_hooks ext (headerOf f) f.payload = .ok call) :
    call.ext.inflated.flatten = ext.inflated.flatten ++ handed_by ext f := by
  have hkept : ∀ fh : FrameHeader, (on_inbound_frame_header ext fh).1.inflated = ext.inflated := by
    intro fh
    unfold on_inbound_frame_header
    split <;> rfl
  have hcomplete : ∀ (ext : PermessageDeflate z) fh,
      (on_inbound_frame_complete ext fh).1.inflated = ext.inflated := by
    intro ext fh
    unfold on_inbound_frame_complete
    split
    · rfl
    · split <;> rfl
  unfold inbound_hooks at h
  unfold handed_by
  rcases hc : (on_inbound_frame_header ext (headerOf f)).2.close with _ | code
  · simp only [hc] at h
    rcases hp : on_inbound_frame_payload (on_inbound_frame_header ext (headerOf f)).1 f.payload []
      with e | hook
    · rw [hp] at h
      cases h
    · have htrace := payload_trace hp
      rw [hkept] at htrace
      rw [hp] at h
      simp only [bind, Except.bind] at h
      have hext : call.ext.inflated = hook.ext.inflated := by
        rcases hclose : hook.ret.close with _ | code
        · rw [hclose] at h
          cases h
          exact hcomplete _ _
        · rw [hclose] at h
          cases h
          rfl
      rw [hext, htrace]
      simp only [hc, true_and]
      rw [List.flatten_append]
      split
      · simp [handed_data]
      · rfl
  · simp only [hc] at h
    cases h
    simp [hkept, hc]

/-! ## A compressed message -/

/-- The frames of one compressed message: the first has its type and RSV1, the others continue it,
and only the last is final. -/
structure Compressed (fs : List lib.rfc6455.Frame) : Prop where
  frames : ∃ f gs, fs = f :: gs ∧ (f.opcode = 1 ∨ f.opcode = 2) ∧ f.rsv1 = true ∧
    ∀ g ∈ gs, g.opcode = 0 ∧ g.rsv1 = false
  unfinished : ∀ f ∈ fs.dropLast, f.fin = false
  finished : ∀ f ∈ fs.getLast?, f.fin = true

theorem isControl_data {f : lib.rfc6455.Frame} (h : f.opcode = 0 ∨ f.opcode = 1 ∨ f.opcode = 2) :
    f.isControl = false := by
  unfold lib.rfc6455.Frame.isControl
  rcases h with h | h | h <;> rw [h] <;> rfl

/-- A data frame is handed as the flag says that it finds, or sets. -/
theorem handed_by_data {f : lib.rfc6455.Frame} (hw : WellFormed f)
    (hc : f.isControl = false) (hlen : f.payload.length < 2 ^ 31) (ext : PermessageDeflate z) :
    handed_by ext f =
      if ext.inbound_compressed_.getD f.rsv1 then f.payload ++ flush_marker else [] := by
  have hdata : handed_data f.payload = f.payload ++ flush_marker := by
    have hall : (f.payload ++ flush_marker).length < 2 ^ 32 := by
      simp only [List.length_append, flush_marker, List.length_cons, List.length_nil]
      omega
    unfold handed_data
    rw [Nat.mod_eq_of_lt hall, List.take_length]
  unfold handed_by
  rw [header_passes hw]
  simp [inflates, hc, hdata]

/-- What a data frame must be to be handed. -/
structure Data (f : lib.rfc6455.Frame) : Prop where
  data : f.isControl = false
  wellFormed : WellFormed f
  short : f.payload.length < 2 ^ 31

theorem Compressed.data {fs : List lib.rfc6455.Frame} (hf : Compressed fs)
    (hlen : ∀ f ∈ fs, f.payload.length < 2 ^ 31) : ∀ f ∈ fs, Data f := by
  obtain ⟨f, gs, rfl, hop, -, hgs⟩ := hf.frames
  intro g hg
  rcases List.mem_cons.mp hg with rfl | hg'
  · have hc := isControl_data (.inr hop)
    have hcontrol : g.isControl = true → g.fin = true ∧ g.rsv1 = false := by
      intro h
      rw [hc] at h
      cases h
    refine ⟨hc, ⟨hcontrol, fun h => ?_⟩, hlen g hg⟩
    rw [h] at hop
    rcases hop with h | h <;> cases h
  · have hc := isControl_data (.inl (hgs g hg').1)
    have hcontrol : g.isControl = true → g.fin = true ∧ g.rsv1 = false := by
      intro h
      rw [hc] at h
      cases h
    exact ⟨hc, ⟨hcontrol, fun _ => (hgs g hg').2⟩, hlen g hg⟩

/-- The frames are all handed, each with a marker, or none is: the flag that the first of them finds
or sets is the one that the others find. -/
theorem handed_each_data {fs : List lib.rfc6455.Frame} (hd : ∀ f ∈ fs, Data f)
    (hfin : ∀ f ∈ fs.dropLast, f.fin = false) {ext : PermessageDeflate z} {b : Bool}
    (hb : ∀ f ∈ fs.head?, ext.inbound_compressed_.getD f.rsv1 = b)
    (hrun : (handed_each ext fs).length = fs.length) :
    handed_each ext fs = fs.map fun f => if b then f.payload ++ flush_marker else [] := by
  induction fs generalizing ext with
  | nil => rfl
  | cons f fs ih =>
    have hf := hd f (List.mem_cons_self ..)
    have hflag : ext.inbound_compressed_.getD f.rsv1 = b := hb f rfl
    have hhanded := handed_by_data hf.wellFormed hf.data hf.short ext
    rw [hflag] at hhanded
    rw [handed_each] at hrun ⊢
    rw [List.map_cons, hhanded]
    congr 1
    cases fs with
    | nil =>
      rcases inbound_hooks ext (headerOf f) f.payload with e | call
      · rfl
      · rcases hclose : call.close with _ | code <;> simp [hclose, handed_each]
    | cons g gs =>
      rcases hcall : inbound_hooks ext (headerOf f) f.payload with e | call
      · rw [hcall] at hrun
        simp at hrun
      · rw [hcall] at hrun
        simp only at hrun ⊢
        rcases hclose : call.close with _ | code
        · rw [hclose] at hrun
          have hopen : f.fin = false := hfin f (by simp)
          have hkept := (hooks_flag hf.wellFormed hcall).2 hclose
          simp only [hf.data, hopen, hflag, Bool.not_false, Bool.or_true, if_true] at hkept
          simp only [List.length_cons, Nat.add_right_cancel_iff] at hrun
          refine ih (fun g hg => hd g (List.mem_cons_of_mem _ hg)) ?_ ?_ hrun
          · intro g' hg'
            exact hfin g' (List.mem_cons_of_mem _ hg')
          · intro g' _
            rw [hkept]
            rfl
        · rw [hclose] at hrun
          simp at hrun

/-! ## The law -/

theorem length_marked (fs : List lib.rfc6455.Frame) :
    ((fs.map fun f => f.payload ++ flush_marker).flatten).length =
      (fs.flatMap lib.rfc6455.Frame.payload).length + 4 * fs.length := by
  induction fs with
  | nil => rfl
  | cons f fs ih =>
    have hmarker : flush_marker.length = 4 := rfl
    simp only [List.map_cons, List.flatten_cons, List.length_append, ih, List.flatMap_cons, hmarker,
      List.length_cons]
    omega

/-- For a compressed message that reaches its last frame, `inflate` is given the payloads and then
the flush marker exactly when the message is one frame, and the flag of a control frame before it is
not left. -/
theorem the_marker_is_at_the_end_only_iff_the_message_is_one_frame {fs : List lib.rfc6455.Frame}
    (hf : Compressed fs) (hlen : ∀ f ∈ fs, f.payload.length < 2 ^ 31) (ext : PermessageDeflate z)
    (hrun : (handed_each ext fs).length = fs.length) :
    (handed_each ext fs).flatten = fs.flatMap lib.rfc6455.Frame.payload ++ flush_marker ↔
      fs.length = 1 ∧ ext.inbound_compressed_ ≠ some false := by
  have hfirst : ∀ f ∈ fs.head?, ext.inbound_compressed_.getD f.rsv1 =
      ext.inbound_compressed_.getD true := by
    obtain ⟨f, gs, rfl, -, hrsv, -⟩ := hf.frames
    intro g hg
    cases hg
    rw [hrsv]
  rw [handed_each_data (hf.data hlen) hf.unfinished hfirst hrun]
  by_cases hstale : ext.inbound_compressed_ = some false
  · have hnone : (fs.map fun f => if ext.inbound_compressed_.getD true then
        f.payload ++ flush_marker else []).flatten = [] := by
      rw [hstale]
      simp
    rw [hnone]
    constructor
    · intro h
      have hlength := congrArg List.length h
      simp [flush_marker] at hlength
    · rintro ⟨-, hne⟩
      exact absurd hstale hne
  · have hset : ext.inbound_compressed_.getD true = true := by
      revert hstale
      cases ext.inbound_compressed_ with
      | none => simp
      | some b => cases b <;> simp
    simp only [hset, if_true]
    refine ⟨fun h => ⟨?_, hstale⟩, ?_⟩
    · -- Every frame brings four bytes more than its payload.
      have hlength := congrArg List.length h
      rw [length_marked, List.length_append] at hlength
      simp only [flush_marker, List.length_cons, List.length_nil] at hlength
      omega
    · rintro ⟨hone, -⟩
      obtain ⟨f, rfl⟩ := List.length_eq_one_iff.mp hone
      simp

/-- A message of one frame is handed with the marker behind it. -/
theorem a_message_of_one_frame_is_handed_with_the_marker :
    (handed_each (.start .sync_flush () () : PermessageDeflate .inert)
        [⟨true, true, false, false, 1, none, [72]⟩]).flatten =
        [⟨true, true, false, false, 1, none, [72]⟩].flatMap lib.rfc6455.Frame.payload ++
          flush_marker ↔
    [(⟨true, true, false, false, 1, none, [72]⟩ : lib.rfc6455.Frame)].length = 1 ∧
      (.start .sync_flush () () : PermessageDeflate .inert).inbound_compressed_ ≠ some false := by
  have hrun : (handed_each (.start .sync_flush () () : PermessageDeflate .inert)
      [⟨true, true, false, false, 1, none, [72]⟩]).length = 1 := by
    rw [handed_each]
    split
    · rfl
    · split <;> rfl
  refine the_marker_is_at_the_end_only_iff_the_message_is_one_frame ⟨?_, ?_, ?_⟩ ?_ _ hrun
  · exact ⟨_, [], rfl, .inl rfl, rfl, by simp⟩
  · simp
  · simp
  · simp

/-- A text in two frames is handed with a marker in the middle. -/
theorem a_marker_is_handed_in_the_middle_of_a_message :
    (handed_each (.start .sync_flush () () : PermessageDeflate .inert)
        [⟨false, true, false, false, 1, none, [0xF2, 0x48, 0xCD]⟩,
          ⟨true, false, false, false, 0, none, [0xC9, 0xC9, 0x07, 0x00]⟩]).flatten ≠
      [⟨false, true, false, false, 1, none, [0xF2, 0x48, 0xCD]⟩,
          ⟨true, false, false, false, 0, none, [0xC9, 0xC9, 0x07, 0x00]⟩].flatMap
        lib.rfc6455.Frame.payload ++ flush_marker := by
  decide

end proxy.websocket.protocol
