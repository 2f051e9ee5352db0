-- Control frames between the fragments of a message: the parser takes the next
-- frame of a message in progress for a fragment of it, whatever it is.
import Aether.Websocket.FrameHeaders

namespace proxy.websocket.protocol

open extensions

variable {z : Zlib}

/-! ## A message with control frames in it -/

/-- A ping, pong or close frame that is legal by itself. -/
structure LegalControl (f : lib.rfc6455.Frame) : Prop where
  opcode : f.opcode = 8 ∨ f.opcode = 9 ∨ f.opcode = 10
  fin : f.fin = true
  short : f.payload.length ≤ 125

/-- What may come after the first fragment of a message: the other fragments, the last one with FIN,
and control frames before any of them. -/
inductive Continues : List lib.rfc6455.Frame → Prop
  | last (f : lib.rfc6455.Frame) : f.opcode = 0 → f.fin = true → Continues [f]
  | fragment (f : lib.rfc6455.Frame) {fs : List lib.rfc6455.Frame} :
      f.opcode = 0 → f.fin = false → Continues fs → Continues (f :: fs)
  | control (f : lib.rfc6455.Frame) {fs : List lib.rfc6455.Frame} :
      LegalControl f → Continues fs → Continues (f :: fs)

/-- A text or binary message in two fragments or more, with control frames anywhere between them. -/
inductive FragmentedMessage : List lib.rfc6455.Frame → Prop
  | mk (f : lib.rfc6455.Frame) {fs : List lib.rfc6455.Frame} :
      f.opcode = 1 ∨ f.opcode = 2 → f.fin = false → Continues fs → FragmentedMessage (f :: fs)

theorem LegalControl.isControl {f : lib.rfc6455.Frame} (h : LegalControl f) :
    f.isControl = true := by
  unfold lib.rfc6455.Frame.isControl
  rcases h.opcode with ho | ho | ho <;> rw [ho] <;> rfl

theorem isControl_of_zero {f : lib.rfc6455.Frame} (h : f.opcode = 0) : f.isControl = false := by
  unfold lib.rfc6455.Frame.isControl
  rw [h]
  rfl

theorem isControl_of_first {f : lib.rfc6455.Frame} (h : f.opcode = 1 ∨ f.opcode = 2) :
    f.isControl = false := by
  unfold lib.rfc6455.Frame.isControl
  rcases h with h | h <;> rw [h] <;> rfl

/-! ## What the parser returns for it -/

/-- The parser returns every frame in order, as it is, and no control frame changes what opcode is
expected next. -/
def ReturnsAll : FrameParser z → List lib.rfc6455.Frame → List UInt8 → Prop
  | _, [], _ => True
  | fp, f :: fs, rest =>
    let call := parse fp (lib.rfc6455.encode f ++ (lib.rfc6455.encodeAll fs ++ rest))
    (∃ g, call.parsed = .frame g ∧ IsFrame g f) ∧
      call.input = lib.rfc6455.encodeAll fs ++ rest ∧
      (f.isControl = true → call.parser.effective_opcode_in_ = fp.effective_opcode_in_) ∧
      ReturnsAll call.parser fs rest

/-- The checks of a header for a data frame. -/
theorem headerTaken_data {expected : Option Opcode} {f : lib.rfc6455.Frame}
    (h : f.isControl = false) (ho : expected.isSome = true → f.opcode = 0) :
    HeaderTaken expected f.head := by
  refine ⟨?_, ?_⟩
  · intro hc
    rw [lib.rfc6455.Frame.head_isControl, h] at hc
    cases hc
  · rw [lib.rfc6455.Frame.head_opcode]
    exact ho

/-- Inside of a message, a control frame is refused. -/
theorem not_headerTaken_control {expected : Option Opcode} {f : lib.rfc6455.Frame}
    (h : LegalControl f) (he : expected.isSome = true) : ¬ HeaderTaken expected f.head := by
  intro ht
  have h0 := ht.2 he
  rw [lib.rfc6455.Frame.head_opcode] at h0
  rcases h.opcode with ho | ho | ho <;> rw [ho] at h0 <;> cases h0

/-- After a fragment that is not the last, a continuation is expected. -/
theorem Reads.expects {fp : FrameParser z} {f : lib.rfc6455.Frame} {payload rest : List UInt8}
    {call : ParseCall z} (hr : Reads fp f.head payload rest call) (hc : f.isControl = false)
    (hfin : f.fin = false) : call.parser.effective_opcode_in_.isSome = true := by
  have hcontrol : is_control (Opcode.cast f.opcode) = false := (is_control_cast f.opcode).trans hc
  rw [hr.expected, lib.rfc6455.Frame.head_opcode, lib.rfc6455.Frame.head_fin]
  unfold effective_opcode
  rw [if_neg (by simp [hcontrol]), if_neg (by simp [hfin])]
  split <;> rfl

/-- One data frame of a message: it is returned, and the rest of the message comes after it. -/
theorem returnsAll_data {fp : FrameParser z} (hs : Steady fp) {f : lib.rfc6455.Frame}
    {fs : List lib.rfc6455.Frame} (hf : Unextended fp.destination_ f) (hc : f.isControl = false)
    (ho : fp.effective_opcode_in_.isSome = true → f.opcode = 0) (rest : List UInt8) :
    ReturnsAll fp (f :: fs) rest ↔ f.payload.length < 2 ^ 31 ∧
      ReturnsAll (parse fp (lib.rfc6455.encode f ++ (lib.rfc6455.encodeAll fs ++ rest))).parser
        fs rest := by
  constructor
  · rintro ⟨⟨g, hg, hframe⟩, -, -, hlater⟩
    exact ⟨(returned_taken hs hf hg hframe).2, hlater⟩
  · rintro ⟨hn, hlater⟩
    have hr := reads_encode hs hf (headerTaken_data hc ho) hn (lib.rfc6455.encodeAll fs ++ rest)
    refine ⟨hr.isFrame hs, hr.input, ?_, hlater⟩
    intro h
    rw [hc] at h
    cases h

theorem continues_returns_iff {fs : List lib.rfc6455.Frame} (hm : Continues fs) (rest : List UInt8)
    {fp : FrameParser z} (hs : Steady fp) (he : fp.effective_opcode_in_.isSome = true)
    (hf : ∀ f ∈ fs, Unextended fp.destination_ f) :
    ReturnsAll fp fs rest ↔
      (∀ f ∈ fs, f.isControl = false) ∧ ∀ f ∈ fs, f.payload.length < 2 ^ 31 := by
  induction hm generalizing fp with
  | last f h0 hfin =>
    have hc := isControl_of_zero h0
    rw [returnsAll_data hs (hf f (List.mem_singleton_self f)) hc fun _ => h0]
    simp [ReturnsAll, hc]
  | @fragment f fs h0 hfin _ ih =>
    have hc := isControl_of_zero h0
    have hff := hf f (List.mem_cons_self ..)
    rw [returnsAll_data hs hff hc fun _ => h0]
    simp only [List.forall_mem_cons, hc, true_and]
    by_cases hn : f.payload.length < 2 ^ 31
    · have hr := reads_encode hs hff (headerTaken_data hc fun _ => h0) hn
        (lib.rfc6455.encodeAll fs ++ rest)
      have hlater := ih (hr.steady hs) (hr.expects hc hfin) fun g hg => by
        rw [hr.destination]
        exact hf g (List.mem_cons_of_mem _ hg)
      rw [hlater]
      simp only [hn, true_and]
    · simp only [hn, false_and, and_false]
  | @control f fs hctl _ ih =>
    have hff := hf f (List.mem_cons_self ..)
    constructor
    · rintro ⟨⟨g, hg, hframe⟩, -⟩
      exact absurd (returned_taken hs hff hg hframe).1 (not_headerTaken_control hctl he)
    · rintro ⟨hall, -⟩
      have := hall f (List.mem_cons_self ..)
      rw [hctl.isControl] at this
      cases this

/-- The frames of a fragmented message, and the control frames between its fragments, are all
returned in order exactly when there is no control frame, and no payload of 2^31 bytes or more. -/
theorem a_fragmented_message_is_returned_iff_no_control_frame_is_in_it {fp : FrameParser z}
    (hs : Steady fp) (hb : fp.effective_opcode_in_ = none) {fs : List lib.rfc6455.Frame}
    (hm : FragmentedMessage fs) (hf : ∀ f ∈ fs, Unextended fp.destination_ f) (rest : List UInt8) :
    ReturnsAll fp fs rest ↔
      (∀ f ∈ fs, f.isControl = false) ∧ ∀ f ∈ fs, f.payload.length < 2 ^ 31 := by
  obtain @⟨f, fs, hfirst, hfin, hrest⟩ := hm
  have hc := isControl_of_first hfirst
  have hff := hf f (List.mem_cons_self ..)
  have hnone : fp.effective_opcode_in_.isSome = true → f.opcode = 0 := by
    intro h
    rw [hb] at h
    cases h
  rw [returnsAll_data hs hff hc hnone]
  simp only [List.forall_mem_cons, hc, true_and]
  by_cases hn : f.payload.length < 2 ^ 31
  · have hr := reads_encode hs hff (headerTaken_data hc hnone) hn
      (lib.rfc6455.encodeAll fs ++ rest)
    have hlater := continues_returns_iff hrest rest (hr.steady hs) (hr.expects hc hfin)
      fun g hg => by
        rw [hr.destination]
        exact hf g (List.mem_cons_of_mem _ hg)
    rw [hlater]
    simp only [hn, true_and]
  · simp only [hn, false_and, and_false]

/-- A text in two fragments, towards a server. -/
theorem an_uninterrupted_text_is_returned :
    ReturnsAll (FrameParser.new .server [] (fun _ => 0) : FrameParser .inert)
        [⟨false, false, false, false, 1, some ⟨1, 2, 3, 4⟩, [72]⟩,
          ⟨true, false, false, false, 0, some ⟨5, 6, 7, 8⟩, [105]⟩] [] ↔
      (∀ f ∈ ([⟨false, false, false, false, 1, some ⟨1, 2, 3, 4⟩, [72]⟩,
          ⟨true, false, false, false, 0, some ⟨5, 6, 7, 8⟩, [105]⟩] : List lib.rfc6455.Frame),
        f.isControl = false) ∧
      ∀ f ∈ ([⟨false, false, false, false, 1, some ⟨1, 2, 3, 4⟩, [72]⟩,
          ⟨true, false, false, false, 0, some ⟨5, 6, 7, 8⟩, [105]⟩] : List lib.rfc6455.Frame),
        f.payload.length < 2 ^ 31 := by
  refine a_fragmented_message_is_returned_iff_no_control_frame_is_in_it
    (steady_new .server (by simp) _) rfl (.mk _ (.inl rfl) rfl (.last _ rfl rfl)) ?_ []
  intro f hf
  simp only [List.mem_cons, List.not_mem_nil, or_false] at hf
  rcases hf with rfl | rfl <;> exact ⟨rfl, rfl, rfl, rfl⟩

/-- The same text with a ping between the fragments: an error at the ping. -/
theorem a_ping_between_fragments_is_an_error :
    FragmentedMessage [⟨false, false, false, false, 1, none, [72]⟩,
        ⟨true, false, false, false, 9, none, []⟩, ⟨true, false, false, false, 0, none, [105]⟩] ∧
      ¬ ReturnsAll (FrameParser.new .client [] (fun _ => 0) : FrameParser .inert)
        [⟨false, false, false, false, 1, none, [72]⟩, ⟨true, false, false, false, 9, none, []⟩,
          ⟨true, false, false, false, 0, none, [105]⟩] [] := by
  refine ⟨.mk _ (.inl rfl) rfl (.control _ ⟨.inr (.inl rfl), rfl, by decide⟩ (.last _ rfl rfl)), ?_⟩
  rintro ⟨-, -, -, ⟨g, hg, -⟩, -⟩
  have herror : Parsed.frame g =
      .error (proxy_error .invalid_frame "Expected a fragmented continuation frame") :=
    hg.symm.trans (by decide)
  cases herror

end proxy.websocket.protocol
