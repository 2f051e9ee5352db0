-- The parser of frames with its four segments in the memory of their stream
-- buffers, when no extension is negotiated. What it does is what the parser over
-- lists does, so its frames do not depend on how its input is divided.
import Aether.Util.StreamSegment
import Aether.Websocket.FrameChunks

open util.buffer util.bytes

namespace proxy.websocket.protocol

open extensions lib.resumable

variable {z : Zlib}

/-- The segments of `frame_parser`. -/
structure Segments where
  header_segment_ : StreamSegment
  payload_length_segment_ : StreamSegment
  mask_key_segment_ : StreamSegment
  payload_segment_ : StreamSegment
  deriving DecidableEq, Repr

def Segments.new : Segments := ⟨.new, .new, .new, .new⟩

/-- What a stage leaves. The parser in it is all of the parser but its segments. -/
structure SegmentedStage (z : Zlib) where
  segments : Segments
  stage : Stage z

def SegmentedStage.bind (s : SegmentedStage z)
    (next : Segments → FrameParser z → List UInt8 → SegmentedStage z) : SegmentedStage z :=
  match s.stage with
  | .go fp inp => next s.segments fp inp
  | .stop call => ⟨s.segments, .stop call⟩

namespace segmented

/-- `if (!segment.read_up_to_bytes(in, bytes)) return std::nullopt;`. -/
def read_segment (segment : StreamSegment) (bytes : Nat) (inp : List UInt8)
    (hold : StreamSegment → Segments) (fp : FrameParser z)
    (next : StreamSegment → List UInt8 → SegmentedStage z) : SegmentedStage z :=
  match segment.read_up_to_bytes inp bytes with
  | .error e => ⟨hold segment, .stop ⟨fp, inp, .error e⟩⟩
  | .ok (segment, inp) =>
    if !segment.is_complete_ then ⟨hold segment, .stop ⟨fp, inp, .more⟩⟩ else next segment inp

def parse_header (segs : Segments) (fp : FrameParser z) (inp : List UInt8) : SegmentedStage z :=
  if fp.state_ ≠ .header then ⟨segs, .go fp inp⟩
  else
    read_segment segs.header_segment_ 2 inp (fun seg => { segs with header_segment_ := seg }) fp
      fun segment inp =>
        match segment.committed_data with
        | first_byte :: second_byte :: _ =>
          ⟨{ segs with header_segment_ := segment.reset },
            check_header fp inp first_byte second_byte⟩
        | _ => ⟨{ segs with header_segment_ := segment }, .stop ⟨fp, inp, .error .undefined⟩⟩

def parse_extended_length (bytes most : Nat) (segs : Segments) (fp : FrameParser z)
    (inp : List UInt8) : SegmentedStage z :=
  read_segment segs.payload_length_segment_ bytes inp
    (fun seg => { segs with payload_length_segment_ := seg }) fp
    fun segment inp =>
      let payload_length := parse_network_byte_order bytes segment.committed_data
      let fp := { fp with
        current_frame_ := { fp.current_frame_ with payload_length := payload_length } }
      ⟨{ segs with payload_length_segment_ := segment.reset },
        if payload_length ≤ most then
          stop_invalid fp inp "Payload length did not encode with minimum bytes"
        else .go fp inp⟩

def parse_payload_length (segs : Segments) (fp : FrameParser z) (inp : List UInt8) :
    SegmentedStage z :=
  if fp.state_ ≠ .payload_length then ⟨segs, .go fp inp⟩
  else
    let length :=
      if fp.current_frame_.payload_length = 126 then parse_extended_length 2 125 segs fp inp
      else if fp.current_frame_.payload_length = 127 then
        (parse_extended_length 8 65535 segs fp inp).bind fun segs fp inp =>
          ⟨segs, check_msb fp inp⟩
      else ⟨segs, .go fp inp⟩
    length.bind fun segs fp inp => ⟨segs, check_mask fp inp⟩

def parse_mask_key (segs : Segments) (fp : FrameParser z) (inp : List UInt8) : SegmentedStage z :=
  if fp.state_ ≠ .mask_key then ⟨segs, .go fp inp⟩
  else if !fp.current_frame_.mask_bit then ⟨segs, .go { fp with state_ := .payload } inp⟩
  else
    read_segment segs.mask_key_segment_ 4 inp (fun seg => { segs with mask_key_segment_ := seg }) fp
      fun segment inp =>
        let mask_key := parse_network_byte_order 8 segment.committed_data % 2 ^ 32
        ⟨{ segs with mask_key_segment_ := segment.reset },
          .go { fp with
            current_frame_ := { fp.current_frame_ with mask_key := mask_key }
            state_ := .payload } inp⟩

/-- The payload is consumed where it is processed, by the mask or by the move to the frame, so that
the reset finds nothing; without either it would consume it. -/
def parse_payload (segs : Segments) (fp : FrameParser z) (inp : List UInt8) : SegmentedStage z :=
  if fp.state_ ≠ .payload then ⟨segs, .go fp inp⟩
  else
    read_segment segs.payload_segment_ fp.current_frame_.payload_length inp
      (fun seg => { segs with payload_segment_ := seg }) fp
      fun segment inp =>
        ⟨{ segs with payload_segment_ := segment.reset },
          process_payload { fp with payload_segment_ := ⟨true, segment.committed_data, []⟩ } inp⟩

/-- `frame_parser::parse`. -/
def parse (segs : Segments) (fp : FrameParser z) (inp : List UInt8) : SegmentedStage z :=
  (((parse_header segs fp inp).bind parse_payload_length).bind parse_mask_key).bind parse_payload

end segmented

/-- A parser and its segments. -/
structure SegmentedParser (z : Zlib) where
  segments : Segments
  parser : FrameParser z

def SegmentedParser.new (destination : Endpoint) (generator : Nat → UInt32) : SegmentedParser z :=
  ⟨.new, .new destination [] generator⟩

/-- One call of `parse`. -/
def segmented_step (sp : SegmentedParser z) (inp : List UInt8) :
    Call (SegmentedParser z) UInt8 Halt Frame :=
  let s := segmented.parse sp.segments sp.parser inp
  let call := s.stage.call
  { state := ⟨s.segments, call.parser⟩
    rest := call.input
    outcome :=
      match call.parsed with
      | .error e => .halt (.inl e)
      | .close code => .halt (.inr code)
      | .more => .more
      | .frame frame => .item frame }

/-! ## What the segments hold -/

/-- The parser less its segments. -/
def forget (fp : FrameParser z) : FrameParser z :=
  { fp with
    header_segment_ := .new
    payload_length_segment_ := .new
    mask_key_segment_ := .new
    payload_segment_ := .new }

/-- The segments hold in memory what those of the parser over lists do, with room for what they are
read towards. -/
structure Held (segs : Segments) (fp : FrameParser z) : Prop where
  header : Mirrors segs.header_segment_ fp.header_segment_
  payload_length : Mirrors segs.payload_length_segment_ fp.payload_length_segment_
  mask_key : Mirrors segs.mask_key_segment_ fp.mask_key_segment_
  payload : Mirrors segs.payload_segment_ fp.payload_segment_
  header_room : Roomy 2 segs.header_segment_
  length_room : fp.state_ = .payload_length →
    (fp.current_frame_.payload_length = 126 → Roomy 2 segs.payload_length_segment_) ∧
      (fp.current_frame_.payload_length = 127 → Roomy 8 segs.payload_length_segment_)
  mask_room : Roomy 4 segs.mask_key_segment_
  payload_room : fp.state_ = .payload →
    Roomy fp.current_frame_.payload_length segs.payload_segment_
  small : fp.state_ ≠ .header → fp.current_frame_.payload_length < 2 ^ 31

/-- A stage in memory comes to what the stage over lists does. After an error or a close the parser
is not called again. -/
inductive Same : SegmentedStage z → Stage z → Prop where
  | go {segs : Segments} {fp fp' : FrameParser z} {inp : List UInt8} (h : Held segs fp)
    (hf : fp' = forget fp) : Same ⟨segs, .go fp' inp⟩ (.go fp inp)
  | stop {segs : Segments} {fp fp' : FrameParser z} {inp : List UInt8} {p : Parsed}
    (h : Held segs fp) (hf : fp' = forget fp) :
    Same ⟨segs, .stop ⟨fp', inp, p⟩⟩ (.stop ⟨fp, inp, p⟩)
  | halt {segs : Segments} {fp fp' : FrameParser z} {inp : List UInt8} {p : Parsed}
    (hm : p ≠ .more) (hf : ∀ f, p ≠ .frame f) :
    Same ⟨segs, .stop ⟨fp', inp, p⟩⟩ (.stop ⟨fp, inp, p⟩)

theorem Same.bind {ss : SegmentedStage z} {s : Stage z}
    {next' : Segments → FrameParser z → List UInt8 → SegmentedStage z}
    {next : FrameParser z → List UInt8 → Stage z} (h : Same ss s)
    (hn : ∀ {segs fp inp}, s = .go fp inp → Held segs fp →
      Same (next' segs (forget fp) inp) (next fp inp)) :
    Same (ss.bind next') (s.bind next) := by
  cases h with
  | go h hf =>
    subst hf
    exact hn rfl h
  | stop h hf => exact .stop h hf
  | halt hm hf => exact .halt hm hf

theorem Same.error {segs : Segments} {fp fp' : FrameParser z} {inp : List UInt8} {e : Error} :
    Same ⟨segs, .stop ⟨fp', inp, .error e⟩⟩ (.stop ⟨fp, inp, .error e⟩) :=
  .halt (by simp) (by simp)

theorem Same.ite {segs : Segments} {s s' t t' : Stage z} {c : Prop} [Decidable c]
    (h : Same ⟨segs, s⟩ t) (h' : Same ⟨segs, s'⟩ t') :
    Same ⟨segs, if c then s else s'⟩ (if c then t else t') := by
  split
  · exact h
  · exact h'

theorem Roomy.of_mirrors_new {m : StreamSegment} {s : BufferSegment} (h : Mirrors m s)
    (hs : s = .new) (bytes : Nat) : Roomy bytes m := by
  left
  rw [h.count, hs]
  rfl

theorem held_new (destination : Endpoint) (generator : Nat → UInt32) :
    Held .new (FrameParser.new destination [] generator : FrameParser z) where
  header := mirrors_new
  payload_length := mirrors_new
  mask_key := mirrors_new
  payload := mirrors_new
  header_room := .inl rfl
  length_room h := by cases h
  mask_room := .inl rfl
  payload_room h := by cases h
  small h := absurd rfl h

/-- A read in memory and the read over lists. -/
theorem same_read_segment {m : StreamSegment} {s : BufferSegment} {bytes : Nat} {fp : FrameParser z}
    {hold' : StreamSegment → Segments} {hold : BufferSegment → FrameParser z}
    {next' : StreamSegment → List UInt8 → SegmentedStage z}
    {next : BufferSegment → List UInt8 → Stage z} (hm : Mirrors m s) (hr : Roomy bytes m)
    (hs : Ready s bytes) (hb : bytes < 2 ^ 31) (hfp : ∀ s', forget (hold s') = fp)
    (hmore : ∀ {m' s'}, Mirrors m' s' → Roomy bytes m' → Held (hold' m') (hold s'))
    (hnext : ∀ {m' s'} inp, Mirrors m' s' → s'.committed.length = bytes →
      Same (next' m' inp) (next s' inp)) (inp : List UInt8) :
    Same (segmented.read_segment m bytes inp hold' fp next')
      (read_segment s bytes inp hold next) := by
  obtain ⟨m', s', rest, hread', hread, hm', hr'⟩ := hm.read_up_to_bytes hr hs hb inp
  unfold segmented.read_segment read_segment
  rw [hread', hread]
  simp only [hm'.complete]
  rcases hc : s'.is_complete_ with _ | _
  · simp only [Bool.not_false, if_true, ← hfp s']
    exact .stop (hmore hm' (hr' hc)) rfl
  · simp only [Bool.not_true, Bool.false_eq_true, if_false]
    exact hnext rest hm' (BufferSegment.read_complete_length hs hb hread hc)

/-! ## The four stages -/

theorem same_check_header {segs : Segments} {fp : FrameParser z} (hh : Held segs fp)
    (hnew : fp.payload_length_segment_ = .new) (inp : List UInt8) (b0 b1 : UInt8) :
    Same ⟨segs, check_header (forget fp) inp b0 b1⟩ (check_header fp inp b0 b1) := by
  refine .ite .error (.ite .error (.ite .error (.ite .error ?_)))
  refine .go ?_ rfl
  refine ⟨hh.header, hh.payload_length, hh.mask_key, hh.payload, hh.header_room, ?_,
    hh.mask_room, ?_, ?_⟩
  · intro _
    have hroom := Roomy.of_mirrors_new hh.payload_length hnew
    exact ⟨fun _ => hroom 2, fun _ => hroom 8⟩
  · intro h
    cases h
  · intro _
    have hmod : b1.toNat &&& 0x7F = b1.toNat % 2 ^ 7 := Nat.and_two_pow_sub_one_eq_mod _ 7
    simp only [hmod]
    omega

theorem same_parse_header {segs : Segments} {fp : FrameParser z} (hh : Held segs fp)
    (ht : Tidy fp) (inp : List UInt8) :
    Same (segmented.parse_header segs (forget fp) inp) (parse_header fp inp) := by
  unfold segmented.parse_header parse_header
  by_cases hs : fp.state_ = .header
  · have hnew : fp.payload_length_segment_ = .new := by
      rcases ht.payload_length with h | ⟨h, -⟩
      · exact h
      · rw [hs] at h
        cases h
    rw [if_neg (by simp [forget, hs]), if_neg (by simp [hs])]
    refine same_read_segment hh.header hh.header_room (.inr ht.header) (by decide) ?_ ?_ ?_ inp
    · intro s'
      rfl
    · intro m' s' hm' hr'
      exact ⟨hm', hh.payload_length, hh.mask_key, hh.payload, hr', hh.length_room, hh.mask_room,
        hh.payload_room, hh.small⟩
    · intro m' s' inp hm' _
      simp only [hm'.committed]
      have hheld : Held { segs with header_segment_ := m'.reset }
          { fp with header_segment_ := s'.reset } :=
        ⟨hm'.reset, hh.payload_length, hh.mask_key, hh.payload, .inl rfl, hh.length_room,
          hh.mask_room, hh.payload_room, hh.small⟩
      rcases s'.committed with _ | ⟨b0, _ | ⟨b1, rest⟩⟩
      · exact .error
      · exact .error
      · exact same_check_header hheld hnew inp b0 b1
  · rw [if_pos hs, if_pos (by simpa [forget] using hs)]
    exact .go hh rfl

theorem Stage.bind_assoc (s : Stage z) (t u : FrameParser z → List UInt8 → Stage z) :
    (s.bind t).bind u = s.bind fun fp inp => (t fp inp).bind u := by
  cases s <;> rfl

theorem SegmentedStage.bind_assoc (s : SegmentedStage z)
    (t u : Segments → FrameParser z → List UInt8 → SegmentedStage z) :
    (s.bind t).bind u = s.bind fun segs fp inp => (t segs fp inp).bind u := by
  rcases s with ⟨segs, _ | _⟩ <;> rfl

theorem read_segment_bind {s : BufferSegment} {bytes : Nat} {inp : List UInt8}
    {hold : BufferSegment → FrameParser z} {next : BufferSegment → List UInt8 → Stage z}
    (t : FrameParser z → List UInt8 → Stage z) :
    (read_segment s bytes inp hold next).bind t =
      read_segment s bytes inp hold fun s inp => (next s inp).bind t := by
  unfold read_segment
  split
  · rfl
  · split <;> rfl

theorem segmented_read_segment_bind {m : StreamSegment} {bytes : Nat} {inp : List UInt8}
    {fp : FrameParser z} {hold : StreamSegment → Segments}
    {next : StreamSegment → List UInt8 → SegmentedStage z}
    (t : Segments → FrameParser z → List UInt8 → SegmentedStage z) :
    (segmented.read_segment m bytes inp hold fp next).bind t =
      segmented.read_segment m bytes inp hold fp fun m inp => (next m inp).bind t := by
  unfold segmented.read_segment
  split
  · rfl
  · split <;> rfl

/-- An extended length, and what is made of it. -/
theorem same_parse_extended_length {segs : Segments} {fp : FrameParser z} (hh : Held segs fp)
    {bytes : Nat} (most : Nat) (hs : fp.state_ = .payload_length)
    (hr : Ready fp.payload_length_segment_ bytes) (hb : bytes < 2 ^ 31)
    (hform : fp.current_frame_.payload_length = 126 ∧ bytes = 2 ∨
      fp.current_frame_.payload_length = 127 ∧ bytes = 8)
    {next' : Segments → FrameParser z → List UInt8 → SegmentedStage z}
    {next : FrameParser z → List UInt8 → Stage z}
    (hn : ∀ {m range} inp, Mirrors m .new → range.length = bytes →
      Same (next' { segs with payload_length_segment_ := m }
          (forget (withLength fp (parse_network_byte_order bytes range))) inp)
        (next (withLength fp (parse_network_byte_order bytes range)) inp)) (inp : List UInt8) :
    Same ((segmented.parse_extended_length bytes most segs (forget fp) inp).bind next')
      ((parse_extended_length bytes most fp inp).bind next) := by
  have hroom : Roomy bytes segs.payload_length_segment_ := by
    rcases hform with ⟨h, rfl⟩ | ⟨h, rfl⟩
    · exact (hh.length_room hs).1 h
    · exact (hh.length_room hs).2 h
  unfold segmented.parse_extended_length parse_extended_length
  rw [read_segment_bind, segmented_read_segment_bind]
  refine same_read_segment hh.payload_length hroom hr hb ?_ ?_ ?_ inp
  · intro s'
    rfl
  · intro m' s' hm' hr'
    refine ⟨hh.header, hm', hh.mask_key, hh.payload, hh.header_room, ?_, hh.mask_room,
      hh.payload_room, hh.small⟩
    intro _
    rcases hform with ⟨h, rfl⟩ | ⟨h, rfl⟩
    · exact ⟨fun _ => hr', fun h' => by simp [h] at h'⟩
    · exact ⟨fun h' => by simp [h] at h', fun _ => hr'⟩
  · intro m' s' inp hm' hlen
    simp only [hm'.committed, stop_invalid]
    split
    · exact .error
    · exact hn inp hm'.reset hlen

/-- A length that was read. -/
theorem held_length {segs : Segments} {fp : FrameParser z} (hh : Held segs fp)
    (hs : fp.state_ = .payload_length) {m : StreamSegment} (hm : Mirrors m .new) {n : Nat}
    (hn : n < 2 ^ 31) : Held { segs with payload_length_segment_ := m } (withLength fp n) := by
  have hroom := Roomy.of_mirrors_new hm rfl
  refine ⟨hh.header, hm, hh.mask_key, hh.payload, hh.header_room, ?_, hh.mask_room, ?_, ?_⟩
  · exact fun _ => ⟨fun _ => hroom 2, fun _ => hroom 8⟩
  · intro h
    rw [show fp.state_ = .payload from h] at hs
    cases hs
  · exact fun _ => hn

theorem same_check_mask {segs : Segments} {fp : FrameParser z} (hh : Held segs fp)
    (hs : fp.state_ = .payload_length) (inp : List UInt8) :
    Same ⟨segs, check_mask (forget fp) inp⟩ (check_mask fp inp) := by
  have hsmall := hh.small (by simp [hs])
  have hexts : (forget fp).extensions_ = fp.extensions_ := rfl
  have hframe : (forget fp).current_frame_ = fp.current_frame_ := rfl
  have hdest : (forget fp).destination_ = fp.destination_ := rfl
  unfold check_mask
  simp only [hexts, hframe, hdest]
  rcases (run_header_hooks fp.current_frame_.toFrameHeader fp.extensions_).2 with _ | code
  · refine .ite .error (.ite .error ?_)
    refine .go ?_ rfl
    refine ⟨hh.header, hh.payload_length, hh.mask_key, hh.payload, hh.header_room, ?_,
      hh.mask_room, ?_, fun _ => hsmall⟩
    · intro h
      cases h
    · intro h
      cases h
  · exact .halt (by simp) (by simp)

theorem check_msb_clear {fp : FrameParser z} (h : fp.current_frame_.payload_length < 2 ^ 63)
    (inp : List UInt8) : check_msb fp inp = .go fp inp := by
  unfold check_msb
  rw [Nat.shiftRight_eq_div_pow, Nat.div_eq_of_lt h]
  rfl

theorem check_msb_set {fp : FrameParser z} (h : 2 ^ 63 ≤ fp.current_frame_.payload_length)
    (inp : List UInt8) : check_msb fp inp =
      stop_invalid fp inp "MSB must be 0 when using eight-byte payload length" := by
  have hpos : 0 < fp.current_frame_.payload_length / 2 ^ 63 := Nat.div_pos h (by decide)
  unfold check_msb
  rw [Nat.shiftRight_eq_div_pow, if_pos (Nat.ne_of_gt hpos)]

theorem same_parse_payload_length {segs : Segments} {fp : FrameParser z} (hh : Held segs fp)
    (ht : Tidy fp) (inp : List UInt8) :
    Same (segmented.parse_payload_length segs (forget fp) inp) (parse_payload_length fp inp) := by
  unfold segmented.parse_payload_length parse_payload_length
  by_cases hs : fp.state_ = .payload_length
  swap
  · rw [if_pos hs, if_pos (by simpa [forget] using hs)]
    exact .go hh rfl
  have hopen : ¬ fp.state_ ≠ .payload_length := not_not_intro hs
  have hopen' : ¬ (forget fp).state_ ≠ .payload_length := hopen
  have hlength : (forget fp).current_frame_.payload_length = fp.current_frame_.payload_length := rfl
  rw [if_neg hopen, if_neg hopen']
  simp only [hlength]
  by_cases h126 : fp.current_frame_.payload_length = 126
  · have hr : Ready fp.payload_length_segment_ 2 := by
      rcases ht.payload_length with h | ⟨-, ⟨-, h⟩ | ⟨h, -⟩⟩
      · exact .inl h
      · exact .inr h
      · rw [h126] at h
        cases h
    rw [if_pos h126, if_pos h126]
    refine same_parse_extended_length hh 125 hs hr (by decide) (.inl ⟨h126, rfl⟩) ?_ inp
    intro m range inp hm hlen
    have hlt := lib.big_endian.ofBigEndian_lt range
    rw [hlen] at hlt
    have hsmall : parse_network_byte_order 2 range < 2 ^ 31 := by
      rw [parse_two hlen]
      omega
    exact same_check_mask (held_length hh hs hm hsmall) hs inp
  rw [if_neg h126, if_neg h126]
  by_cases h127 : fp.current_frame_.payload_length = 127
  · have hr : Ready fp.payload_length_segment_ 8 := by
      rcases ht.payload_length with h | ⟨-, ⟨h, -⟩ | ⟨-, h⟩⟩
      · exact .inl h
      · rw [h127] at h
        cases h
      · exact .inr h
    rw [if_pos h127, if_pos h127, Stage.bind_assoc, SegmentedStage.bind_assoc]
    refine same_parse_extended_length hh 65535 hs hr (by decide) (.inr ⟨h127, rfl⟩) ?_ inp
    intro m range inp hm hlen
    rcases parse_network_byte_order_gap 8 range with hsmall | hlarge
    · rw [check_msb_clear (by exact Nat.lt_trans hsmall (by decide)),
        check_msb_clear (by exact Nat.lt_trans hsmall (by decide))]
      exact same_check_mask (held_length hh hs hm hsmall) hs inp
    · rw [check_msb_set (by exact hlarge), check_msb_set (by exact hlarge)]
      exact .error
  · rw [if_neg h127, if_neg h127]
    exact same_check_mask hh hs inp

theorem same_parse_mask_key {segs : Segments} {fp : FrameParser z} (hh : Held segs fp)
    (ht : Tidy fp) (inp : List UInt8) :
    Same (segmented.parse_mask_key segs (forget fp) inp) (parse_mask_key fp inp) := by
  unfold segmented.parse_mask_key parse_mask_key
  by_cases hs : fp.state_ = .mask_key
  swap
  · rw [if_pos hs, if_pos (by simpa [forget] using hs)]
    exact .go hh rfl
  have hopen : ¬ fp.state_ ≠ .mask_key := not_not_intro hs
  have hopen' : ¬ (forget fp).state_ ≠ .mask_key := hopen
  have hbit : (forget fp).current_frame_.mask_bit = fp.current_frame_.mask_bit := rfl
  have hsmall := hh.small (by simp [hs])
  have hroom : Roomy fp.current_frame_.payload_length segs.payload_segment_ := by
    rcases ht.payload with h | ⟨h, -⟩
    · exact Roomy.of_mirrors_new hh.payload h _
    · rw [hs] at h
      cases h
  rw [if_neg hopen, if_neg hopen']
  simp only [hbit]
  rcases hm : fp.current_frame_.mask_bit with _ | _
  · rw [if_pos (by decide), if_pos (by decide)]
    refine .go ?_ rfl
    refine ⟨hh.header, hh.payload_length, hh.mask_key, hh.payload, hh.header_room, ?_,
      hh.mask_room, fun _ => hroom, fun _ => hsmall⟩
    intro h
    cases h
  · rw [if_neg (by decide), if_neg (by decide)]
    have hr : Ready fp.mask_key_segment_ 4 := by
      rcases ht.mask_key with h | ⟨-, -, h⟩
      · exact .inl h
      · exact .inr h
    refine same_read_segment hh.mask_key hh.mask_room hr (by decide) ?_ ?_ ?_ inp
    · intro s'
      rfl
    · intro m' s' hm' hr'
      exact ⟨hh.header, hh.payload_length, hm', hh.payload, hh.header_room, hh.length_room, hr',
        hh.payload_room, hh.small⟩
    · intro m' s' inp hm' _
      simp only [hm'.committed]
      refine .go ?_ rfl
      refine ⟨hh.header, hh.payload_length, hm'.reset, hh.payload, hh.header_room, ?_, .inl rfl,
        fun _ => hroom, fun _ => hsmall⟩
      intro h
      cases h

theorem same_process_payload {segs : Segments} {fp : FrameParser z} (hh : Held segs fp)
    {m : StreamSegment} {s : BufferSegment} (hm : Mirrors m s) (inp : List UInt8) :
    Same ⟨{ segs with payload_segment_ := m.reset },
        process_payload { forget fp with payload_segment_ := ⟨true, m.committed_data, []⟩ } inp⟩
      (process_payload { fp with payload_segment_ := s } inp) := by
  unfold process_payload
  simp only [forget, hm.committed]
  rcases run_payload_hooks fp.extensions_ _ with e | ⟨exts, buffers, _ | code⟩
  · exact .error
  · simp only
    rcases run_complete_hooks _ exts with ⟨exts', _ | code⟩
    · refine .stop ?_ rfl
      refine ⟨hh.header, hh.payload_length, hh.mask_key, hm.reset, hh.header_room, ?_,
        hh.mask_room, ?_, fun h => absurd rfl h⟩
      · intro h
        cases h
      · intro h
        cases h
    · exact .halt (by simp) (by simp)
  · exact .halt (by simp) (by simp)

theorem same_parse_payload {segs : Segments} {fp : FrameParser z} (hh : Held segs fp)
    (ht : Tidy fp) (inp : List UInt8) :
    Same (segmented.parse_payload segs (forget fp) inp) (parse_payload fp inp) := by
  unfold segmented.parse_payload parse_payload
  by_cases hs : fp.state_ = .payload
  swap
  · rw [if_pos hs, if_pos (by simpa [forget] using hs)]
    exact .go hh rfl
  have hopen : ¬ fp.state_ ≠ .payload := not_not_intro hs
  have hopen' : ¬ (forget fp).state_ ≠ .payload := hopen
  have hr : Ready fp.payload_segment_ fp.current_frame_.payload_length := by
    rcases ht.payload with h | ⟨-, h⟩
    · exact .inl h
    · exact .inr h
  rw [if_neg hopen, if_neg hopen']
  refine same_read_segment hh.payload (hh.payload_room hs) hr (hh.small (by simp [hs])) ?_ ?_ ?_ inp
  · intro s'
    rfl
  · intro m' s' hm' hr'
    exact ⟨hh.header, hh.payload_length, hh.mask_key, hm', hh.header_room, hh.length_room,
      hh.mask_room, fun _ => hr', hh.small⟩
  · intro m' s' inp hm' _
    exact same_process_payload hh hm' inp

/-! ## The calls -/

theorem same_parse {segs : Segments} {fp : FrameParser z} (hh : Held segs fp) (ht : Tidy fp)
    (inp : List UInt8) : Same (segmented.parse segs (forget fp) inp) (stages fp inp) := by
  unfold segmented.parse stages
  refine Same.bind (Same.bind (Same.bind (same_parse_header hh ht inp) ?_) ?_) ?_
  · intro segs1 fp1 r1 h1 hh1
    exact same_parse_payload_length hh1 (parse_header_go_tidy ht h1).1 r1
  · intro segs2 fp2 r2 h2 hh2
    obtain ⟨fp1, r1, h1, h2⟩ := bind_go h2
    have ht1 := parse_header_go_tidy ht h1
    exact same_parse_mask_key hh2 (parse_payload_length_go_tidy ht1.1 ht1.2 h2).1 r2
  · intro segs3 fp3 r3 h3 hh3
    obtain ⟨fp2, r2, h2, h3⟩ := bind_go h3
    obtain ⟨fp1, r1, h1, h2⟩ := bind_go h2
    have ht1 := parse_header_go_tidy ht h1
    have ht2 := parse_payload_length_go_tidy ht1.1 ht1.2 h2
    exact same_parse_payload hh3 (parse_mask_key_go_tidy ht2.1 ht2.2 h3).1 r3

/-- A parser in memory in the place of one over lists. -/
structure Follows (sp : SegmentedParser z) (fp : FrameParser z) : Prop where
  held : Held sp.segments fp
  tidy : Tidy fp
  rest : sp.parser = forget fp

theorem follows_new (destination : Endpoint) (generator : Nat → UInt32) :
    Follows (SegmentedParser.new destination generator : SegmentedParser z)
      (.new destination [] generator) :=
  ⟨held_new destination generator, tidy_new _ _ _, rfl⟩

/-- What a call in memory leaves, beside the call over lists. -/
theorem segmented_step_eq {sp : SegmentedParser z} {fp : FrameParser z} (hf : Follows sp fp)
    (inp : List UInt8) :
    (segmented_step sp inp).outcome = (parse_step fp inp).outcome ∧
      (segmented_step sp inp).rest = (parse_step fp inp).rest ∧
      ((∀ e, (parse_step fp inp).outcome ≠ .halt e) →
        Held (segmented_step sp inp).state.segments (parse_step fp inp).state ∧
          (segmented_step sp inp).state.parser = forget (parse_step fp inp).state) := by
  have hsame := same_parse hf.held hf.tidy inp
  rw [← hf.rest, parse_stop hf.tidy] at hsame
  unfold segmented_step parse_step frame_step
  generalize segmented.parse sp.segments sp.parser inp = ss at hsame
  rcases hcall : parse fp inp with ⟨fp', r, p⟩
  rw [hcall] at hsame
  cases hsame with
  | stop hh hfp =>
    subst hfp
    refine ⟨?_, rfl, fun _ => ⟨hh, rfl⟩⟩
    cases p <;> rfl
  | halt hm hframe =>
    cases p with
    | error e => exact ⟨rfl, rfl, fun h => absurd rfl (h _)⟩
    | close code => exact ⟨rfl, rfl, fun h => absurd rfl (h _)⟩
    | more => exact absurd rfl hm
    | frame f => exact absurd rfl (hframe f)

def segmented_pending (sp : SegmentedParser z) : Nat := pending sp.parser

theorem simulates_parse_step :
    Simulates (segmented_step (z := z)) segmented_pending parse_step pending Follows where
  measure hf := by
    unfold segmented_pending
    rw [hf.rest]
    rfl
  outcome hf a := (segmented_step_eq hf a).1
  rest hf a := (segmented_step_eq hf a).2.1
  keeps {sp fp} hf a hn := by
    obtain ⟨hheld, hrest⟩ := (segmented_step_eq hf a).2.2 hn
    refine ⟨hheld, ?_, hrest⟩
    cases hc : (parse_step fp a).outcome with
    | more => exact resumable_parse_step.keeps_more hf.tidy hc
    | item f => exact resumable_parse_step.keeps_item hf.tidy hc
    | halt e => exact absurd hc (hn e)

/-! ## The law -/

/-- However a stream is divided, the calls after its pieces return the frames that they return for
the whole stream at once, and end with the same error or close code behind the same frame. -/
theorem the_frames_do_not_depend_on_the_division (destination : Endpoint)
    (generator : Nat → UInt32) (pieces : List (List UInt8)) :
    (feed segmented_step segmented_pending
          (SegmentedParser.new destination generator : SegmentedParser z) [] pieces).items =
        (feed segmented_step segmented_pending
          (SegmentedParser.new destination generator : SegmentedParser z) []
          [pieces.flatten]).items ∧
      (feed segmented_step segmented_pending
          (SegmentedParser.new destination generator : SegmentedParser z) [] pieces).halted =
        (feed segmented_step segmented_pending
          (SegmentedParser.new destination generator : SegmentedParser z) []
          [pieces.flatten]).halted := by
  have hidle : Idle (FrameParser.new destination [] generator : FrameParser z) := idle_new _ _ _
  have hfollows := follows_new (z := z) destination generator
  -- Over lists, any pieces come to what the stream does.
  obtain ⟨hi, he⟩ := feed_parse_step hidle pieces
  obtain ⟨hi', he'⟩ := feed_parse_step hidle [pieces.flatten]
  obtain ⟨hs, hse⟩ := feed_simulates simulates_parse_step hfollows [] pieces
  obtain ⟨hs', hse'⟩ := feed_simulates simulates_parse_step hfollows [] [pieces.flatten]
  rw [hs, hs', hse, hse', hi, hi', he, he', List.flatten_singleton]
  exact ⟨rfl, rfl⟩

end proxy.websocket.protocol
