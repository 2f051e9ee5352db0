-- The parser of frames may be cut anywhere: a call that stops for want of
-- input goes on where it was at the next call, and no other call looks at the
-- input it does not need.
import Aether.Websocket.FrameParser

open util.buffer util.buffer.BufferSegment util.bytes

namespace proxy.websocket.protocol

open extensions

variable {z : Zlib}

/-! ## Stages that read nothing -/

/-- A stage that comes to the same whatever its input is, and hands the input on. -/
inductive Passes (g : List UInt8 → Stage z) : Prop where
  | go (fp : FrameParser z) (h : ∀ inp, g inp = .go fp inp)
  | stop (fp : FrameParser z) (p : Parsed) (hp : p ≠ .more) (h : ∀ inp, g inp = .stop ⟨fp, inp, p⟩)

theorem passes_ite {c : Prop} [Decidable c] {g g' : List UInt8 → Stage z} (h : Passes g)
    (h' : Passes g') : Passes (fun inp => if c then g inp else g' inp) := by
  by_cases hc : c
  · simpa only [hc, if_true] using h
  · simpa only [hc, if_false] using h'

theorem passes_invalid (fp : FrameParser z) (message : String) :
    Passes (fun inp => stop_invalid fp inp message) :=
  .stop fp _ (by simp) (fun _ => rfl)

theorem passes_check_header (fp : FrameParser z) (b0 b1 : UInt8) :
    Passes (fun inp => check_header fp inp b0 b1) := by
  unfold check_header
  refine passes_ite (passes_invalid _ _) (passes_ite (passes_invalid _ _) (passes_ite
    (passes_invalid _ _) (passes_ite (passes_invalid _ _) ?_)))
  exact .go _ (fun _ => rfl)

theorem passes_check_msb (fp : FrameParser z) : Passes (check_msb fp) := by
  unfold check_msb
  exact passes_ite (passes_invalid _ _) (.go _ (fun _ => rfl))

theorem passes_check_mask (fp : FrameParser z) : Passes (check_mask fp) := by
  unfold check_mask
  simp only
  rcases hooks : (run_header_hooks fp.current_frame_.toFrameHeader fp.extensions_).2 with _ | code
  · exact passes_ite (passes_invalid _ _) (passes_ite (passes_invalid _ _) (.go _ (fun _ => rfl)))
  · exact .stop _ _ (by simp) (fun _ => rfl)

theorem passes_process_payload (fp : FrameParser z) : Passes (process_payload fp) := by
  unfold process_payload
  simp only
  rcases run_payload_hooks fp.extensions_ _ with e | ⟨exts, buffers, _ | code⟩
  · exact .stop _ _ (by simp) (fun _ => rfl)
  · simp only
    rcases run_complete_hooks _ exts with ⟨exts', _ | code⟩
    · exact .stop _ _ (by simp) (fun _ => rfl)
    · exact .stop _ _ (by simp) (fun _ => rfl)
  · exact .stop _ _ (by simp) (fun _ => rfl)

/-! ## Stages that may be cut -/

/-- What a reader that may be cut must do, for one stage: `Waits` holds of the parsers that want
more, and `resume` is the stage that goes on from them. -/
structure Cut (g : List UInt8 → Stage z) (Waits : FrameParser z → Prop)
    (resume : FrameParser z → List UInt8 → Stage z) : Prop where
  go : ∀ {a fp r}, g a = .go fp r → r.length ≤ a.length ∧ ∀ b, g (a ++ b) = .go fp (r ++ b)
  stop : ∀ {a fp r p}, g a = .stop ⟨fp, r, p⟩ → p ≠ .more →
    r.length ≤ a.length ∧ ∀ b, g (a ++ b) = .stop ⟨fp, r ++ b, p⟩
  more : ∀ {a fp r}, g a = .stop ⟨fp, r, .more⟩ →
    Waits fp ∧ r = [] ∧ ∀ b, g (a ++ b) = resume fp b

theorem Cut.congr {g g' : List UInt8 → Stage z} {W : FrameParser z → Prop}
    {R : FrameParser z → List UInt8 → Stage z} (h : ∀ a, g a = g' a) (hc : Cut g' W R) :
    Cut g W R := by
  rw [funext h]
  exact hc

theorem Passes.cut {g : List UInt8 → Stage z} (h : Passes g) (W : FrameParser z → Prop)
    (R : FrameParser z → List UInt8 → Stage z) : Cut g W R := by
  cases h with
  | go fp h =>
    constructor
    · intro a fp' r hg
      rw [h] at hg
      cases hg
      exact ⟨Nat.le_refl _, fun b => h _⟩
    · intro a fp' r p hg
      rw [h] at hg
      cases hg
    · intro a fp' r hg
      rw [h] at hg
      cases hg
  | stop fp p hp h =>
    constructor
    · intro a fp' r hg
      rw [h] at hg
      cases hg
    · intro a fp' r p' hg _
      rw [h] at hg
      cases hg
      exact ⟨Nat.le_refl _, fun b => h _⟩
    · intro a fp' r hg
      rw [h] at hg
      cases hg
      exact absurd rfl hp

/-- A stage and the next: the next one is resumed through the first, which it must skip. -/
theorem Cut.bind {g : List UInt8 → Stage z} {W W' : FrameParser z → Prop}
    {R t : FrameParser z → List UInt8 → Stage z} (hg : Cut g W R)
    (ht : ∀ {a fp r}, g a = .go fp r → Cut (t fp) W' t)
    (hskip : ∀ fp, W' fp → ∀ b, R fp b = .go fp b) :
    Cut (fun a => (g a).bind t) (fun fp => W fp ∨ W' fp) (fun fp b => (R fp b).bind t) := by
  constructor
  · intro a fp r h
    rcases hs : g a with ⟨fp1, r1⟩ | call
    · have hgo := hg.go hs
      simp only [hs, Stage.bind] at h
      have htgo := (ht hs).go h
      refine ⟨Nat.le_trans htgo.1 hgo.1, fun b => ?_⟩
      simp only [hgo.2 b, Stage.bind]
      exact htgo.2 b
    · simp only [hs, Stage.bind] at h
      cases h
  · intro a fp r p h hp
    rcases hs : g a with ⟨fp1, r1⟩ | call
    · have hgo := hg.go hs
      simp only [hs, Stage.bind] at h
      have htstop := (ht hs).stop h hp
      refine ⟨Nat.le_trans htstop.1 hgo.1, fun b => ?_⟩
      simp only [hgo.2 b, Stage.bind]
      exact htstop.2 b
    · simp only [hs, Stage.bind] at h
      cases h
      have hstop := hg.stop hs hp
      refine ⟨hstop.1, fun b => ?_⟩
      simp only [hstop.2 b, Stage.bind]
  · intro a fp r h
    rcases hs : g a with ⟨fp1, r1⟩ | call
    · have hgo := hg.go hs
      simp only [hs, Stage.bind] at h
      obtain ⟨hw, hr, hb⟩ := (ht hs).more h
      refine ⟨.inr hw, hr, fun b => ?_⟩
      simp only [hgo.2 b, hskip fp hw b, Stage.bind]
      exact hb b
    · simp only [hs, Stage.bind] at h
      cases h
      obtain ⟨hw, hr, hb⟩ := hg.more hs
      refine ⟨.inl hw, hr, fun b => ?_⟩
      simp only [hb b]

/-- A segment that a stage may read: nothing of it is there, or a part. -/
def Ready (seg : BufferSegment) (bytes : Nat) : Prop := seg = .new ∨ seg.Gathering bytes

theorem Ready.within {seg : BufferSegment} {bytes : Nat} (h : Ready seg bytes) :
    seg.Within bytes := by
  rcases h with rfl | h
  · exact within_new bytes
  · exact h.within

theorem Ready.gathers {seg : BufferSegment} {bytes : Nat} (h : Ready seg bytes) (inp : List UInt8)
    (hlen : (seg.uncommitted ++ inp).length < bytes) :
    ({ seg with uncommitted := seg.uncommitted ++ inp } : BufferSegment).Gathering bytes := by
  rcases h with rfl | h
  · exact ⟨rfl, rfl, hlen⟩
  · exact ⟨h.open_, h.bare, hlen⟩

theorem cut_read_segment {seg : BufferSegment} {bytes : Nat} {hold : BufferSegment → FrameParser z}
    {next : BufferSegment → List UInt8 → Stage z} {W : FrameParser z → Prop}
    {R : FrameParser z → List UInt8 → Stage z} (hr : Ready seg bytes)
    (hn : ∀ seg, Passes (next seg)) (hw : ∀ seg : BufferSegment, seg.Gathering bytes → W (hold seg))
    (hres : ∀ (seg : BufferSegment) b, R (hold seg) b = read_segment seg bytes b hold next) :
    Cut (fun a => read_segment seg bytes a hold next) W R := by
  -- The read of `a`: it failed, it completed, or it wants more.
  have hcases : ∀ a,
      (∃ e, ∀ b, read_segment seg bytes (a ++ b) hold next =
        .stop ⟨hold .new, a.drop (bytes - seg.uncommitted.length) ++ b, .error e⟩) ∨
      (∃ s r, r.length ≤ a.length ∧
        ∀ b, read_segment seg bytes (a ++ b) hold next = next s (r ++ b)) ∨
      (∃ s : BufferSegment, s.Gathering bytes ∧
        read_segment seg bytes a hold next = .stop ⟨hold s, [], .more⟩ ∧
        ∀ b, read_segment seg bytes (a ++ b) hold next = read_segment s bytes b hold next) := by
    intro a
    rcases hread : seg.read_up_to_bytes a bytes with e | read
    · left
      refine ⟨e, fun b => ?_⟩
      have happ : seg.read_up_to_bytes (a ++ b) bytes = _ :=
        read_append (fun r h => by rw [hread] at h; cases h) b
      have hlen := read_error hread
      rw [read_segment, happ, hread]
      simp only [Except.map, reset_eq_new, List.drop_append_of_le_length hlen]
    · right
      by_cases hc : read.segment.is_complete_ = true
      · left
        refine ⟨read.segment, read.input, read_length_le hread, fun b => ?_⟩
        have happ : seg.read_up_to_bytes (a ++ b) bytes = _ :=
          read_append (fun r h => by rw [hread] at h; cases h; exact hc) b
        rw [read_segment, happ, hread]
        simp [Except.map, hc]
      · right
        have hc : read.segment.is_complete_ = false := by simpa using hc
        obtain ⟨_, hrest, hseg, hlen, hb⟩ := read_incomplete hr.within hread hc
        refine ⟨read.segment, ?_, ?_, fun b => ?_⟩
        · rw [hseg]
          exact hr.gathers a hlen
        · rw [read_segment, hread]
          simp [hc, hrest]
        · rw [read_segment, hb b, read_segment]
          -- What is missing after `a` is what was missing before, less `a`.
          have hdrop : (a ++ b).drop (bytes - seg.uncommitted.length) =
              b.drop (bytes - read.segment.uncommitted.length) := by
            simp only [hseg, List.length_append] at hlen ⊢
            rw [List.drop_append, List.drop_of_length_le (by omega), List.nil_append]
            congr 1
            omega
          simp only [hdrop, reset_eq_new]
  constructor
  · intro a fp r h
    rcases hcases a with ⟨e, he⟩ | ⟨s, r', hlen, hb⟩ | ⟨s, _, hs, _⟩
    · have h0 := he []
      rw [List.append_nil, h] at h0
      cases h0
    · have h0 := hb []
      rw [List.append_nil, h, List.append_nil] at h0
      have hgo := ((hn s).cut W R).go h0.symm
      exact ⟨Nat.le_trans hgo.1 hlen, fun b => by rw [hb b]; exact hgo.2 b⟩
    · rw [h] at hs
      cases hs
  · intro a fp r p h hp
    rcases hcases a with ⟨e, he⟩ | ⟨s, r', hlen, hb⟩ | ⟨s, _, hs, _⟩
    · have h0 := he []
      rw [List.append_nil, h, List.append_nil] at h0
      cases h0
      exact ⟨by simp, he⟩
    · have h0 := hb []
      rw [List.append_nil, h, List.append_nil] at h0
      have hstop := ((hn s).cut W R).stop h0.symm hp
      exact ⟨Nat.le_trans hstop.1 hlen, fun b => by rw [hb b]; exact hstop.2 b⟩
    · rw [h] at hs
      cases hs
      exact absurd rfl hp
  · intro a fp r h
    rcases hcases a with ⟨e, he⟩ | ⟨s, r', hlen, hb⟩ | ⟨s, hg, hs, hb⟩
    · have h0 := he []
      rw [List.append_nil, h] at h0
      cases h0
    · have h0 := hb []
      rw [List.append_nil, h, List.append_nil] at h0
      rcases hn s with ⟨fp', hp⟩ | ⟨fp', p, hne, hp⟩
      · rw [hp] at h0; cases h0
      · rw [hp] at h0; cases h0; exact absurd rfl hne
    · rw [h] at hs
      cases hs
      exact ⟨hw s hg, rfl, fun b => by rw [hb b, hres s b]⟩

/-! ## The states between two calls -/

/-- What the parser holds between two calls: a part of what its state reads, and nothing else. -/
structure Tidy (fp : FrameParser z) : Prop where
  header : fp.header_segment_.Gathering 2
  payload_length : fp.payload_length_segment_ = .new ∨ (fp.state_ = .payload_length ∧
    (fp.current_frame_.payload_length = 126 ∧ fp.payload_length_segment_.Gathering 2 ∨
      fp.current_frame_.payload_length = 127 ∧ fp.payload_length_segment_.Gathering 8))
  mask_key : fp.mask_key_segment_ = .new ∨ (fp.state_ = .mask_key ∧
    fp.current_frame_.mask_bit = true ∧ fp.mask_key_segment_.Gathering 4)
  payload : fp.payload_segment_ = .new ∨ (fp.state_ = .payload ∧
    fp.payload_segment_.Gathering fp.current_frame_.payload_length)

theorem tidy_new (destination : Endpoint) (exts : List (PermessageDeflate z))
    (generator : Nat → UInt32) : Tidy (FrameParser.new destination exts generator) where
  header := gathering_new (by decide)
  payload_length := .inl rfl
  mask_key := .inl rfl
  payload := .inl rfl

/-- How a read of a segment goes on: it completed. -/
theorem read_segment_go {seg : BufferSegment} {bytes : Nat} {a r : List UInt8}
    {hold : BufferSegment → FrameParser z} {next : BufferSegment → List UInt8 → Stage z}
    {fp : FrameParser z} (h : read_segment seg bytes a hold next = .go fp r) :
    ∃ read, seg.read_up_to_bytes a bytes = .ok read ∧ read.segment.is_complete_ = true ∧
      next read.segment read.input = .go fp r := by
  unfold read_segment at h
  rcases hread : seg.read_up_to_bytes a bytes with e | read
  · rw [hread] at h; cases h
  · rw [hread] at h
    simp only at h
    split at h
    · cases h
    · rename_i hc
      exact ⟨read, rfl, by simpa using hc, h⟩

theorem check_header_go {fp fp' : FrameParser z} {inp r : List UInt8} {b0 b1 : UInt8}
    (h : check_header fp inp b0 b1 = .go fp' r) :
    ∃ frame, fp' = { fp with current_frame_ := frame, state_ := .payload_length } ∧ r = inp := by
  unfold check_header stop_invalid at h
  simp only at h
  split_ifs at h
  cases h
  exact ⟨_, rfl, rfl⟩

theorem parse_header_go {fp fp' : FrameParser z} {a r : List UInt8} (ht : Tidy fp)
    (h : parse_header fp a = .go fp' r) :
    (fp.state_ ≠ .header ∧ fp' = fp ∧ r = a) ∨
      (fp.state_ = .header ∧ r.length < a.length ∧
        ∃ frame, fp' = { fp with
          header_segment_ := .new, current_frame_ := frame, state_ := .payload_length }) := by
  unfold parse_header at h
  split at h
  · rename_i hs
    cases h
    exact .inl ⟨hs, rfl, rfl⟩
  · rename_i hs
    obtain ⟨read, hread, hc, hn⟩ := read_segment_go h
    have hlt := read_complete_lt ht.header hread hc
    split at hn
    · obtain ⟨frame, rfl, rfl⟩ := check_header_go hn
      exact .inr ⟨by simpa using hs, hlt, frame, rfl⟩
    · cases hn

theorem parse_header_go_tidy {fp fp' : FrameParser z} {a r : List UInt8} (ht : Tidy fp)
    (h : parse_header fp a = .go fp' r) : Tidy fp' ∧ fp'.state_ ≠ .header := by
  rcases parse_header_go ht h with ⟨hs, rfl, -⟩ | ⟨hs, -, frame, rfl⟩
  · exact ⟨ht, hs⟩
  · have h1 := ht.payload_length
    have h2 := ht.mask_key
    have h3 := ht.payload
    simp only [hs, reduceCtorEq, false_and, or_false] at h1 h2 h3
    exact ⟨⟨gathering_new (by decide), .inl h1, .inl h2, .inl h3⟩, by simp⟩

theorem check_mask_go {fp fp' : FrameParser z} {inp r : List UInt8}
    (h : check_mask fp inp = .go fp' r) :
    ∃ exts, fp' = { fp with extensions_ := exts, state_ := .mask_key } ∧ r = inp := by
  unfold check_mask stop_invalid at h
  simp only at h
  split at h
  · cases h
  · split_ifs at h
    cases h
    exact ⟨_, rfl, rfl⟩

theorem parse_extended_length_go {bytes most : Nat} {fp fp' : FrameParser z} {a r : List UInt8}
    (h : parse_extended_length bytes most fp a = .go fp' r) :
    ∃ length, fp' = { fp with
      current_frame_ := { fp.current_frame_ with payload_length := length }
      payload_length_segment_ := .new } := by
  obtain ⟨read, -, -, hn⟩ := read_segment_go h
  simp only [stop_invalid] at hn
  split at hn
  · cases hn
  · cases hn
    exact ⟨_, rfl⟩

theorem check_msb_go {fp fp' : FrameParser z} {inp r : List UInt8}
    (h : check_msb fp inp = .go fp' r) : fp' = fp ∧ r = inp := by
  unfold check_msb stop_invalid at h
  split at h
  · cases h
  · cases h; exact ⟨rfl, rfl⟩

theorem bind_go {s : Stage z} {t : FrameParser z → List UInt8 → Stage z} {fp : FrameParser z}
    {r : List UInt8} (h : s.bind t = .go fp r) :
    ∃ fp1 r1, s = .go fp1 r1 ∧ t fp1 r1 = .go fp r := by
  cases s with
  | go fp1 r1 => exact ⟨fp1, r1, rfl, h⟩
  | stop call => cases h

/-- The stage of the payload length ends with its segment reset, and with the mask to come. -/
theorem parse_payload_length_go {fp fp' : FrameParser z} {a r : List UInt8} (ht : Tidy fp)
    (h : parse_payload_length fp a = .go fp' r) :
    (fp.state_ ≠ .payload_length ∧ fp' = fp ∧ r = a) ∨
      (fp.state_ = .payload_length ∧ ∃ frame exts, fp' = { fp with
        current_frame_ := frame
        extensions_ := exts
        payload_length_segment_ := .new
        state_ := .mask_key }) := by
  unfold parse_payload_length at h
  split at h
  · rename_i hs
    cases h
    exact .inl ⟨hs, rfl, rfl⟩
  · rename_i hs
    have hs : fp.state_ = .payload_length := by simpa using hs
    refine .inr ⟨hs, ?_⟩
    obtain ⟨fp1, r1, h1, h2⟩ := bind_go h
    obtain ⟨exts, rfl, -⟩ := check_mask_go h2
    split_ifs at h1 with h126 h127
    · obtain ⟨length, rfl⟩ := parse_extended_length_go h1
      exact ⟨_, _, rfl⟩
    · obtain ⟨fp2, r2, h3, h4⟩ := bind_go h1
      obtain ⟨rfl, -⟩ := check_msb_go h4
      obtain ⟨length, rfl⟩ := parse_extended_length_go h3
      exact ⟨_, _, rfl⟩
    · cases h1
      have hnew : fp.payload_length_segment_ = .new := by
        rcases ht.payload_length with h | ⟨-, h | h⟩
        · exact h
        · exact absurd h.1 h126
        · exact absurd h.1 h127
      refine ⟨fp.current_frame_, exts, ?_⟩
      rw [← hnew]

theorem parse_payload_length_go_tidy {fp fp' : FrameParser z} {a r : List UInt8} (ht : Tidy fp)
    (hs : fp.state_ ≠ .header) (h : parse_payload_length fp a = .go fp' r) :
    Tidy fp' ∧ (fp'.state_ = .mask_key ∨ fp'.state_ = .payload) := by
  rcases parse_payload_length_go ht h with ⟨hs', rfl, -⟩ | ⟨hs', frame, exts, rfl⟩
  · refine ⟨ht, ?_⟩
    cases hst : fp'.state_ <;> simp_all
  · have h2 := ht.mask_key
    have h3 := ht.payload
    simp only [hs', reduceCtorEq, false_and, or_false] at h2 h3
    exact ⟨⟨ht.header, .inl rfl, .inl h2, .inl h3⟩, .inl rfl⟩

theorem parse_mask_key_go {fp fp' : FrameParser z} {a r : List UInt8}
    (h : parse_mask_key fp a = .go fp' r) :
    (fp.state_ ≠ .mask_key ∧ fp' = fp ∧ r = a) ∨
      (fp.state_ = .mask_key ∧ fp.current_frame_.mask_bit = false ∧
        fp' = { fp with state_ := .payload } ∧ r = a) ∨
      (fp.state_ = .mask_key ∧ fp.current_frame_.mask_bit = true ∧ ∃ key, fp' = { fp with
        current_frame_ := { fp.current_frame_ with mask_key := key }
        mask_key_segment_ := .new
        state_ := .payload }) := by
  unfold parse_mask_key at h
  split_ifs at h with hs hm
  · cases h
    exact .inl ⟨hs, rfl, rfl⟩
  · cases h
    exact .inr (.inl ⟨by simpa using hs, by simpa using hm, rfl, rfl⟩)
  · obtain ⟨read, -, -, hn⟩ := read_segment_go h
    cases hn
    exact .inr (.inr ⟨by simpa using hs, by simpa using hm, _, rfl⟩)

theorem parse_mask_key_go_tidy {fp fp' : FrameParser z} {a r : List UInt8} (ht : Tidy fp)
    (hs : fp.state_ = .mask_key ∨ fp.state_ = .payload) (h : parse_mask_key fp a = .go fp' r) :
    Tidy fp' ∧ fp'.state_ = .payload := by
  rcases parse_mask_key_go h with ⟨hs', rfl, -⟩ | ⟨hs', hm, rfl, -⟩ | ⟨hs', hm, key, rfl⟩
  · exact ⟨ht, by rcases hs with h | h; exacts [absurd h hs', h]⟩
  · have h1 := ht.payload_length
    have h2 := ht.mask_key
    have h3 := ht.payload
    simp only [hs', hm, reduceCtorEq, false_and, and_false, or_false] at h1 h2 h3
    exact ⟨⟨ht.header, .inl h1, .inl h2, .inl h3⟩, rfl⟩
  · have h1 := ht.payload_length
    have h3 := ht.payload
    simp only [hs', reduceCtorEq, false_and, or_false] at h1 h3
    exact ⟨⟨ht.header, .inl h1, .inl rfl, .inl h3⟩, rfl⟩

/-! ## The cuts of the four stages -/

theorem cut_parse_header {fp : FrameParser z} (ht : Tidy fp) :
    Cut (parse_header fp) (fun fp => Tidy fp ∧ fp.state_ = .header) parse_header := by
  by_cases hs : fp.state_ = .header
  · refine Cut.congr (fun a => if_neg (not_not_intro hs))
      (cut_read_segment (.inr ht.header) ?_ ?_ ?_)
    · intro seg
      split
      · exact passes_check_header _ _ _
      · exact .stop _ _ (by simp) (fun _ => rfl)
    · intro seg hg
      exact ⟨⟨hg, ht.payload_length, ht.mask_key, ht.payload⟩, hs⟩
    · intro seg b
      unfold parse_header
      exact if_neg (not_not_intro hs)
  · have hpass : Passes (parse_header fp) := .go fp fun inp => by rw [parse_header, if_pos hs]
    exact hpass.cut _ _

theorem cut_parse_extended_length {bytes : Nat} (most : Nat) {fp : FrameParser z}
    (hr : Ready fp.payload_length_segment_ bytes) :
    Cut (parse_extended_length bytes most fp)
      (fun fp' => ∃ seg : BufferSegment, seg.Gathering bytes ∧
        fp' = { fp with payload_length_segment_ := seg })
      (parse_extended_length bytes most) :=
  cut_read_segment hr
    (fun _ => passes_ite (passes_invalid _ _) (.go _ (fun _ => rfl)))
    (fun seg hg => ⟨seg, hg, rfl⟩) (fun _ _ => rfl)

/-- A stage and one that reads nothing. -/
theorem Cut.passes {g : List UInt8 → Stage z} {W : FrameParser z → Prop}
    {R t : FrameParser z → List UInt8 → Stage z} (hg : Cut g W R) (ht : ∀ fp, Passes (t fp)) :
    Cut (fun a => (g a).bind t) W (fun fp b => (R fp b).bind t) := by
  have htcut : ∀ {a fp r}, g a = .go fp r → Cut (t fp) (fun _ => False) t :=
    fun {_ fp _} _ => (ht fp).cut _ _
  have h := hg.bind htcut (fun _ h => h.elim)
  exact ⟨h.go, h.stop, fun hm => ⟨(h.more hm).1.resolve_right id, (h.more hm).2⟩⟩

theorem cut_parse_payload_length {fp : FrameParser z} (ht : Tidy fp) :
    Cut (parse_payload_length fp) (fun fp => Tidy fp ∧ fp.state_ = .payload_length)
      parse_payload_length := by
  by_cases hs : fp.state_ = .payload_length
  · have hmask := ht.mask_key
    have hpay := ht.payload
    simp only [hs, reduceCtorEq, false_and, or_false] at hmask hpay
    by_cases h126 : fp.current_frame_.payload_length = 126
    · have hr : Ready fp.payload_length_segment_ 2 := by
        rcases ht.payload_length with h | ⟨-, ⟨-, h⟩ | ⟨h, -⟩⟩
        · exact .inl h
        · exact .inr h
        · rw [h126] at h; cases h
      have hcut := (cut_parse_extended_length 125 hr).passes passes_check_mask
      have heq : ∀ fp' : FrameParser z, fp'.state_ = .payload_length →
          fp'.current_frame_.payload_length = 126 → ∀ a,
          parse_payload_length fp' a = (parse_extended_length 2 125 fp' a).bind check_mask := by
        intro fp' h1 h2 a
        rw [parse_payload_length, if_neg (by simp [h1])]
        simp only [h2, if_true]
      rw [funext (heq fp hs h126)]
      refine ⟨hcut.go, hcut.stop, fun hm => ?_⟩
      obtain ⟨⟨seg, hg, rfl⟩, hrest, hb⟩ := hcut.more hm
      exact ⟨⟨⟨ht.header, .inr ⟨hs, .inl ⟨h126, hg⟩⟩, .inl hmask, .inl hpay⟩, hs⟩, hrest,
        fun b => (hb b).trans (heq { fp with payload_length_segment_ := seg } hs h126 b).symm⟩
    by_cases h127 : fp.current_frame_.payload_length = 127
    · have hr : Ready fp.payload_length_segment_ 8 := by
        rcases ht.payload_length with h | ⟨-, ⟨h, -⟩ | ⟨-, h⟩⟩
        · exact .inl h
        · rw [h127] at h; cases h
        · exact .inr h
      have hcut := ((cut_parse_extended_length 65535 hr).passes passes_check_msb).passes
        passes_check_mask
      have heq : ∀ fp' : FrameParser z, fp'.state_ = .payload_length →
          fp'.current_frame_.payload_length = 127 → ∀ a, parse_payload_length fp' a =
            ((parse_extended_length 8 65535 fp' a).bind check_msb).bind check_mask := by
        intro fp' h1 h2 a
        rw [parse_payload_length, if_neg (by simp [h1])]
        simp only [h2, Nat.reduceEqDiff, if_false, if_true]
      rw [funext (heq fp hs h127)]
      refine ⟨hcut.go, hcut.stop, fun hm => ?_⟩
      obtain ⟨⟨seg, hg, rfl⟩, hrest, hb⟩ := hcut.more hm
      exact ⟨⟨⟨ht.header, .inr ⟨hs, .inr ⟨h127, hg⟩⟩, .inl hmask, .inl hpay⟩, hs⟩, hrest,
        fun b => (hb b).trans (heq { fp with payload_length_segment_ := seg } hs h127 b).symm⟩
    · have heq : parse_payload_length fp = check_mask fp := funext fun a => by
        rw [parse_payload_length, if_neg (by simp [hs])]
        simp only [h126, h127, if_false, Stage.bind]
      rw [heq]
      exact (passes_check_mask fp).cut _ _
  · have hpass : Passes (parse_payload_length fp) :=
      .go fp fun inp => by rw [parse_payload_length, if_pos hs]
    exact hpass.cut _ _

theorem cut_parse_mask_key {fp : FrameParser z} (ht : Tidy fp) :
    Cut (parse_mask_key fp) (fun fp => Tidy fp ∧ fp.state_ = .mask_key) parse_mask_key := by
  by_cases hs : fp.state_ = .mask_key
  · by_cases hm : fp.current_frame_.mask_bit = true
    · have hr : Ready fp.mask_key_segment_ 4 := by
        rcases ht.mask_key with h | ⟨-, -, h⟩
        · exact .inl h
        · exact .inr h
      have hlen := ht.payload_length
      have hpay := ht.payload
      simp only [hs, reduceCtorEq, false_and, or_false] at hlen hpay
      have heq : ∀ fp' : FrameParser z, fp'.state_ = .mask_key →
          fp'.current_frame_.mask_bit = true → ∀ a, parse_mask_key fp' a =
            read_segment fp'.mask_key_segment_ 4 a
              (fun seg => { fp' with mask_key_segment_ := seg })
              fun segment inp => .go { fp' with
                current_frame_ := { fp'.current_frame_ with
                  mask_key := parse_network_byte_order 8 segment.committed % 2 ^ 32 }
                mask_key_segment_ := segment.reset
                state_ := .payload } inp := by
        intro fp' h1 h2 a
        rw [parse_mask_key, if_neg (by simp [h1]), if_neg (by simp [h2])]
      rw [funext (heq fp hs hm)]
      exact cut_read_segment hr (fun _ => .go _ (fun _ => rfl))
        (fun seg hg => ⟨⟨ht.header, .inl hlen, .inr ⟨hs, hm, hg⟩, .inl hpay⟩, hs⟩)
        (fun seg b => heq { fp with mask_key_segment_ := seg } hs hm b)
    · have hpass : Passes (parse_mask_key fp) := .go { fp with state_ := .payload } fun inp => by
        rw [parse_mask_key, if_neg (by simp [hs]), if_pos (by simpa using hm)]
      exact hpass.cut _ _
  · have hpass : Passes (parse_mask_key fp) :=
      .go fp fun inp => by rw [parse_mask_key, if_pos hs]
    exact hpass.cut _ _

theorem cut_parse_payload {fp : FrameParser z} (ht : Tidy fp) :
    Cut (parse_payload fp) (fun fp => Tidy fp ∧ fp.state_ = .payload) parse_payload := by
  by_cases hs : fp.state_ = .payload
  · have hr : Ready fp.payload_segment_ fp.current_frame_.payload_length := by
      rcases ht.payload with h | ⟨-, h⟩
      · exact .inl h
      · exact .inr h
    have hlen := ht.payload_length
    have hmask := ht.mask_key
    simp only [hs, reduceCtorEq, false_and, or_false] at hlen hmask
    have heq : ∀ fp' : FrameParser z, fp'.state_ = .payload → ∀ a, parse_payload fp' a =
        read_segment fp'.payload_segment_ fp'.current_frame_.payload_length a
          (fun seg => { fp' with payload_segment_ := seg })
          fun segment inp => process_payload { fp' with payload_segment_ := segment } inp := by
      intro fp' h a
      rw [parse_payload, if_neg (by simp [h])]
    rw [funext (heq fp hs)]
    exact cut_read_segment hr (fun _ => passes_process_payload _)
      (fun seg hg => ⟨⟨ht.header, .inl hlen, .inl hmask, .inr ⟨hs, hg⟩⟩, hs⟩)
      (fun seg b => heq { fp with payload_segment_ := seg } hs b)
  · have hpass : Passes (parse_payload fp) := .go fp fun inp => by rw [parse_payload, if_pos hs]
    exact hpass.cut _ _

/-- The four stages, before the end of `parse`. -/
def stages (fp : FrameParser z) (inp : List UInt8) : Stage z :=
  (((parse_header fp inp).bind parse_payload_length).bind parse_mask_key).bind parse_payload

theorem parse_eq (fp : FrameParser z) (inp : List UInt8) :
    parse fp inp = (stages fp inp).call := rfl

theorem cut_stages {fp : FrameParser z} (ht : Tidy fp) : Cut (stages fp) Tidy stages := by
  have skip_header : ∀ fp : FrameParser z, fp.state_ ≠ .header →
      ∀ b, parse_header fp b = .go fp b :=
    fun fp h b => by rw [parse_header, if_pos h]
  have skip_length : ∀ fp : FrameParser z, fp.state_ ≠ .payload_length → ∀ b,
      parse_payload_length fp b = .go fp b := fun fp h b => by rw [parse_payload_length, if_pos h]
  have skip_mask : ∀ fp : FrameParser z, fp.state_ ≠ .mask_key → ∀ b,
      parse_mask_key fp b = .go fp b := fun fp h b => by rw [parse_mask_key, if_pos h]
  have h1 := cut_parse_header ht
  have h2 := h1.bind (t := parse_payload_length)
    (fun hg => cut_parse_payload_length (parse_header_go_tidy ht hg).1)
    (fun fp' hw b => skip_header fp' (by simp [hw.2]) b)
  have h3 := h2.bind (t := parse_mask_key)
    (fun hg => by
      obtain ⟨fp1, r1, hg1, hg2⟩ := bind_go hg
      have ht1 := parse_header_go_tidy ht hg1
      exact cut_parse_mask_key (parse_payload_length_go_tidy ht1.1 ht1.2 hg2).1)
    (fun fp' hw b => by
      rw [skip_header fp' (by simp [hw.2]), Stage.bind, skip_length fp' (by simp [hw.2])])
  have h4 := h3.bind (t := parse_payload)
    (fun hg => by
      obtain ⟨fp2, r2, hg2, hg3⟩ := bind_go hg
      obtain ⟨fp1, r1, hg1, hg2⟩ := bind_go hg2
      have ht1 := parse_header_go_tidy ht hg1
      have ht2 := parse_payload_length_go_tidy ht1.1 ht1.2 hg2
      exact cut_parse_payload (parse_mask_key_go_tidy ht2.1 ht2.2 hg3).1)
    (fun fp' hw b => by
      rw [skip_header fp' (by simp [hw.2]), Stage.bind, skip_length fp' (by simp [hw.2]),
        Stage.bind,
        skip_mask fp' (by simp [hw.2])])
  refine ⟨h4.go, h4.stop, fun hm => ⟨?_, (h4.more hm).2⟩⟩
  rcases (h4.more hm).1 with ((h | h) | h) | h
  all_goals exact h.1

/-! ## Frames -/

/-- A stage that returns no frame. -/
def NoFrame (s : Stage z) : Prop := ∀ fp r f, s ≠ .stop ⟨fp, r, .frame f⟩

theorem bind_frame {s : Stage z} {t : FrameParser z → List UInt8 → Stage z} {fp : FrameParser z}
    {r : List UInt8} {f : Frame} (hs : NoFrame s) (h : s.bind t = .stop ⟨fp, r, .frame f⟩) :
    ∃ fp1 r1, s = .go fp1 r1 ∧ t fp1 r1 = .stop ⟨fp, r, .frame f⟩ := by
  cases s with
  | go fp1 r1 => exact ⟨fp1, r1, rfl, h⟩
  | stop call => cases h; exact absurd rfl (hs _ _ _)

theorem NoFrame.bind {s : Stage z} {t : FrameParser z → List UInt8 → Stage z} (hs : NoFrame s)
    (ht : ∀ fp r, NoFrame (t fp r)) : NoFrame (s.bind t) := by
  intro fp r f h
  obtain ⟨fp1, r1, -, h1⟩ := bind_frame hs h
  exact ht _ _ _ _ _ h1

theorem read_segment_stop {seg : BufferSegment} {bytes : Nat} {a r : List UInt8}
    {hold : BufferSegment → FrameParser z} {next : BufferSegment → List UInt8 → Stage z}
    {fp : FrameParser z} {f : Frame}
    (h : read_segment seg bytes a hold next = .stop ⟨fp, r, .frame f⟩) :
    ∃ read, seg.read_up_to_bytes a bytes = .ok read ∧ read.segment.is_complete_ = true ∧
      next read.segment read.input = .stop ⟨fp, r, .frame f⟩ := by
  unfold read_segment at h
  rcases hread : seg.read_up_to_bytes a bytes with e | read
  · rw [hread] at h; cases h
  · rw [hread] at h
    simp only at h
    split at h
    · cases h
    · rename_i hc
      exact ⟨read, rfl, by simpa using hc, h⟩

theorem noFrame_check_header (fp : FrameParser z) (inp : List UInt8) (b0 b1 : UInt8) :
    NoFrame (check_header fp inp b0 b1) := by
  intro fp' r f h
  unfold check_header stop_invalid at h
  simp only at h
  split_ifs at h <;> cases h

theorem noFrame_parse_header (fp : FrameParser z) (inp : List UInt8) :
    NoFrame (parse_header fp inp) := by
  intro fp' r f h
  unfold parse_header at h
  split at h
  · cases h
  · obtain ⟨read, -, -, hn⟩ := read_segment_stop h
    split at hn
    · exact noFrame_check_header _ _ _ _ _ _ _ hn
    · cases hn

theorem noFrame_parse_extended_length (bytes most : Nat) (fp : FrameParser z) (inp : List UInt8) :
    NoFrame (parse_extended_length bytes most fp inp) := by
  intro fp' r f h
  obtain ⟨read, -, -, hn⟩ := read_segment_stop h
  simp only [stop_invalid] at hn
  split at hn <;> cases hn

theorem noFrame_check_msb (fp : FrameParser z) (inp : List UInt8) : NoFrame (check_msb fp inp) := by
  intro fp' r f h
  unfold check_msb stop_invalid at h
  split at h <;> cases h

theorem noFrame_check_mask (fp : FrameParser z) (inp : List UInt8) :
    NoFrame (check_mask fp inp) := by
  intro fp' r f h
  unfold check_mask stop_invalid at h
  simp only at h
  split at h
  · cases h
  · split_ifs at h <;> cases h

theorem noFrame_parse_payload_length (fp : FrameParser z) (inp : List UInt8) :
    NoFrame (parse_payload_length fp inp) := by
  unfold parse_payload_length
  split
  · intro fp' r f h; cases h
  · apply NoFrame.bind _ noFrame_check_mask
    split_ifs
    · exact noFrame_parse_extended_length _ _ _ _
    · exact (noFrame_parse_extended_length _ _ _ _).bind noFrame_check_msb
    · intro fp' r f h; cases h

theorem noFrame_parse_mask_key (fp : FrameParser z) (inp : List UInt8) :
    NoFrame (parse_mask_key fp inp) := by
  intro fp' r f h
  unfold parse_mask_key at h
  split_ifs at h
  obtain ⟨read, -, -, hn⟩ := read_segment_stop h
  cases hn

/-- A payload that is processed to a frame leaves the parser at the next header. -/
theorem process_payload_frame {fp fp' : FrameParser z} {inp r : List UInt8} {f : Frame}
    (h : process_payload fp inp = .stop ⟨fp', r, .frame f⟩) :
    r = inp ∧ ∃ frame exts expected, fp' = { fp with
      current_frame_ := frame
      extensions_ := exts
      effective_opcode_in_ := expected
      payload_segment_ := .new
      state_ := .header } := by
  unfold process_payload at h
  simp only at h
  split at h
  · cases h
  · split at h
    · cases h
    · split at h
      · cases h
      · unfold complete_frame at h
        simp only [Stage.stop.injEq, ParseCall.mk.injEq] at h
        obtain ⟨rfl, rfl, -⟩ := h
        exact ⟨rfl, _, _, _, rfl⟩

/-- A frame takes at least a byte, or ends one whose bytes earlier calls took. -/
theorem stages_frame {fp fp' : FrameParser z} {a r : List UInt8} {f : Frame} (ht : Tidy fp)
    (h : stages fp a = .stop ⟨fp', r, .frame f⟩) :
    Tidy fp' ∧ fp'.state_ = .header ∧ r.length ≤ a.length ∧
      (fp.state_ = .header → r.length < a.length) := by
  have hlen := ((cut_stages ht).stop h (by simp)).1
  have hno1 := noFrame_parse_header fp a
  have hno2 := hno1.bind noFrame_parse_payload_length
  obtain ⟨fp3, r3, h3, h4⟩ := bind_frame (hno2.bind noFrame_parse_mask_key) h
  obtain ⟨fp2, r2, h2, h3⟩ := bind_go h3
  obtain ⟨fp1, r1, h1, h2⟩ := bind_go h2
  have ht1 := parse_header_go_tidy ht h1
  have ht2 := parse_payload_length_go_tidy ht1.1 ht1.2 h2
  have ht3 := parse_mask_key_go_tidy ht2.1 ht2.2 h3
  have hr2 := ((cut_parse_payload_length ht1.1).go h2).1
  have hr3 := ((cut_parse_mask_key ht2.1).go h3).1
  have hr4 := ((cut_parse_payload ht3.1).stop h4 (by simp)).1
  have hshort : fp.state_ = .header → r.length < a.length := by
    intro hs
    rcases parse_header_go ht h1 with ⟨hne, -⟩ | ⟨-, hlt, -⟩
    · exact absurd hs hne
    · omega
  rw [parse_payload, if_neg (by simp [ht3.2])] at h4
  obtain ⟨read, -, -, hn⟩ := read_segment_stop h4
  obtain ⟨-, frame, exts, expected, rfl⟩ := process_payload_frame hn
  have hl := ht3.1.payload_length
  have hm := ht3.1.mask_key
  simp only [ht3.2, reduceCtorEq, false_and, or_false] at hl hm
  exact ⟨⟨ht3.1.header, .inl hl, .inl hm, .inl rfl⟩, rfl, hlen, hshort⟩

theorem parse_stop {fp : FrameParser z} (ht : Tidy fp) (a : List UInt8) :
    stages fp a = .stop (parse fp a) := by
  rcases h : stages fp a with ⟨fp', r⟩ | call
  · -- The last stage never goes on: the state that reaches it is its own.
    obtain ⟨fp3, r3, h3, h4⟩ := bind_go h
    obtain ⟨fp2, r2, h2, h3⟩ := bind_go h3
    obtain ⟨fp1, r1, h1, h2⟩ := bind_go h2
    have ht1 := parse_header_go_tidy ht h1
    have ht2 := parse_payload_length_go_tidy ht1.1 ht1.2 h2
    have ht3 := parse_mask_key_go_tidy ht2.1 ht2.2 h3
    rw [parse_payload, if_neg (by simp [ht3.2])] at h4
    obtain ⟨read, -, -, hn⟩ := read_segment_go h4
    unfold process_payload complete_frame at hn
    simp only at hn
    split at hn
    · cases hn
    · split at hn
      · cases hn
      · split at hn <;> cases hn
  · rw [parse_eq, h]
    rfl

end proxy.websocket.protocol
