-- What is known of a body that calls have completed, whatever it was on the wire: it
-- goes to the message, and it is within the bounds that the calls check.
import Aether.Http.BodyDelivery

open util.string util.buffer lib.resumable lib.rfc7230

namespace proxy.http.http1

namespace ChunkReader

/-- The body is no longer than the sizes that were read, and those are within the limit. -/
def Within (limit : Nat) (s : ChunkReader) : Prop :=
  match s.phase with
  | .header => s.body.length ≤ s.read ∧ s.read ≤ limit
  | .data size => s.body.length ≤ s.read ∧ s.read + size ≤ limit
  | .suffix size => s.body.length ≤ s.read + size ∧ s.read + size ≤ limit

/-- A size that is accepted is within the limit, unless the limit is out of all bounds. -/
theorem within_of_chunk_size {limit read size : Nat} {body line : Text} (hlimit : limit < 2 ^ 63)
    (hread : read ≤ limit) (h : chunk_size limit read body line = .ok size) :
    read + size ≤ limit := by
  unfold chunk_size at h
  split at h
  · cases h
  · rename_i found _
    split at h
    · cases h
    · split at h
      · cases h
      · rename_i hsum
        split at h
        · cases h
        · rename_i hfit
          obtain rfl := Except.ok.inj h
          by_cases hzero : found = 0
          · omega
          · have hfound : found < 2 ^ 63 := by
              by_contra hlarge
              exact hfit ⟨hzero, by omega⟩
            rw [size_add_of_lt (by omega)] at hsum
            exact Nat.le_of_not_lt hsum

theorem within_next {limit : Nat} (hlimit : limit < 2 ^ 63) (s : ChunkReader) (a : Text)
    (h : Within limit s) : Within limit (next limit s a).state := by
  obtain ⟨phase, pending, body, read⟩ := s
  unfold next advance
  cases phase with
  | header =>
    obtain ⟨hbody, hread⟩ := h
    simp only
    split
    · exact ⟨hbody, hread⟩
    · split
      · exact ⟨hbody, hread⟩
      · rename_i size hsize
        exact ⟨hbody, within_of_chunk_size hlimit hread hsize⟩
  | data size =>
    obtain ⟨hbody, hread⟩ := h
    simp only
    split
    · exact ⟨hbody, hread⟩
    · split
      · exact ⟨hbody, hread⟩
      · rename_i more hcommit
        have hlen := (CountedSegment.length_of_committed_with hcommit).1
        have htake := List.length_take_le size (pending ++ a)
        simp only at hbody
        exact ⟨by simp only [item]; omega, hread⟩
  | suffix size =>
    obtain ⟨hbody, hread⟩ := h
    simp only
    split
    · exact ⟨hbody, hread⟩
    · split
      · exact ⟨hbody, hread⟩
      · split
        · exact ⟨hbody, hread⟩
        · simp only at hbody hread
          have hadd : size_add read size = read + size := size_add_of_lt (by omega)
          simp only [item, hadd]
          exact ⟨hbody, hread⟩

/-- A chunked body is within the limit. -/
theorem length_of_body {limit : Nat} {a : Text}
    (hshort : (drainAll (next limit) measure (between []) a).state.body.length < 2 ^ 31) :
    (drainAll (next limit) measure (between []) a).state.body.length ≤ limit := by
  by_cases hlimit : limit < 2 ^ 63
  · have hwithin := drainAll_keeps (resumable limit) (within_next hlimit) (s := between []) trivial
      ⟨Nat.le_refl 0, Nat.zero_le limit⟩ a
    generalize (drainAll (next limit) measure (between []) a).state = s at hwithin
    obtain ⟨phase, pending, body, read⟩ := s
    cases phase with
    | header => exact Nat.le_trans hwithin.1 hwithin.2
    | data size =>
      have hbody := hwithin.1
      have hread := hwithin.2
      simp only at hbody hread ⊢
      omega
    | suffix size => exact Nat.le_trans hwithin.1 hwithin.2
  · omega

end ChunkReader

namespace BodyReader

/-- A body of a given size that is done has so many bytes, but for a size that is no `int`. -/
theorem length_of_given {size : Nat} {a : Text}
    (hdone : (drainAll (take_given size) (fun _ => 0) ChunkReader.new a).halted = some .done) :
    size ≤ a.length ∧
      (drainAll (take_given size) (fun _ => 0) ChunkReader.new a).state.body.length ≤ size ∧
      (size < 2 ^ 31 →
        (drainAll (take_given size) (fun _ => 0) ChunkReader.new a).state.body.length = size) := by
  have hpending : ChunkReader.new.pending ++ a = a := rfl
  by_cases hlen : (ChunkReader.new.pending ++ a).length < size
  · rw [drainAll_more (by rw [take_given_short hlen])] at hdone
    cases hdone
  · cases hk : CountedSegment.committed_with [] ((ChunkReader.new.pending ++ a).take size) with
    | error e =>
      rw [drainAll_halt (by rw [take_given_failed hlen hk])] at hdone
      cases hdone
    | ok body =>
      rw [drainAll_halt (by rw [take_given_done hlen hk]), take_given_done hlen hk]
      rw [hpending] at hlen hk
      have htake : (a.take size).length = size := by
        rw [List.length_take]
        omega
      refine ⟨Nat.le_of_not_lt hlen, ?_, ?_⟩
      · have hle := (CountedSegment.length_of_committed_with hk).1
        rw [htake, List.length_nil, Nat.zero_add] at hle
        exact hle
      · intro hsmall
        rw [CountedSegment.committed_with_of_lt [] (by rw [htake]; exact hsmall)] at hk
        obtain rfl := Except.ok.inj hk
        exact htake

end BodyReader

namespace HttpParser

open BodyReader

variable {p q : HttpParser} {mode : MessageMode}

/-- The message of a mode. -/
def message (p : HttpParser) (mode : MessageMode) : Message :=
  if mode = .request then p.exchange_.req_.toMessage else p.exchange_.response.toMessage

theorem get_data_message (hknown : mode ≠ .unknown) :
    p.get_data_for_mode mode = .ok (p.message mode) := by
  cases mode with
  | unknown => exact absurd rfl hknown
  | request => rfl
  | response => rfl

theorem message_set_data (msg : Message) :
    (p.set_data_for_mode mode msg).message mode = msg := by
  unfold set_data_for_mode message
  split <;> rfl

theorem message_of_exchange (h : p.exchange_ = q.exchange_) : p.message mode = q.message mode := by
  unfold message
  rw [h]

/-- A message with another body, in the same exchange. -/
def SetsBody (p : HttpParser) (mode : MessageMode) (body : Text) (q : HttpParser) : Prop :=
  q.exchange_ = (p.set_data_for_mode mode { p.message mode with body_ := body }).exchange_

/-- A call changes nothing of the exchange but the body, and that only if it completes it. -/
theorem exchange_of_finish {r : BodyReader} {done : Bool}
    (h : { p with body := r }.finish_body mode = .ok (done, q)) :
    (done = false ∧ q.exchange_ = p.exchange_) ∨ done = true ∧ ∃ body, SetsBody p mode body q := by
  unfold finish_body at h
  split at h
  · obtain ⟨msg, hmsg, h⟩ := bind_eq_ok.mp h
    obtain ⟨seg, -, h⟩ := bind_eq_ok.mp h
    obtain ⟨rfl, rfl⟩ := Prod.mk.inj (Except.ok.inj h)
    have hknown : mode ≠ .unknown := by
      rintro rfl
      cases hmsg
    obtain rfl : p.message mode = msg := Except.ok.inj ((get_data_message hknown).symm.trans hmsg)
    refine .inr ⟨rfl, r.body_buf_.string_view, ?_⟩
    unfold SetsBody set_data_for_mode
    split <;> rfl
  · obtain ⟨rfl, rfl⟩ := Prod.mk.inj (Except.ok.inj h)
    exact .inl ⟨rfl, rfl⟩

/-- A call ends with the parser as it is, for a body that is not there, or at the end of
`read_body`. -/
theorem finish_of_read_body {inp out : Istream} {done : Bool}
    (h : p.read_body inp mode = .ok (done, q, out)) :
    q = p ∨ ∃ r, { p with body := r }.finish_body mode = .ok (done, q) := by
  unfold read_body at h
  split at h
  · obtain ⟨⟨type, size⟩, -, h⟩ := bind_eq_ok.mp h
    simp only at h
    split at h
    · obtain ⟨-, hq⟩ := Prod.mk.inj (Except.ok.inj h)
      exact .inl (Prod.mk.inj hq).1.symm
    · obtain ⟨r, -, h⟩ := bind_eq_ok.mp h
      obtain ⟨⟨r', inp'⟩, -, h⟩ := bind_eq_ok.mp h
      obtain ⟨⟨done', q'⟩, hrun, h⟩ := bind_eq_ok.mp h
      obtain ⟨rfl, hq⟩ := Prod.mk.inj (Except.ok.inj h)
      obtain ⟨rfl, -⟩ := Prod.mk.inj hq
      exact .inr ⟨r', hrun⟩
  · obtain ⟨⟨r', inp'⟩, -, h⟩ := bind_eq_ok.mp h
    obtain ⟨⟨done', q'⟩, hrun, h⟩ := bind_eq_ok.mp h
    obtain ⟨rfl, hq⟩ := Prod.mk.inj (Except.ok.inj h)
    obtain ⟨rfl, -⟩ := Prod.mk.inj hq
    exact .inr ⟨r', hrun⟩

theorem exchange_of_read_body {inp out : Istream} {done : Bool}
    (h : p.read_body inp mode = .ok (done, q, out)) :
    q.exchange_ = p.exchange_ ∨ done = true ∧ ∃ body, SetsBody p mode body q := by
  rcases finish_of_read_body h with rfl | ⟨r, hfinish⟩
  · exact .inl rfl
  · exact (exchange_of_finish hfinish).imp_left And.right

/-- The calls for a body leave the rest of the exchange as it is. -/
theorem exchange_of_read_pieces {pieces : List Text} {left rest : Text} {ahead : List Text}
    (h : p.read_pieces mode left pieces = .ok (.complete q rest ahead)) :
    q.exchange_ = p.exchange_ ∨ ∃ body, SetsBody p mode body q := by
  induction pieces generalizing p left with
  | nil => cases h
  | cons piece pieces ih =>
    rw [read_pieces] at h
    obtain ⟨⟨done, p', inp⟩, hcall, h⟩ := bind_eq_ok.mp h
    have hexchange := exchange_of_read_body hcall
    simp only at h
    split at h
    · obtain ⟨rfl, -, -⟩ := Progress.complete.inj (Except.ok.inj h)
      exact hexchange.imp_right And.right
    · rename_i hdone
      have hsame : p'.exchange_ = p.exchange_ :=
        hexchange.resolve_right (fun hyes => hdone hyes.1)
      rcases ih h with hq | ⟨body, hq⟩
      · exact .inl (hq.trans hsame)
      · refine .inr ⟨body, ?_⟩
        unfold SetsBody at hq ⊢
        rw [hq, message_of_exchange hsame]
        unfold set_data_for_mode
        split <;> simp only [hsame]

/-- What calls that complete a body have found. -/
theorem outcome_of_complete {f : ChunkReader → Text → Call ChunkReader UInt8 Halt Unit}
    {m : ChunkReader → Nat} {R : BodyReader → ChunkReader → Prop}
    (h : Follows p.body_size_limit mode f m R) {r : BodyReader} {s : ChunkReader} (hr : R r s)
    {pieces : List Text} {left : Text} {ahead : List Text}
    (hrun : { p with body := r }.read_pieces mode [] pieces = .ok (.complete q left ahead)) :
    ∃ a, a.length ≤ pieces.flatten.length ∧ (drainAll f m s a).halted = some .done ∧
      (drainAll f m s a).state.body.length < 2 ^ 31 ∧
      q.body_of mode = .ok (drainAll f m s a).state.body := by
  induction pieces generalizing r s with
  | nil => cases hrun
  | cons piece pieces ih =>
    have hmode : r.state_.mode ≠ .unknown := by
      rw [h.mode hr]
      exact h.known
    have hfirst : { p with body := r }.read_body (Istream.new ([] ++ piece)) mode =
        p.continue_body r (Istream.new piece) mode := read_body_next hmode _
    rw [read_pieces, hfirst] at hrun
    cases hh : (drainAll f m s piece).halted with
    | none =>
      obtain ⟨r', inp, hcall, hspent, hr'⟩ := continue_waiting h hr hh
      rw [hcall] at hrun
      simp only [bind, Except.bind, Bool.false_eq_true, if_false, hspent] at hrun
      obtain ⟨a, hlen, hdone, hshort, hof⟩ := ih hr' hrun
      have happend := drainAll_append h.resumable trivial piece a hh
      refine ⟨piece ++ a, ?_, ?_, ?_, ?_⟩
      · rw [List.flatten_cons, List.length_append, List.length_append]
        omega
      · rw [happend]
        exact hdone
      · rw [happend]
        exact hshort
      · rw [happend]
        exact hof
    | some halt =>
      cases halt with
      | failed e =>
        rw [continue_failed h hr hh] at hrun
        cases hrun
      | done =>
        by_cases hbody : (drainAll f m s piece).state.body.length < 2 ^ 31
        · obtain ⟨q', hcall, hof, -, -⟩ := continue_done h hr hh hbody
          rw [hcall] at hrun
          obtain ⟨rfl, -, -⟩ := Progress.complete.inj (Except.ok.inj hrun)
          refine ⟨piece, ?_, hh, hbody, hof⟩
          rw [List.flatten_cons, List.length_append]
          omega
        · rw [continue_long h hr hh hbody] at hrun
          cases hrun

/-- Calls that complete a body have found its size to be within the limit. -/
theorem start_of_complete {type : BodySizeType} {size : Nat} (hidle : p.body.Idle)
    (hframing : p.expected_body_size mode = .ok (type, size)) (hnone : type ≠ .none)
    (hall : type ≠ .all) {pieces : List Text} {left : Text} {ahead : List Text}
    (hrun : p.read_pieces mode [] pieces = .ok (.complete q left ahead)) :
    size ≤ p.body_size_limit ∧
      { p with body := { p.body with state_ := ⟨mode, type, size, 0, false, false⟩ } }.read_pieces
        mode [] pieces = .ok (.complete q left ahead) := by
  cases pieces with
  | nil => cases hrun
  | cons piece pieces =>
    rw [read_pieces] at hrun
    obtain ⟨result, hcall, -⟩ := bind_eq_ok.mp hrun
    obtain ⟨hsize, hstart⟩ := read_body_begins hidle hframing hnone hall hcall
    refine ⟨hsize, ?_⟩
    rw [hstart] at hrun
    rw [read_pieces]
    exact hrun

/-- What is known of a body with an end of its own. -/
theorem accepted_body {type : BodySizeType} {size : Nat} (hidle : p.body.Idle)
    (hframing : p.expected_body_size mode = .ok (type, size)) (hnone : type ≠ .none)
    (hall : type ≠ .all) {pieces : List Text} {left : Text} {ahead : List Text}
    (hrun : p.read_pieces mode [] pieces = .ok (.complete q left ahead)) :
    ∃ body, q.body_of mode = .ok body ∧ body.length < 2 ^ 31 ∧ body.length ≤ p.body_size_limit ∧
      (type = .given → size ≤ p.body_size_limit ∧ size ≤ pieces.flatten.length ∧
        (size < 2 ^ 31 → body.length = size)) := by
  have hknown := known_of_framing hframing hnone
  obtain ⟨hsize, hrun⟩ := start_of_complete hidle hframing hnone hall hrun
  cases type with
  | none => exact absurd rfl hnone
  | all => exact absurd rfl hall
  | given =>
    have hreads := hidle.reads_given mode (given_lt hframing)
    obtain ⟨a, hlen, hdone, hshort, hof⟩ := outcome_of_complete (given_follows hknown) hreads hrun
    obtain ⟨hfew, hle, heq⟩ := length_of_given hdone
    exact ⟨_, hof, hshort, Nat.le_trans hle hsize, fun _ => ⟨hsize, Nat.le_trans hfew hlen, heq⟩⟩
  | chunked =>
    obtain rfl := chunked_size hframing
    have hreads := hidle.reads_chunks mode
    obtain ⟨a, hlen, hdone, hshort, hof⟩ := outcome_of_complete (chunk_follows hknown) hreads hrun
    exact ⟨_, hof, hshort, ChunkReader.length_of_body hshort, fun hgiven => by cases hgiven⟩

end HttpParser

end proxy.http.http1
