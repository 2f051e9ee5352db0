-- A body that arrives in pieces: what successive calls of `read_body` come to
-- where each follows a reader of the bytes.
import Aether.Http.ChunkedBodies

open util.string util.buffer lib.lines lib.resumable lib.rfc7230

namespace proxy.http.http1

namespace BodyReader

/-- A reader between two bodies. Only the counts of the segments are open. -/
structure Idle (r : BodyReader) : Prop where
  state : r.state_ = .new
  line : r.chunk_header_buf_.Open []
  suffix : r.chunk_suffix_buf_.Open []
  held : r.body_buf_.Open []

theorem idle_new : new.Idle := ⟨rfl, .mk rfl rfl rfl, .mk rfl rfl rfl, .mk rfl rfl rfl⟩

/-- The calls for a body follow a reader `f` of its bytes, from states that `R` relates. -/
structure Follows (limit : Nat) (mode : MessageMode)
    (f : ChunkReader → Text → Call ChunkReader UInt8 Halt Unit) (m : ChunkReader → Nat)
    (R : BodyReader → ChunkReader → Prop) : Prop where
  known : mode ≠ .unknown
  resumable : Resumable f (fun _ => True) m
  agrees : ∀ {r s}, R r s → ∀ a, Agrees R (r.read limit (Istream.new a)) (drainAll f m s a)
  mode : ∀ {r s}, R r s → r.state_.mode = mode
  unfinished : ∀ {r s}, R r s → r.state_.finished = false
  still : ∀ {r s}, R r s → ∀ e, (drainAll f m s []).halted ≠ some (.failed e)

end BodyReader

namespace HttpParser

open BodyReader

section

variable {p : HttpParser} {mode : MessageMode}

theorem get_data_of_known (hknown : mode ≠ .unknown) :
    ∃ msg, p.get_data_for_mode mode = .ok msg := by
  cases mode with
  | unknown => exact absurd rfl hknown
  | request => exact ⟨_, rfl⟩
  | response => exact ⟨_, rfl⟩

theorem get_set_data (hknown : mode ≠ .unknown) (msg : Message) :
    (p.set_data_for_mode mode msg).get_data_for_mode mode = .ok msg := by
  cases mode with
  | unknown => exact absurd rfl hknown
  | request => rfl
  | response => rfl

@[simp] theorem set_data_body (msg : Message) : (p.set_data_for_mode mode msg).body = p.body := by
  unfold set_data_for_mode
  split <;> rfl

@[simp] theorem set_data_limit (msg : Message) :
    (p.set_data_for_mode mode msg).body_size_limit = p.body_size_limit := by
  unfold set_data_for_mode
  split <;> rfl

theorem finish_body_unfinished {r : BodyReader} (hr : r.state_.finished = false) :
    { p with body := r }.finish_body mode = .ok (false, { p with body := r }) := by
  unfold finish_body
  rw [if_neg (by rw [hr]; decide)]
  rfl

/-- A body that is read goes to the message, if the segment can be reset. -/
theorem finish_body_finished (hknown : mode ≠ .unknown) {r : BodyReader} {body : Text}
    (hr : r.Finished body) (hbody : body.length < 2 ^ 31) :
    ∃ q, { p with body := r }.finish_body mode = .ok (true, q) ∧
      q.body_of mode = .ok body ∧ q.body.Idle ∧ q.body_size_limit = p.body_size_limit := by
  obtain ⟨msg, hmsg⟩ := get_data_of_known (p := { p with body := r }) hknown
  obtain ⟨seg, hreset, hopen⟩ := @CountedSegment.reset_open r.body_buf_
    (by rw [hr.held.held]; exact hbody)
  unfold finish_body
  rw [if_pos hr.finished, hmsg]
  simp only [bind, Except.bind, set_data_body, hreset]
  refine ⟨_, rfl, ?_, ⟨rfl, hr.line, hr.suffix, hopen⟩, ?_⟩
  · have hget := get_set_data (p := { p with body := r }) hknown { msg with body_ := body }
    simp only [body_of, CountedSegment.string_view, hr.held.held]
    exact congrArg (Except.map Message.body_) hget
  · simp

theorem finish_body_long (hknown : mode ≠ .unknown) {r : BodyReader} {body : Text}
    (hr : r.Finished body) (hbody : ¬ body.length < 2 ^ 31) :
    { p with body := r }.finish_body mode = .error .undefined := by
  obtain ⟨msg, hmsg⟩ := get_data_of_known (p := { p with body := r }) hknown
  have hreset := @CountedSegment.reset_long r.body_buf_ (by rw [hr.held.held]; exact hbody)
  unfold finish_body
  rw [if_pos hr.finished, hmsg]
  simp only [bind, Except.bind, set_data_body, hreset]

end

/-! ## Calls that follow a reader -/

section

variable {p : HttpParser} {mode : MessageMode}
  {f : ChunkReader → Text → Call ChunkReader UInt8 Halt Unit} {m : ChunkReader → Nat}
  {R : BodyReader → ChunkReader → Prop} (h : Follows p.body_size_limit mode f m R)
  {r : BodyReader} {s : ChunkReader} (hr : R r s)

include h hr

/-- A call that finds too little. -/
theorem continue_waiting {a : Text} (ha : (drainAll f m s a).halted = none) :
    ∃ r' inp, p.continue_body r (Istream.new a) mode = .ok (false, { p with body := r' }, inp) ∧
      inp.rdbuf = [] ∧ R r' (drainAll f m s a).state := by
  have hagree := h.agrees hr a
  generalize hd : drainAll f m s a = d at ha hagree ⊢
  generalize hread : r.read p.body_size_limit (Istream.new a) = result at hagree
  cases hagree with
  | @waiting r' inp s' rest items reads spent =>
    refine ⟨r', inp, continue_body_eq_ok.mpr ⟨r', hread, ?_⟩, spent, reads⟩
    exact finish_body_unfinished (h.unfinished reads)
  | done finished => cases ha
  | failed => cases ha

/-- A call that finds the end of the body. -/
theorem continue_done {a : Text} (ha : (drainAll f m s a).halted = some .done)
    (hbody : (drainAll f m s a).state.body.length < 2 ^ 31) :
    ∃ q, p.continue_body r (Istream.new a) mode =
        .ok (true, q, Istream.new (drainAll f m s a).rest) ∧
      q.body_of mode = .ok (drainAll f m s a).state.body ∧ q.body.Idle ∧
      q.body_size_limit = p.body_size_limit := by
  have hagree := h.agrees hr a
  generalize hd : drainAll f m s a = d at ha hagree hbody ⊢
  generalize hread : r.read p.body_size_limit (Istream.new a) = result at hagree
  cases hagree with
  | waiting reads spent => cases ha
  | @done r' s' rest items finished =>
    obtain ⟨q, hq, hof, hidle, hlimit⟩ := finish_body_finished (p := p) h.known finished hbody
    exact ⟨q, continue_body_eq_ok.mpr ⟨r', hread, hq⟩, hof, hidle, hlimit⟩
  | failed => cases ha

theorem continue_failed {a : Text} {e : Error} (ha : (drainAll f m s a).halted = some (.failed e)) :
    p.continue_body r (Istream.new a) mode = .error e := by
  have hagree := h.agrees hr a
  generalize hd : drainAll f m s a = d at ha hagree ⊢
  generalize hread : r.read p.body_size_limit (Istream.new a) = result at hagree
  cases hagree with
  | waiting reads spent => cases ha
  | done finished => cases ha
  | failed =>
    cases ha
    unfold continue_body
    rw [hread]
    rfl

theorem continue_long {a : Text} (ha : (drainAll f m s a).halted = some .done)
    (hbody : ¬ (drainAll f m s a).state.body.length < 2 ^ 31) :
    p.continue_body r (Istream.new a) mode = .error .undefined := by
  have hagree := h.agrees hr a
  generalize hd : drainAll f m s a = d at ha hagree hbody ⊢
  generalize hread : r.read p.body_size_limit (Istream.new a) = result at hagree
  cases hagree with
  | waiting reads spent => cases ha
  | done finished =>
    unfold continue_body
    rw [hread]
    simp only [bind, Except.bind, finish_body_long (p := p) h.known finished hbody]
  | failed => cases ha

/-- The calls before the end of a body leave a reader that takes more as if it came at once. -/
theorem read_pieces_open {before : List Text}
    (ho : before = [] ∨ (drainAll f m s before.flatten).halted = none) : ∃ r' s' items, R r' s' ∧
      (∀ a, drainAll f m s (before.flatten ++ a) = (drainAll f m s' a).after items) ∧
      ∀ more, { p with body := r }.read_pieces mode [] (before ++ more) =
        { p with body := r' }.read_pieces mode [] more := by
  induction before generalizing r s with
  | nil => exact ⟨r, s, [], hr, fun a => rfl, fun more => rfl⟩
  | cons piece before ih =>
    have ho : (drainAll f m s (piece :: before).flatten).halted = none :=
      ho.resolve_left (List.cons_ne_nil _ _)
    rw [List.flatten_cons] at ho
    have hpiece : (drainAll f m s piece).halted = none := by
      cases hh : (drainAll f m s piece).halted with
      | none => rfl
      | some e =>
        rw [drainAll_append_halted h.resumable trivial _ _ hh] at ho
        rw [← hh]
        exact ho
    obtain ⟨r', inp, hcall, hspent, hr'⟩ := continue_waiting h hr hpiece
    have happend : ∀ a, drainAll f m s (piece ++ a) =
        (drainAll f m (drainAll f m s piece).state a).after (drainAll f m s piece).items :=
      fun a => drainAll_append h.resumable trivial _ _ hpiece
    rw [happend] at ho
    obtain ⟨r'', s'', items, hr'', hall, hmore⟩ := ih hr' (.inr ho)
    refine ⟨r'', s'', (drainAll f m s piece).items ++ items, hr'', ?_, ?_⟩
    · intro a
      rw [List.flatten_cons, List.append_assoc, happend, hall]
      simp [Drained.after]
    · intro more
      have hmode : r.state_.mode ≠ .unknown := by
        rw [h.mode hr]
        exact h.known
      have hfirst : { p with body := r }.read_body (Istream.new ([] ++ piece)) mode =
          .ok (false, { p with body := r' }, inp) := by
        rw [read_body_next hmode]
        exact hcall
      rw [List.cons_append, read_pieces, hfirst]
      simp only [bind, Except.bind, Bool.false_eq_true, if_false, hspent]
      exact hmore more

/-- The call that finds the end of a body, behind calls that do not. -/
theorem read_pieces_done {before : List Text} {last : Text}
    (ho : before = [] ∨ (drainAll f m s before.flatten).halted = none)
    (hd : (drainAll f m s (before.flatten ++ last)).halted = some .done)
    (hbody : (drainAll f m s (before.flatten ++ last)).state.body.length < 2 ^ 31)
    (ahead : List Text) :
    ∃ q, { p with body := r }.read_pieces mode [] (before ++ last :: ahead) =
        .ok (.complete q (drainAll f m s (before.flatten ++ last)).rest ahead) ∧
      q.body_of mode = .ok (drainAll f m s (before.flatten ++ last)).state.body ∧
      q.body.Idle ∧ q.body_size_limit = p.body_size_limit := by
  obtain ⟨r', s', items, hr', hall, hmore⟩ := read_pieces_open h hr ho
  have hlast := hall last
  rw [hlast] at hd hbody ⊢
  obtain ⟨q, hcall, hof, hidle, hlimit⟩ := continue_done h hr' hd hbody
  have hmode : r'.state_.mode ≠ .unknown := by
    rw [h.mode hr']
    exact h.known
  have hfirst : { p with body := r' }.read_body (Istream.new ([] ++ last)) mode =
      .ok (true, q, Istream.new (drainAll f m s' last).rest) := by
    rw [read_body_next hmode]
    exact hcall
  refine ⟨q, ?_, hof, hidle, hlimit⟩
  rw [hmore, read_pieces, hfirst]
  rfl

/-- Calls that come to a failure end with it. -/
theorem read_pieces_failed {pieces : List Text} {e : Error}
    (hf : (drainAll f m s pieces.flatten).halted = some (.failed e)) (more : List Text) :
    { p with body := r }.read_pieces mode [] (pieces ++ more) = .error e := by
  induction pieces generalizing r s with
  | nil =>
    exact absurd hf (h.still hr e)
  | cons piece pieces ih =>
    rw [List.flatten_cons] at hf
    have hmode : r.state_.mode ≠ .unknown := by
      rw [h.mode hr]
      exact h.known
    cases hh : (drainAll f m s piece).halted with
    | none =>
      obtain ⟨r', inp, hcall, hspent, hr'⟩ := continue_waiting h hr hh
      have hfirst : { p with body := r }.read_body (Istream.new ([] ++ piece)) mode =
          .ok (false, { p with body := r' }, inp) := by
        rw [read_body_next hmode]
        exact hcall
      rw [drainAll_append h.resumable trivial _ _ hh] at hf
      rw [List.cons_append, read_pieces, hfirst]
      simp only [bind, Except.bind, Bool.false_eq_true, if_false, hspent]
      exact ih hr' hf
    | some halt =>
      rw [drainAll_append_halted h.resumable trivial _ _ hh] at hf
      have hhalt : halt = .failed e := Option.some.inj (hh ▸ hf)
      subst hhalt
      have hfirst : { p with body := r }.read_body (Istream.new ([] ++ piece)) mode = .error e := by
        rw [read_body_next hmode]
        exact continue_failed h hr hh
      rw [List.cons_append, read_pieces, hfirst]
      rfl

/-- A body that calls complete is one that a segment can be reset from. -/
theorem length_of_complete {pieces : List Text} {q : HttpParser} {left : Text} {ahead : List Text}
    (hrun : { p with body := r }.read_pieces mode [] pieces = .ok (.complete q left ahead)) :
    ∃ body, q.body_of mode = .ok body ∧ body.length < 2 ^ 31 := by
  induction pieces generalizing r s with
  | nil => cases hrun
  | cons piece pieces ih =>
    have hmode : r.state_.mode ≠ .unknown := by
      rw [h.mode hr]
      exact h.known
    have hfirst : { p with body := r }.read_body (Istream.new ([] ++ piece)) mode =
        p.continue_body r (Istream.new piece) mode := read_body_next hmode _
    rw [read_pieces, hfirst] at hrun
    cases hh : (drainAll f m s piece).halted with
    | none =>
      obtain ⟨r', inp, hcall, hspent, hr'⟩ := continue_waiting h hr hh
      rw [hcall] at hrun
      simp only [bind, Except.bind, Bool.false_eq_true, if_false, hspent] at hrun
      exact ih hr' hrun
    | some halt =>
      cases halt with
      | failed e =>
        rw [continue_failed h hr hh] at hrun
        cases hrun
      | done =>
        by_cases hbody : (drainAll f m s piece).state.body.length < 2 ^ 31
        · obtain ⟨q', hcall, hof, -, -⟩ := continue_done h hr hh hbody
          rw [hcall] at hrun
          obtain ⟨rfl, -, -⟩ := Progress.complete.inj (Except.ok.inj hrun)
          exact ⟨_, hof, hbody⟩
        · rw [continue_long h hr hh hbody] at hrun
          cases hrun

omit hr in
/-- Nothing short of all that a reader takes stops it. -/
theorem open_of_prefix {s : ChunkReader} {e t u : Text}
    (hrest : (drainAll f m s e).rest = []) (he : e = u ++ t) (ht : t ≠ []) :
    (drainAll f m s u).halted = none := by
  cases hh : (drainAll f m s u).halted with
  | none => rfl
  | some halt =>
    rw [he, drainAll_append_halted h.resumable trivial _ _ hh] at hrest
    exact absurd (List.append_eq_nil_iff.mp hrest).2 ht

end

end HttpParser

end proxy.http.http1
