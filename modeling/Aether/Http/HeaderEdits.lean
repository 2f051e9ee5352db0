-- Sequences of calls that change the headers of a message, against what
-- `message.hpp` says of them: which values a name has after a call, and that the
-- headers of other names stay as they are.
import Aether.Http.Message
import Aether.Lib.Runs

open util.string lib.runs

namespace proxy.http

/-! ## Filtered fields -/

theorem filter_emplace_false {p : Header → Bool} {name value : Text} (hp : p (name, value) = false)
    (fields : List Header) : (emplace name value fields).filter p = fields.filter p := by
  induction fields with
  | nil => simp [emplace, hp]
  | cons f fields ih =>
    unfold emplace
    split
    · rw [List.filter_cons_of_neg (by simp [hp])]
    · rw [List.filter_cons, List.filter_cons, ih]

/-- A new entry is the last of its name. -/
theorem filter_emplace_name {fields : List Header} (ho : Ordered fields) {name key : Text}
    (h : iequals_fn name key = true) (value : Text) :
    (emplace name value fields).filter (fun f => iequals_fn f.1 key) =
      fields.filter (fun f => iequals_fn f.1 key) ++ [(name, value)] := by
  induction fields with
  | nil => simp [emplace, h]
  | cons f fields ih =>
    obtain ⟨hf, hfields⟩ := List.pairwise_cons.mp ho
    unfold emplace
    split
    · rename_i hless
      have hlower : lowercase name = lowercase key := beq_iff_eq.mp h
      have hother : ∀ g ∈ f :: fields, iequals_fn g.1 key = false := by
        intro g hg
        have hnot : iless_fn g.1 f.1 = false := by
          rcases List.mem_cons.mp hg with rfl | hg
          · exact iless_irrefl g.1
          · exact hf g hg
        by_contra heq
        have hsame : lowercase g.1 = lowercase name :=
          (beq_iff_eq.mp (Bool.eq_true_of_not_eq_false heq)).trans hlower.symm
        unfold iless_fn at hless hnot
        rw [hsame] at hnot
        rw [hnot] at hless
        cases hless
      have hnone : (f :: fields).filter (fun f => iequals_fn f.1 key) = [] :=
        List.filter_eq_nil_iff.mpr (by simpa using hother)
      rw [List.filter_cons_of_pos (by exact h), hnone]
      rfl
    · rw [List.filter_cons, List.filter_cons, ih hfields]
      split
      · rfl
      · rfl

theorem filter_eraseP (p : Header → Bool) (fields : List Header) :
    (fields.eraseP p).filter p = (fields.filter p).tail := by
  induction fields with
  | nil => rfl
  | cons f fields ih =>
    by_cases hf : p f = true
    · rw [List.eraseP_cons_of_pos hf, List.filter_cons_of_pos hf, List.tail_cons]
    · rw [List.eraseP_cons_of_neg hf, List.filter_cons_of_neg hf, List.filter_cons_of_neg hf, ih]

theorem filter_not_eraseP (p : Header → Bool) (fields : List Header) :
    (fields.eraseP p).filter (fun f => !p f) = fields.filter (fun f => !p f) := by
  induction fields with
  | nil => rfl
  | cons f fields ih =>
    by_cases hf : p f = true
    · rw [List.eraseP_cons_of_pos hf, List.filter_cons_of_neg (by simp [hf])]
    · rw [List.eraseP_cons_of_neg hf, List.filter_cons, List.filter_cons, ih]

/-! ## The values of a name, and the other headers -/

/-- The headers of all other names. -/
def Headers.others (h : Headers) (name : Text) : List Header :=
  h.fields.filter (fun f => !iequals_fn f.1 name)

namespace Message

variable (msg : Message)

theorem get_all_of_added (name value : Text) :
    (msg.add_header name value).get_all_of_header name = msg.get_all_of_header name ++ [value] := by
  have hname : iequals_fn name name = true := beq_self_eq_true _
  unfold get_all_of_header Headers.equal_range add_header Headers.emplace
  rw [filter_emplace_name msg.headers_.ordered hname value, List.map_append]
  rfl

theorem get_all_of_removed (name : Text) :
    (msg.remove_header name).get_all_of_header name = (msg.get_all_of_header name).tail := by
  unfold get_all_of_header Headers.equal_range remove_header Headers.erase
  rw [filter_eraseP, List.map_tail]

theorem others_added (name value : Text) :
    (msg.add_header name value).headers_.others name = msg.headers_.others name := by
  have hname : iequals_fn name name = true := beq_self_eq_true _
  exact filter_emplace_false (by simp [hname]) _

theorem others_removed (name : Text) :
    (msg.remove_header name).headers_.others name = msg.headers_.others name :=
  filter_not_eraseP _ _

theorem get_all_of_set (name value : Text) :
    (msg.set_header_to_value name value).get_all_of_header name =
      (msg.get_all_of_header name).tail ++ [value] := by
  rw [← msg.get_all_of_removed]
  exact (msg.remove_header name).get_all_of_added name value

/-- The value that is got is the first. -/
theorem get_header_toOption (name : Text) :
    (msg.get_header name).toOption = (msg.get_all_of_header name).head? := by
  unfold get_all_of_header Headers.equal_range
  rw [List.head?_map, List.head?_filter]
  unfold get_header Headers.find
  split
  · rename_i f hfind
    exact (congrArg (Option.map Prod.snd) hfind).symm
  · rename_i hnone
    exact (congrArg (Option.map Prod.snd) hnone).symm

/-! ## The calls -/

inductive Edit where
  | add_header (name value : Text)
  | remove_header (name : Text)
  | set_header_to_value (name value : Text)
  | set_content_length
  deriving DecidableEq, Repr

/-- The message after a call. -/
def edit : Edit → Message
  | .add_header name value => msg.add_header name value
  | .remove_header name => msg.remove_header name
  | .set_header_to_value name value => msg.set_header_to_value name value
  | .set_content_length => msg.set_content_length

def Edit.name : Edit → Text
  | .add_header name _ => name
  | .remove_header name => name
  | .set_header_to_value name _ => name
  | .set_content_length => text "Content-Length"

/-- The values that the name of a call is to have after it. -/
def to_leave : Edit → List Text
  | .add_header name value => msg.get_all_of_header name ++ [value]
  | .remove_header _ => []
  | .set_header_to_value _ value => [value]
  | .set_content_length => [decimal msg.body_.length]

/-- A call does what `message.hpp` says. -/
structure Sound (e : Edit) : Prop where
  values : (msg.edit e).get_all_of_header e.name = msg.to_leave e
  others : (msg.edit e).headers_.others e.name = msg.headers_.others e.name

/-- No header of the name of a call stands in its way. -/
def Clear : Edit → Prop
  | .add_header _ _ => True
  | .remove_header name => (msg.get_all_of_header name).length ≤ 1
  | .set_header_to_value name _ => (msg.get_all_of_header name).length ≤ 1
  | .set_content_length => msg.get_all_of_header (text "Content-Length") = []

theorem tail_eq_nil_iff {l : List Text} : l.tail = [] ↔ l.length ≤ 1 := by
  rw [← List.length_eq_zero_iff, List.length_tail]
  omega

theorem others_edited (e : Edit) :
    (msg.edit e).headers_.others e.name = msg.headers_.others e.name := by
  cases e with
  | add_header name value => exact msg.others_added name value
  | remove_header name => exact msg.others_removed name
  | set_header_to_value name value =>
    exact ((msg.remove_header name).others_added name value).trans (msg.others_removed name)
  | set_content_length => exact msg.others_added _ _

theorem sound_iff (e : Edit) : msg.Sound e ↔ msg.Clear e := by
  have hothers := msg.others_edited e
  have hvalues : (msg.edit e).get_all_of_header e.name = msg.to_leave e ↔ msg.Clear e := by
    cases e with
    | add_header name value => exact iff_of_true (msg.get_all_of_added name value) trivial
    | remove_header name =>
      have hremoved := msg.get_all_of_removed name
      exact (iff_of_eq (congrArg (· = []) hremoved)).trans tail_eq_nil_iff
    | set_header_to_value name value =>
      have hset := msg.get_all_of_set name value
      refine (iff_of_eq (congrArg (· = [value]) hset)).trans ?_
      rw [List.append_left_eq_self]
      exact tail_eq_nil_iff
    | set_content_length =>
      have hadded := msg.get_all_of_added (text "Content-Length") (decimal msg.body_.length)
      refine (iff_of_eq (congrArg (· = [decimal msg.body_.length]) hadded)).trans ?_
      rw [List.append_left_eq_self]
      rfl
  constructor
  · intro h
    exact hvalues.mp h.values
  · intro h
    exact ⟨hvalues.mpr h, hothers⟩

/-- Calls cannot fail. -/
def step (msg : Message) (e : Edit) : Option Message := some (msg.edit e)

/-- All calls of a sequence do what is said of them exactly if at each of them at most one header
stands in its way that it removes, and none that it does not. -/
theorem all_edits_are_sound_iff (es : List Edit) :
    EachStep step Sound msg es ↔ EachStep step Clear msg es :=
  eachStep_iff (I := fun _ => True) (fun s e _ _ _ => s.sound_iff e) (fun _ _ _ _ _ _ => trivial)
    trivial es

/-- Two hosts, and a date. -/
def a_message_with_two_hosts : Message :=
  ((Message.new.add_header (text "Host") (text "a")).add_header (text "Date")
    (text "now")).add_header (text "host") (text "b")

/-- The second host stays behind. -/
theorem a_second_host_is_not_removed :
    ¬ EachStep step Sound a_message_with_two_hosts [.remove_header (text "HOST")] := by
  intro h
  have hvalues := (h _ rfl).1.values
  revert hvalues
  decide

end Message

end proxy.http
