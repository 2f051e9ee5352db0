-- The interceptors of a service, `intercept/base_interceptor_service.hpp`.
--
-- The functions stand in a map for each event, and a second map has the event of each id. An id
-- is a number that goes up with each call of `attach`, so the order of the ids is the order of
-- the attachments, until the number wraps.
import Mathlib.Algebra.Group.Nat.Defs
import Mathlib.Data.List.Infix
import Mathlib.Data.List.Nodup
import Mathlib.Logic.Function.Basic
import Aether.Lib.OrderedMap

open lib.ordered_map

namespace proxy.intercept

/-- The order of `std::map<interceptor_id, _>`. -/
def less_id (a b : Nat) : Bool := decide (a < b)

instance : WeakOrder less_id where
  irrefl a := decide_eq_false (Nat.lt_irrefl a)
  trans hab hbc := decide_eq_true (Nat.lt_trans (of_decide_eq_true hab) (of_decide_eq_true hbc))
  between b hac := by
    have hlt := of_decide_eq_true hac
    rcases Nat.lt_or_ge _ b with h | h
    · exact Or.inl (decide_eq_true h)
    · exact Or.inr (decide_eq_true (Nat.lt_of_le_of_lt h hlt))

theorem same_id (a b : Nat) : same less_id a b = (a == b) := by
  apply Bool.eq_iff_iff.mpr
  simp only [same, less_id, Bool.and_eq_true, Bool.not_eq_true', decide_eq_false_iff_not,
    beq_iff_eq]
  omega

/-! ## The service -/

def not_attached : Nat := 0

structure BaseInterceptorService (Event F : Type) where
  next_id_ : Nat
  interceptors_ : Event → Option (OrderedMap less_id F)
  interceptor_lookup_ : OrderedMap less_id Event

namespace BaseInterceptorService

variable {Event F Args : Type} [DecidableEq Event]

def new : BaseInterceptorService Event F :=
  ⟨not_attached + 1, fun _ => none, .empty⟩

/-- `attach`: the id that is returned, and the service with the function. -/
def attach (s : BaseInterceptorService Event F) (ev : Event) (func : F) :
    Nat × BaseInterceptorService Event F :=
  let event_map :=
    match s.interceptors_ ev with
    | none => OrderedMap.empty.emplace s.next_id_ func
    | some event_map => event_map.emplace s.next_id_ func
  (s.next_id_, {
    next_id_ := (s.next_id_ + 1) % 2 ^ 64
    interceptors_ := Function.update s.interceptors_ ev (some event_map)
    interceptor_lookup_ := s.interceptor_lookup_.emplace s.next_id_ ev })

def detach (s : BaseInterceptorService Event F) (id : Nat) : BaseInterceptorService Event F :=
  match s.interceptor_lookup_.find id with
  | none => s
  | some ev =>
    let interceptors :=
      match s.interceptors_ ev with
      | none => s.interceptors_
      | some event_map => Function.update s.interceptors_ ev (some (event_map.erase id))
    { s with
      interceptors_ := interceptors
      interceptor_lookup_ := s.interceptor_lookup_.erase id }

/-- The ids and the functions of an event. -/
def event_entries (s : BaseInterceptorService Event F) (ev : Event) : List (Nat × F) :=
  match s.interceptors_ ev with
  | none => []
  | some event_map => event_map.entries

/-- The functions that `run` calls, in their order and with what they are given. -/
def run (s : BaseInterceptorService Event F) (ev : Event) (args : Args) : List (F × Args) :=
  match s.interceptors_ ev with
  | none => []
  | some event_map => event_map.entries.map (fun e => (e.2, args))

end BaseInterceptorService

/-! ## What has been attached -/

/-- A call, with the id that it returned or was given. -/
inductive Call (Event F : Type) where
  | attach (id : Nat) (ev : Event) (func : F)
  | detach (id : Nat)
  deriving DecidableEq, Repr

/-- A function that is attached. -/
structure Attachment (Event F : Type) where
  id : Nat
  ev : Event
  func : F
  deriving DecidableEq, Repr

namespace Call

variable {Event F : Type}

/-- The attachments after a call, in the order that they were made in. -/
def apply (live : List (Attachment Event F)) : Call Event F → List (Attachment Event F)
  | .attach id ev func => live ++ [⟨id, ev, func⟩]
  | .detach id => live.filter (fun a => a.id != id)

/-- What is attached after some calls. -/
def live (calls : List (Call Event F)) : List (Attachment Event F) := calls.foldl apply []

/-- The id that a call returns. -/
def returned : Call Event F → Option Nat
  | .attach id _ _ => some id
  | .detach _ => none

/-- The ids that were returned. -/
def ids (calls : List (Call Event F)) : List Nat := calls.filterMap returned

theorem live_concat (calls : List (Call Event F)) (call : Call Event F) :
    live (calls ++ [call]) = apply (live calls) call := by
  rw [live, List.foldl_append]
  rfl

theorem ids_attach (calls : List (Call Event F)) (id : Nat) (ev : Event) (func : F) :
    ids (calls ++ [.attach id ev func]) = ids calls ++ [id] := List.filterMap_append ..

theorem ids_detach (calls : List (Call Event F)) (id : Nat) :
    ids (calls ++ [.detach id]) = ids calls := by
  rw [ids, List.filterMap_append]
  exact List.append_nil _

/-- The ids of what is attached are among those that were returned, in the same order. -/
theorem live_ids_sublist (calls : List (Call Event F)) :
    List.Sublist ((live calls).map Attachment.id) (ids calls) := by
  induction calls using List.reverseRecOn with
  | nil => exact List.Sublist.refl []
  | append_singleton calls call ih =>
    rw [live_concat]
    cases call with
    | attach id ev func =>
      rw [ids_attach, apply, List.map_append]
      exact ih.append (List.Sublist.refl [id])
    | detach id =>
      rw [ids_detach, apply]
      exact (List.filter_sublist.map _).trans ih

end Call

/-- The calls that were made on a service, and what they made of it. -/
inductive History {Event F : Type} [DecidableEq Event] :
    BaseInterceptorService Event F → List (Call Event F) → Prop where
  | new : History .new []
  | attach {s : BaseInterceptorService Event F} {calls : List (Call Event F)}
      (before : History s calls) (ev : Event) (func : F) :
      History (s.attach ev func).2 (calls ++ [.attach (s.attach ev func).1 ev func])
  | detach {s : BaseInterceptorService Event F} {calls : List (Call Event F)}
      (before : History s calls) (id : Nat) : History (s.detach id) (calls ++ [.detach id])

/-- What is promised of a service after some calls. -/
structure Kept {Event F : Type} [DecidableEq Event] (Args : Type)
    (s : BaseInterceptorService Event F) (calls : List (Call Event F)) : Prop where
  ids_unique : (Call.ids calls).Nodup
  ids_attached : ∀ id ∈ Call.ids calls, id ≠ not_attached
  same_pairs : ∀ id ev, s.interceptor_lookup_.find id = some ev ↔
    ∃ func, (id, func) ∈ s.event_entries ev
  detach_unknown : ∀ id, (∀ a ∈ Call.live calls, a.id ≠ id) → s.detach id = s
  run_attached : ∀ (ev : Event) (args : Args),
    s.run ev args = ((Call.live calls).filter (fun a => a.ev = ev)).map (fun a => (a.func, args))

/-! ## The invariant -/

section

variable {Event F Args : Type} [DecidableEq Event] {s : BaseInterceptorService Event F}
  {calls : List (Call Event F)}

/-- The ids count the calls, and both maps have what is attached. -/
structure Inv (s : BaseInterceptorService Event F) (calls : List (Call Event F)) : Prop where
  ids_eq : Call.ids calls = List.range' 1 (Call.ids calls).length
  next_eq : s.next_id_ = ((Call.ids calls).length + 1) % 2 ^ 64
  lookup_eq : s.interceptor_lookup_.entries = (Call.live calls).map (fun a => (a.id, a.ev))
  events_eq : ∀ ev, s.event_entries ev =
    ((Call.live calls).filter (fun a => a.ev = ev)).map (fun a => (a.id, a.func))

theorem Inv.ids_nodup (h : Inv s calls) : (Call.ids calls).Nodup := by
  rw [h.ids_eq]
  exact List.nodup_range'

theorem Inv.id_range (h : Inv s calls) {id : Nat} (hid : id ∈ Call.ids calls) :
    0 < id ∧ id ≤ (Call.ids calls).length := by
  rw [h.ids_eq, List.mem_range'_1] at hid
  omega

theorem Inv.live_range (h : Inv s calls) {a : Attachment Event F} (ha : a ∈ Call.live calls) :
    a.id ≤ (Call.ids calls).length :=
  (h.id_range ((Call.live_ids_sublist calls).subset (List.mem_map_of_mem ha))).2

/-- An id stands for one attachment. -/
theorem Inv.live_unique (h : Inv s calls) {a b : Attachment Event F} (ha : a ∈ Call.live calls)
    (hb : b ∈ Call.live calls) (hid : a.id = b.id) : a = b :=
  List.inj_on_of_nodup_map (h.ids_nodup.sublist (Call.live_ids_sublist calls)) ha hb hid

theorem Inv.find_eq_some_iff (h : Inv s calls) {id : Nat} {ev : Event} :
    s.interceptor_lookup_.find id = some ev ↔ ∃ a ∈ Call.live calls, a.id = id ∧ a.ev = ev := by
  rw [OrderedMap.find_eq_some_iff, h.lookup_eq]
  constructor
  · rintro ⟨e, he, hid, hev⟩
    obtain ⟨a, ha, rfl⟩ := List.mem_map.mp he
    rw [same_id, beq_iff_eq] at hid
    exact ⟨a, ha, hid, hev⟩
  · rintro ⟨a, ha, hid, hev⟩
    exact ⟨(a.id, a.ev), List.mem_map_of_mem ha, by rw [same_id, beq_iff_eq, hid], hev⟩

theorem Inv.find_eq_none (h : Inv s calls) {id : Nat} (hid : ∀ a ∈ Call.live calls, a.id ≠ id) :
    s.interceptor_lookup_.find id = none := by
  cases hfind : s.interceptor_lookup_.find id with
  | none => rfl
  | some ev =>
    obtain ⟨a, ha, heq, -⟩ := h.find_eq_some_iff.mp hfind
    exact absurd heq (hid a ha)

theorem inv_new : Inv (.new : BaseInterceptorService Event F) [] :=
  ⟨rfl, rfl, rfl, fun _ => rfl⟩

/-- The new id is greater than those before, so it goes to the end of its event. -/
theorem attach_entries (ev : Event) (func : F)
    (hnext : ∀ e ∈ s.event_entries ev, e.1 < s.next_id_) (ev' : Event) :
    (s.attach ev func).2.event_entries ev' =
      s.event_entries ev' ++ if ev' = ev then [(s.next_id_, func)] else [] := by
  by_cases hev : ev' = ev
  · subst hev
    simp only [BaseInterceptorService.attach, BaseInterceptorService.event_entries,
      Function.update_self] at hnext ⊢
    rw [if_pos trivial]
    cases hmap : s.interceptors_ ev' with
    | none => rfl
    | some event_map =>
      rw [hmap] at hnext
      exact OrderedMap.emplace_of_greater (fun e he => decide_eq_true (hnext e he)) func
  · simp only [BaseInterceptorService.attach, BaseInterceptorService.event_entries,
      Function.update_of_ne hev, if_neg hev, List.append_nil]

theorem Inv.attach (h : Inv s calls) (hcount : (Call.ids calls).length < 2 ^ 64 - 1) (ev : Event)
    (func : F) :
    Inv (s.attach ev func).2 (calls ++ [.attach (s.attach ev func).1 ev func]) := by
  have hid : (s.attach ev func).1 = s.next_id_ := rfl
  have hnext_eq : s.next_id_ = (Call.ids calls).length + 1 := by
    rw [h.next_eq]
    exact Nat.mod_eq_of_lt (by omega)
  have hless : ∀ a ∈ Call.live calls, a.id < s.next_id_ := by
    intro a ha
    have hle := h.live_range ha
    omega
  have hlength : (Call.ids calls ++ [s.next_id_]).length = (Call.ids calls).length + 1 :=
    List.length_append
  rw [hid]
  refine ⟨?_, ?_, ?_, ?_⟩
  · rw [Call.ids_attach, hlength, List.range'_concat, ← h.ids_eq, hnext_eq]
    simp [Nat.add_comm]
  · rw [Call.ids_attach, hlength, ← hnext_eq]
    rfl
  · have hgreater : ∀ e ∈ s.interceptor_lookup_.entries, less_id e.1 s.next_id_ = true := by
      intro e he
      rw [h.lookup_eq] at he
      obtain ⟨a, ha, rfl⟩ := List.mem_map.mp he
      exact decide_eq_true (hless a ha)
    have hentries := OrderedMap.emplace_of_greater hgreater ev
    rw [h.lookup_eq] at hentries
    rw [Call.live_concat, Call.apply, List.map_append]
    exact hentries
  · intro ev'
    have hnext : ∀ e ∈ s.event_entries ev, e.1 < s.next_id_ := by
      intro e he
      rw [h.events_eq] at he
      obtain ⟨a, ha, rfl⟩ := List.mem_map.mp he
      exact hless a (List.mem_of_mem_filter ha)
    rw [attach_entries ev func hnext, h.events_eq, Call.live_concat, Call.apply,
      List.filter_append, List.map_append]
    by_cases hev : ev' = ev
    · subst hev
      simp
    · simp [hev, Ne.symm hev]

/-- Both maps lose the id. -/
theorem detach_of_some {id : Nat} {ev : Event} (h : s.interceptor_lookup_.find id = some ev) :
    (s.detach id).interceptor_lookup_ = s.interceptor_lookup_.erase id ∧
    (s.detach id).next_id_ = s.next_id_ ∧
    ∀ ev', (s.detach id).event_entries ev' =
      if ev' = ev then (s.event_entries ev').filter (fun e => !same less_id e.1 id)
      else s.event_entries ev' := by
  simp only [BaseInterceptorService.detach, h, true_and]
  intro ev'
  unfold BaseInterceptorService.event_entries
  by_cases hev : ev' = ev
  · subst hev
    rw [if_pos rfl]
    cases hmap : s.interceptors_ ev' with
    | none => simp only [hmap, List.filter_nil]
    | some event_map => simp only [Function.update_self, OrderedMap.erase]
  · rw [if_neg hev]
    cases s.interceptors_ ev with
    | none => rfl
    | some event_map => simp only [Function.update_of_ne hev]

theorem Inv.detach (h : Inv s calls) (id : Nat) : Inv (s.detach id) (calls ++ [.detach id]) := by
  cases hfind : s.interceptor_lookup_.find id with
  | none =>
    have hsame : s.detach id = s := by
      unfold BaseInterceptorService.detach
      rw [hfind]
    have hother : ∀ a ∈ Call.live calls, a.id ≠ id := by
      intro a ha hid
      have hsome := h.find_eq_some_iff.mpr ⟨a, ha, hid, rfl⟩
      rw [hfind] at hsome
      cases hsome
    have hlive : Call.live (calls ++ [.detach id]) = Call.live calls := by
      rw [Call.live_concat, Call.apply, List.filter_eq_self]
      intro a ha
      exact bne_iff_ne.mpr (hother a ha)
    rw [hsame]
    exact ⟨by rw [Call.ids_detach]; exact h.ids_eq, by rw [Call.ids_detach]; exact h.next_eq,
      by rw [hlive]; exact h.lookup_eq, by rw [hlive]; exact h.events_eq⟩
  | some ev =>
    obtain ⟨hlookup, hnext, hevents⟩ := detach_of_some hfind
    obtain ⟨b, hb, hbid, hbev⟩ := h.find_eq_some_iff.mp hfind
    refine ⟨?_, ?_, ?_, ?_⟩
    · rw [Call.ids_detach]
      exact h.ids_eq
    · rw [Call.ids_detach, hnext]
      exact h.next_eq
    · have hentries : (s.interceptor_lookup_.erase id).entries =
          s.interceptor_lookup_.entries.filter (fun e => !same less_id e.1 id) := rfl
      rw [hlookup, hentries, h.lookup_eq, Call.live_concat, Call.apply, List.filter_map]
      simp only [Function.comp_def, same_id, bne]
    · intro ev'
      rw [hevents, h.events_eq, Call.live_concat, Call.apply, List.filter_filter]
      by_cases hev : ev' = ev
      · rw [if_pos hev, List.filter_map, List.filter_filter]
        simp only [Function.comp_def, same_id, bne, Bool.and_comm]
      · rw [if_neg hev]
        congr 1
        apply List.filter_congr
        intro a ha
        by_cases haid : a.id = id
        · obtain rfl := h.live_unique ha hb (haid.trans hbid.symm)
          simp [hbev, Ne.symm hev]
        · simp [haid]

/-- The calls return at most so many ids, at any time. -/
theorem inv_of_history (h : History s calls) (hcount : (Call.ids calls).length < 2 ^ 64) :
    Inv s calls := by
  induction h with
  | new => exact inv_new
  | attach before ev func ih =>
    rw [Call.ids_attach, List.length_append, List.length_singleton] at hcount
    exact (ih (by omega)).attach (by omega) ev func
  | detach before id ih =>
    rw [Call.ids_detach] at hcount
    exact (ih hcount).detach id

omit [DecidableEq Event] in
theorem run_functions_of (ev : Event) (args : Args) :
    s.run ev args = (s.event_entries ev).map (fun e => (e.2, args)) := by
  unfold BaseInterceptorService.run BaseInterceptorService.event_entries
  cases s.interceptors_ ev <;> rfl

/-- With less than 2^64 calls of `attach`, no id comes twice or is `not_attached`, the two maps
have the same pairs, an id that is not attached is detached without effect, and the functions
that are attached to an event are run in the order of their attachment. -/
theorem kept_of_history (Args : Type) (h : History s calls)
    (hcount : (Call.ids calls).length < 2 ^ 64) : Kept Args s calls := by
  have hinv := inv_of_history h hcount
  refine ⟨hinv.ids_nodup, ?_, ?_, ?_, ?_⟩
  · intro id hid
    exact Nat.ne_of_gt (hinv.id_range hid).1
  · intro id ev
    rw [hinv.find_eq_some_iff, hinv.events_eq]
    constructor
    · rintro ⟨a, ha, rfl, rfl⟩
      exact ⟨a.func, List.mem_map.mpr ⟨a, List.mem_filter.mpr ⟨ha, by simp⟩, rfl⟩⟩
    · rintro ⟨func, hmem⟩
      obtain ⟨a, ha, heq⟩ := List.mem_map.mp hmem
      obtain ⟨hid, -⟩ := Prod.mk.inj heq
      obtain ⟨halive, hev⟩ := List.mem_filter.mp ha
      exact ⟨a, halive, hid, by simpa using hev⟩
  · intro id hid
    unfold BaseInterceptorService.detach
    rw [hinv.find_eq_none hid]
  · intro ev args
    rw [run_functions_of, hinv.events_eq, List.map_map]
    rfl

end

/-- Two functions of one event, of which the first is detached. -/
theorem kept_two_functions :
    History ((((BaseInterceptorService.new : BaseInterceptorService Bool String).attach true
        "a").2.attach true "b").2.detach 1)
      [.attach 1 true "a", .attach 2 true "b", .detach 1] ∧
    (Call.ids [.attach 1 true "a", .attach 2 true "b", (.detach 1 : Call Bool String)]).length <
      2 ^ 64 ∧
    Kept Unit ((((BaseInterceptorService.new : BaseInterceptorService Bool String).attach true
        "a").2.attach true "b").2.detach 1)
      [.attach 1 true "a", .attach 2 true "b", .detach 1] := by
  have hnew : History (BaseInterceptorService.new : BaseInterceptorService Bool String) [] := .new
  have hhistory := (hnew.attach true "a").attach true "b"
  exact ⟨hhistory.detach 1, by decide, kept_of_history Unit (hhistory.detach 1) (by decide)⟩

/-! ## The wrap of the ids -/

theorem exists_history (n : Nat) : ∃ (s : BaseInterceptorService Unit Unit)
    (calls : List (Call Unit Unit)), History s calls ∧ s.next_id_ = (1 + n) % 2 ^ 64 := by
  induction n with
  | zero => exact ⟨.new, [], .new, rfl⟩
  | succ n ih =>
    obtain ⟨s, calls, hhistory, hnext⟩ := ih
    refine ⟨_, _, hhistory.attach () (), ?_⟩
    show (s.next_id_ + 1) % 2 ^ 64 = _
    rw [hnext]
    omega

/-- The id of the last of 2^64 attachments is `not_attached`. -/
theorem id_wraps :
    ¬ ∀ (s : BaseInterceptorService Unit Unit) (calls : List (Call Unit Unit)),
      History s calls → Kept Unit s calls := by
  intro h
  obtain ⟨s, calls, hhistory, hnext⟩ := exists_history (2 ^ 64 - 1)
  have hkept := h _ _ (hhistory.attach () ())
  refine hkept.ids_attached s.next_id_ ?_ hnext
  rw [Call.ids_attach]
  exact List.mem_append_right _ (List.mem_singleton.mpr rfl)

end proxy.intercept
