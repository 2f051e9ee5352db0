-- No byte that goes into a tunnel is lost, and none comes out twice or out of its
-- turn, in any order of the steps of the two loops.
import Aether.Tunnel.TunnelService

open lib.runs

namespace proxy.tunnel

namespace System

/-- What is on the way from a source: out already, waiting to be written, and not yet moved. -/
def carried (s : System) (source : Party) : List UInt8 :=
  s.written source.other ++ (s.connection source.other).output_ ++ (s.connection source).input_

/-- Nothing goes in, and what is on the way stays in its order. -/
structure Keeps (s s' : System) : Prop where
  carried : ∀ p, s'.carried p = s.carried p
  read : ∀ p, s'.read p = s.read p

theorem Keeps.refl (s : System) : Keeps s s := ⟨fun _ => rfl, fun _ => rfl⟩

theorem Keeps.trans {s s' s'' : System} (h : Keeps s s') (h' : Keeps s' s'') : Keeps s s'' :=
  ⟨fun p => (h'.carried p).trans (h.carried p), fun p => (h'.read p).trans (h.read p)⟩

theorem keeps_set_loop (s : System) (p : Party) (l : TunnelLoop) : Keeps s (s.set_loop p l) :=
  ⟨fun _ => rfl, fun _ => rfl⟩

theorem keeps_stop (s : System) : Keeps s s.stop := ⟨fun _ => rfl, fun _ => rfl⟩

theorem keeps_service (s : System) (service : Service) : Keeps s { s with service := service } :=
  ⟨fun _ => rfl, fun _ => rfl⟩

theorem keeps_on_finish (s : System) : Keeps s s.on_finish := by
  unfold on_finish
  split
  · exact keeps_stop s
  · exact .refl s

theorem keeps_finish (s : System) (source : Party) : Keeps s (s.finish source) :=
  (keeps_set_loop s source _).trans (keeps_on_finish _)

theorem keeps_write (s : System) (source : Party) : Keeps s (s.write source) := by
  refine ⟨fun p => ?_, fun _ => rfl⟩
  cases source <;> cases p <;>
    simp [carried, write, set_connection, set_loop, Party.other, Function.update]

theorem keeps_start_loop (s : System) (source : Party) : Keeps s (s.start_loop source) :=
  (keeps_set_loop s source _).trans (keeps_write _ source)

theorem keeps_initiate_tunnel (s : System) : Keeps s s.initiate_tunnel :=
  (keeps_service s .tunneling).trans
    ((keeps_start_loop _ .server).trans (keeps_start_loop _ .client))

theorem keeps_start_tunnel (s : System) (connected : Bool) :
    Keeps s (s.start_tunnel connected) := by
  unfold start_tunnel
  split
  · exact keeps_initiate_tunnel s
  · exact keeps_service s .connecting

theorem keeps_on_connect_server (s : System) (error : Bool) :
    Keeps s (s.on_connect_server error) := by
  unfold on_connect_server
  split
  · exact (keeps_service s .unreachable).trans (keeps_stop _)
  · exact keeps_initiate_tunnel s

theorem keeps_on_read_client_hello {s s' : System} {reader : tls.handshake.HandshakeReader}
    {bytes : Nat} {error connected : Bool}
    (h : s.on_read_client_hello reader bytes error connected = some s') : Keeps s s' := by
  unfold on_read_client_hello at h
  split at h
  · cases h
    exact keeps_start_tunnel s connected
  split at h
  · cases h
    exact keeps_start_tunnel s connected
  · cases h
  split at h
  · unfold handle_client_hello at h
    split at h
    · cases h
      exact keeps_service s .intercepted
    · cases h
      exact keeps_start_tunnel s connected
    · cases h
  · cases h
    exact keeps_service s _

theorem keeps_consume (s : System) (p : Party) (n : Nat) : Keeps s (s.consume p n) := by
  refine ⟨fun q => ?_, fun _ => rfl⟩
  cases p <;> cases q <;>
    simp [carried, consume, set_connection, Party.other, Function.update]

theorem keeps_on_read (s : System) (source : Party) (error : Bool) :
    Keeps s (s.on_read source error) := by
  unfold on_read
  split
  · exact keeps_finish s source
  · exact keeps_write s source

theorem keeps_on_write (s : System) (source : Party) (error : Bool) :
    Keeps s (s.on_write source error) := by
  unfold on_write
  split
  · exact keeps_finish s source
  · exact keeps_set_loop s source _

theorem carried_commit (s : System) (p : Party) (bytes : List UInt8) (q : Party) :
    (s.commit p bytes).carried q = s.carried q ++ if q = p then bytes else [] := by
  cases p <;> cases q <;>
    simp [carried, commit, set_connection, Party.other, Function.update]

theorem read_commit (s : System) (p : Party) (bytes : List UInt8) (q : Party) :
    (s.commit p bytes).read q = s.read q ++ if q = p then bytes else [] := by
  cases p <;> cases q <;> simp [commit, set_connection, Function.update]

end System

open proxy.tunnel.System

/-- What is on the way from each source is what was there at first, followed by what was read. -/
def Conserved (first : Party → List UInt8) (s : System) : Prop :=
  ∀ source, s.carried source = first source ++ s.read source

variable {first : Party → List UInt8} {s s' : System}

theorem Conserved.keeps (h : Conserved first s) (hk : Keeps s s') : Conserved first s' := by
  intro source
  rw [hk.carried, hk.read]
  exact h source

theorem Conserved.commit (h : Conserved first s) (p : Party) (bytes : List UInt8) :
    Conserved first (s.commit p bytes) := by
  intro source
  rw [carried_commit, read_commit, h source, List.append_assoc]

theorem conserved_step {e : Event} (h : Conserved first s) (hs : step s e = some s') :
    Conserved first s' := by
  cases e with
  | client_hello bytes error connected =>
    simp only [step] at hs
    split at hs
    · exact (h.commit .client bytes).keeps (keeps_on_read_client_hello hs)
    · cases hs
  | connected error =>
    simp only [step] at hs
    split at hs
    · cases hs
      exact h.keeps (keeps_on_connect_server s error)
    · cases hs
  | read source bytes error =>
    simp only [step] at hs
    split at hs
    · cases hs
      exact (h.commit source bytes).keeps (keeps_set_loop _ source _)
    · cases hs
  | taken source n =>
    simp only [step] at hs
    split at hs
    · cases hs
      exact h.keeps (keeps_consume s source.other n)
    · cases hs
  | written source error =>
    simp only [step] at hs
    split at hs
    · split at hs
      · cases hs
        exact h.keeps (keeps_set_loop s source _)
      · cases hs
    · cases hs
  | handler source =>
    simp only [step] at hs
    split at hs
    · cases hs
      exact h.keeps (keeps_on_read s source _)
    · cases hs
      exact h.keeps (keeps_on_write s source _)
    · cases hs

/-! ## The end -/

/-- While the loops run, one that waits for nothing is finished, and the last that finishes has
stopped the flow. Before, no loop is started. -/
structure Ends (s : System) : Prop where
  before : s.service ≠ .tunneling → ∀ p, s.loop p = .new
  stopped : s.service ≠ .tunneling → s.stops = if s.service = .unreachable then 1 else 0
  loops : s.service = .tunneling →
    ∀ p, (s.loop p).finished_ = some (decide ((s.loop p).waiting = .nothing))
  last : s.service = .tunneling → s.stops =
    if (s.loop .server).finished_ = some true ∧ (s.loop .client).finished_ = some true then 1 else 0

/-- The loop from a source waits, and the flow is a tunnel. -/
structure Waits (s : System) (source : Party) : Prop where
  ends : Ends s
  waiting : (s.loop source).waiting ≠ .nothing

namespace Waits

variable {source : Party}

theorem tunneling (h : Waits s source) : s.service = .tunneling := by
  by_contra hs
  apply h.waiting
  rw [h.ends.before hs source]
  rfl

theorem unfinished (h : Waits s source) : (s.loop source).finished_ = some false := by
  rw [h.ends.loops h.tunneling source, decide_eq_false h.waiting]

theorem stops (h : Waits s source) : s.stops = 0 := by
  rw [h.ends.last h.tunneling, if_neg]
  rintro ⟨hserver, hclient⟩
  have hfalse := h.unfinished
  cases source <;> simp_all

/-- The loop goes on to wait for something else. -/
theorem goes_on (h : Waits s source) {w : Waiting} (hw : w ≠ .nothing) :
    Ends (s.set_loop source { s.loop source with waiting := w }) := by
  have hservice := h.tunneling
  have hfalse := h.unfinished
  refine ⟨fun hn => absurd hservice hn, fun hn => absurd hservice hn, fun _ p => ?_, fun _ => ?_⟩
  · by_cases hp : p = source
    · subst hp
      simp [set_loop, hfalse, hw]
    · simp only [set_loop, Function.update_of_ne hp]
      exact h.ends.loops hservice p
  · refine h.stops.trans (if_neg ?_).symm
    rintro ⟨hserver, hclient⟩
    cases source <;> simp_all [set_loop]

theorem finish (h : Waits s source) : Ends (s.finish source) := by
  have hservice := h.tunneling
  have hstops := h.stops
  have hother := h.ends.loops hservice source.other
  unfold System.finish on_finish
  split
  · rename_i hboth
    refine ⟨fun hn => absurd hservice hn, fun hn => absurd hservice hn, fun _ p => ?_, fun _ => ?_⟩
    · by_cases hp : p = source
      · subst hp
        simp [set_loop, System.stop]
      · simp only [set_loop, System.stop, Function.update_of_ne hp]
        exact h.ends.loops hservice p
    · refine Eq.trans ?_ (if_pos hboth).symm
      exact congrArg (· + 1) hstops
  · rename_i hone
    refine ⟨fun hn => absurd hservice hn, fun hn => absurd hservice hn, fun _ p => ?_, fun _ => ?_⟩
    · by_cases hp : p = source
      · subst hp
        simp [set_loop]
      · simp only [set_loop, Function.update_of_ne hp]
        exact h.ends.loops hservice p
    · exact hstops.trans (if_neg hone).symm

theorem congr (h : Waits s source) (hservice : s'.service = s.service) (hloop : s'.loop = s.loop)
    (hstops : s'.stops = s.stops) : Waits s' source := by
  obtain ⟨⟨h1, h2, h3, h4⟩, hw⟩ := h
  constructor
  · constructor <;> simp only [hservice, hloop, hstops] <;> assumption
  · rw [hloop]
    exact hw

theorem write (h : Waits s source) : Ends (s.write source) := by
  have hwaits : Waits ⟨(s.write source).connection, s.loop, s.service, s.stops, s.read, s.written⟩
      source := h.congr rfl rfl rfl
  exact hwaits.goes_on (w := .writing) (by simp)

theorem on_read (h : Waits s source) (error : Bool) : Ends (s.on_read source error) := by
  unfold System.on_read
  split
  · exact h.finish
  · exact h.write

theorem on_write (h : Waits s source) (error : Bool) : Ends (s.on_write source error) := by
  unfold System.on_write
  split
  · exact h.finish
  · exact h.goes_on (by simp)

end Waits

theorem ends_idle (hservice : s.service ≠ .tunneling) (hloop : ∀ p, s.loop p = .new)
    (hstops : s.stops = if s.service = .unreachable then 1 else 0) : Ends s :=
  ⟨fun _ => hloop, fun _ => hstops, fun hs => absurd hs hservice, fun hs => absurd hs hservice⟩

theorem ends_initiate_tunnel (hstops : s.stops = 0) : Ends s.initiate_tunnel := by
  refine ⟨fun hn => absurd rfl hn, fun hn => absurd rfl hn, fun _ p => ?_, fun _ => ?_⟩
  · cases p <;>
      simp [initiate_tunnel, start_loop, System.write, set_loop, set_connection, Function.update]
  · have hfalse : (s.initiate_tunnel.loop .server).finished_ = some false := by
      simp [initiate_tunnel, start_loop, System.write, set_loop, set_connection, Function.update]
    rw [if_neg (by simp [hfalse])]
    exact hstops

theorem ends_start_tunnel (hloop : ∀ p, s.loop p = .new) (hstops : s.stops = 0)
    (connected : Bool) : Ends (s.start_tunnel connected) := by
  unfold start_tunnel
  split
  · exact ends_initiate_tunnel hstops
  · exact ends_idle (by simp) hloop hstops

theorem ends_on_read_client_hello (hloop : ∀ p, s.loop p = .new) (hstops : s.stops = 0)
    {reader : tls.handshake.HandshakeReader} {bytes : Nat} {error connected : Bool}
    (h : s.on_read_client_hello reader bytes error connected = some s') : Ends s' := by
  unfold on_read_client_hello at h
  split at h
  · cases h
    exact ends_start_tunnel hloop hstops connected
  split at h
  · cases h
    exact ends_start_tunnel hloop hstops connected
  · cases h
  split at h
  · unfold handle_client_hello at h
    split at h
    · cases h
      exact ends_idle (by simp) hloop hstops
    · cases h
      exact ends_start_tunnel hloop hstops connected
    · cases h
  · cases h
    exact ends_idle (by simp) hloop hstops

theorem ends_on_connect_server (hloop : ∀ p, s.loop p = .new) (hstops : s.stops = 0)
    (error : Bool) : Ends (s.on_connect_server error) := by
  unfold on_connect_server
  split
  · refine ends_idle (by simp [System.stop]) hloop ?_
    exact congrArg (· + 1) hstops
  · exact ends_initiate_tunnel hstops

theorem ends_step {e : Event} (h : Ends s) (hs : step s e = some s') : Ends s' := by
  cases e with
  | client_hello bytes error connected =>
    simp only [step] at hs
    split at hs
    · rename_i reader hservice
      have hother : s.service ≠ .tunneling := by rw [hservice]; simp
      refine ends_on_read_client_hello (s := s.commit .client bytes) (h.before hother) ?_ hs
      exact (h.stopped hother).trans (if_neg (by rw [hservice]; simp))
    · cases hs
  | connected error =>
    simp only [step] at hs
    split at hs
    · rename_i hservice
      cases hs
      have hother : s.service ≠ .tunneling := by rw [hservice]; simp
      refine ends_on_connect_server (h.before hother) ?_ error
      exact (h.stopped hother).trans (if_neg (by rw [hservice]; simp))
    · cases hs
  | read source bytes error =>
    simp only [step] at hs
    split at hs
    · rename_i hw
      cases hs
      have hwaits : Waits s source := ⟨h, by rw [hw]; simp⟩
      have hcommit : Waits (s.commit source bytes) source := hwaits.congr rfl rfl rfl
      exact hcommit.goes_on (by simp)
    · cases hs
  | taken source n =>
    simp only [step] at hs
    split at hs
    · rename_i hw
      cases hs
      have hwaits : Waits s source := ⟨h, by rw [hw]; simp⟩
      have hconsume : Waits (s.consume source.other n) source := hwaits.congr rfl rfl rfl
      exact hconsume.ends
    · cases hs
  | written source error =>
    simp only [step] at hs
    split at hs
    · rename_i hw
      have hwaits : Waits s source := ⟨h, by rw [hw]; simp⟩
      split at hs
      · cases hs
        exact hwaits.goes_on (by simp)
      · cases hs
    · cases hs
  | handler source =>
    simp only [step] at hs
    split at hs
    · rename_i error hw
      cases hs
      exact Waits.on_read ⟨h, by rw [hw]; simp⟩ error
    · rename_i error hw
      cases hs
      exact Waits.on_write ⟨h, by rw [hw]; simp⟩ error
    · cases hs

/-- What the buffers of the connections hold on the way from a source. -/
def buffered (connection : Party → BaseConnection) (source : Party) : List UInt8 :=
  (connection source.other).output_ ++ (connection source).input_

theorem conserved_start (connection : Party → BaseConnection) (entry : Entry) :
    Conserved (buffered connection) (System.start connection entry) := by
  have hfirst : Conserved (buffered connection)
      ⟨connection, fun _ => .new, .connecting, 0, fun _ => [], fun _ => []⟩ := by
    intro source
    simp [carried, buffered]
  cases entry with
  | tls_service => exact hfirst.keeps (keeps_service _ _)
  | tunnel_service connected => exact hfirst.keeps (keeps_start_tunnel _ connected)

theorem ends_start (connection : Party → BaseConnection) (entry : Entry) :
    Ends (System.start connection entry) := by
  cases entry with
  | tls_service => exact ends_idle (by simp [System.start]) (fun _ => rfl) rfl
  | tunnel_service connected => exact ends_start_tunnel (fun _ => rfl) rfl connected

/-- In every state of a run: what was written to a destination, what waits in its output buffer and
what waits in the input buffer of the source are, in this order, what was buffered at first and all
that was read from the source. And `stop` runs once at most: for a tunnel that has begun after both
loops have finished, and for none only where the server cannot be reached, with no loop begun. -/
theorem a_tunnel_carries_every_byte_once (connection : Party → BaseConnection) (entry : Entry)
    (events : List Event) :
    Throughout step (fun s =>
      (∀ source, s.written source.other ++ (s.connection source.other).output_ ++
        (s.connection source).input_ = buffered connection source ++ s.read source) ∧
      s.stops ≤ 1 ∧
      (s.service = .tunneling → 0 < s.stops → ∀ source, (s.loop source).finished_ = some true) ∧
      (s.service ≠ .tunneling → 0 < s.stops →
        s.service = .unreachable ∧ ∀ source, s.loop source = .new))
      (System.start connection entry) events := by
  have hboth := @throughout_of_step _ _ step
    (fun s => Conserved (buffered connection) s ∧ Ends s)
    (fun s e s' h hs => ⟨conserved_step h.1 hs, ends_step h.2 hs⟩) _
    ⟨conserved_start connection entry, ends_start connection entry⟩ events
  refine hboth.mono ?_
  rintro s ⟨hconserved, hends⟩
  refine ⟨hconserved, ?_⟩
  by_cases hservice : s.service = .tunneling
  · have hlast := hends.last hservice
    split at hlast
    · rename_i hfinished
      refine ⟨by omega, fun _ _ source => ?_, fun hnot => absurd hservice hnot⟩
      cases source
      · exact hfinished.2
      · exact hfinished.1
    · exact ⟨by omega, fun _ hpos => by omega, fun hnot => absurd hservice hnot⟩
  · have hstopped := hends.stopped hservice
    refine ⟨?_, fun hbegun => absurd hbegun hservice, fun _ hpos => ?_⟩
    · split at hstopped <;> omega
    · split at hstopped
      · rename_i hunreachable
        exact ⟨hunreachable, hends.before hservice⟩
      · omega

end proxy.tunnel
