-- The target of the flow, the host of the connection and the endpoint that is
-- connected to: what a step keeps of them. A new target and a close are only asked
-- for while no connect is going on.
import Aether.Connection.ServerConnection

namespace proxy.connection

/-- A connection that is connected is open, to the endpoint that the fields and the target have. A
connect that is going on is to the target. -/
structure Aligned (s : System) : Prop where
  is_open : s.server.connected_ = true → s.is_open = true
  endpoint : s.server.connected_ = true → s.endpoint = some (s.server.host_, s.server.port_)
  target : s.server.connected_ = true ∨ s.connecting ≠ .idle →
    (s.server.host_, s.server.port_) = (s.target_host_, s.target_port_)
  begun : s.connecting ≠ .idle → s.server.connected_ = false
  opened : ∀ more, s.connecting = .connecting more → s.is_open = true

namespace Aligned

variable {s s' : System}

theorem new : Aligned .new := by
  refine ⟨?_, ?_, ?_, fun _ => rfl, ?_⟩ <;> simp [System.new, ServerConnection.new]

/-- What is not of the connect may change. -/
theorem of_same (h : Aligned s) (hopen : s'.is_open = s.is_open)
    (hendpoint : s'.endpoint = s.endpoint) (hconnecting : s'.connecting = s.connecting)
    (hhost : (s'.server.host_, s'.server.port_) = (s.server.host_, s.server.port_))
    (htarget : (s'.target_host_, s'.target_port_) = (s.target_host_, s.target_port_))
    (hconnected : s'.server.connected_ = true → s.server.connected_ = true) : Aligned s' := by
  refine ⟨?_, ?_, ?_, ?_, ?_⟩
  · intro hc
    rw [hopen]
    exact h.is_open (hconnected hc)
  · intro hc
    rw [hendpoint, hhost]
    exact h.endpoint (hconnected hc)
  · intro hc
    rw [hhost, htarget]
    rw [hconnecting] at hc
    exact h.target (hc.imp_left hconnected)
  · intro hc
    rw [hconnecting] at hc
    have hnot := h.begun hc
    rcases hb : s'.server.connected_ with _ | _
    · rfl
    · rw [hconnected hb] at hnot
      cases hnot
  · intro more hc
    rw [hconnecting] at hc
    rw [hopen]
    exact h.opened more hc

theorem shutdown (h : Aligned s) : Aligned s.shutdown := by
  unfold System.shutdown
  split
  · refine of_same (s := s) h rfl rfl rfl rfl rfl ?_
    intro hc
    cases hc
  · exact h

/-- A connection that is connected is closed. -/
theorem disconnect_connected (h : Aligned s) : s.disconnect.server.connected_ = false := by
  unfold System.disconnect System.shutdown
  rcases hc : s.server.connected_ with _ | _
  · simp [hc]
  · simp [h.is_open hc, ServerConnection.set_connected]

theorem connecting_disconnect (s : System) : s.disconnect.connecting = s.connecting := by
  unfold System.disconnect System.shutdown
  split <;> rfl

/-- No connect is going on, and none is there. -/
theorem of_closed (hconnected : s.server.connected_ = false) (hidle : s.connecting = .idle) :
    Aligned s := by
  refine ⟨?_, ?_, ?_, fun _ => hconnected, ?_⟩ <;> simp [hconnected, hidle]

/-- The connection that is left for a new target. -/
def closed (s : System) : System := if s.server.connected_ then s.disconnect else s

theorem connected_closed (h : Aligned s) : (closed s).server.connected_ = false := by
  unfold closed
  split
  · exact h.disconnect_connected
  · rename_i hc
    simpa using hc

theorem connecting_closed (s : System) : (closed s).connecting = s.connecting := by
  unfold closed
  split
  · exact connecting_disconnect s
  · rfl

theorem is_connected_to_iff {c : ServerConnection} {host : Host} {port : Port} :
    c.is_connected_to host port = true ↔
      c.connected_ = true ∧ (c.host_, c.port_) = (host, port) := by
  simp [ServerConnection.is_connected_to, and_assoc]

theorem connecting_set_server (s : System) (host : Host) (port : Port) :
    (s.set_server host port).connecting = s.connecting := by
  unfold System.set_server
  split
  · rfl
  · exact connecting_closed s

/-- A new target is the target. -/
theorem set_server (h : Aligned s) (hidle : s.connecting = .idle) (host : Host) (port : Port) :
    Aligned (s.set_server host port) ∧ (s.set_server host port).connecting = .idle ∧
      ((s.set_server host port).target_host_, (s.set_server host port).target_port_) =
        (host, port) := by
  have hstill := (connecting_set_server s host port).trans hidle
  unfold System.set_server at hstill ⊢
  split
  · rename_i hc
    obtain ⟨hconnected, hhost⟩ := is_connected_to_iff.mp hc
    exact ⟨h, hidle, (h.target (.inl hconnected)).symm.trans hhost⟩
  · rename_i hc
    rw [if_neg hc] at hstill
    exact ⟨of_closed h.connected_closed hstill, hstill, rfl⟩

theorem connect_async (h :
    Aligned s) (has_been_closed : Bool) :
    Aligned (s.connect_async has_been_closed) := by
  unfold System.connect_async
  simp only
  split
  · exact h
  · have hc := h.connected_closed
    refine ⟨?_, ?_, ?_, fun _ => hc, ?_⟩
    · intro hconnected
      exact absurd (hc.symm.trans hconnected) Bool.false_ne_true
    · intro hconnected
      exact absurd (hc.symm.trans hconnected) Bool.false_ne_true
    · intro _
      show (s.target_host_, s.target_port_) = ((closed s).target_host_, (closed s).target_port_)
      unfold closed System.disconnect System.shutdown
      split
      · split <;> rfl
      · rfl
    · intro more hmore
      cases hmore

theorem on_resolve (h : Aligned s) (hresolving : s.connecting = .resolving)
    (endpoints : Option Nat) : Aligned (s.on_resolve endpoints) := by
  have hbusy : s.connecting ≠ .idle := by
    rw [hresolving]
    exact Connecting.noConfusion
  have hnot := h.begun hbusy
  rcases endpoints with _ | _ | more
  · exact of_closed hnot rfl
  · exact of_closed hnot rfl
  · refine ⟨fun _ => rfl, ?_, fun _ => h.target (.inr hbusy), fun _ => hnot, fun _ _ => rfl⟩
    intro hc
    exact absurd (hnot.symm.trans hc) Bool.false_ne_true

theorem on_connect (h : Aligned s) {more : Nat} (hconnecting : s.connecting = .connecting more)
    (success : Bool) : Aligned (s.on_connect more success) := by
  have hbusy : s.connecting ≠ .idle := by
    rw [hconnecting]
    exact Connecting.noConfusion
  have hnot := h.begun hbusy
  have hopen := h.opened more hconnecting
  cases success with
  | true =>
    refine ⟨fun _ => hopen, fun _ => rfl, fun _ => h.target (.inr hbusy), ?_, ?_⟩
    · intro hidle
      exact absurd rfl hidle
    · intro more' hmore
      cases hmore
  | false =>
    cases more with
    | zero => exact of_closed hnot rfl
    | succ more =>
      refine ⟨fun _ => hopen, ?_, fun _ => h.target (.inr hbusy), fun _ => hnot, fun _ _ => hopen⟩
      intro hc
      exact absurd (hnot.symm.trans hc) Bool.false_ne_true

/-- A read, a write and a handshake leave all of it, but that an error ends the connection. -/
theorem on_read (h : Aligned s) (origin : Nat) (bytes : List UInt8) (error : Bool) :
    Aligned (s.on_read origin bytes error) := by
  unfold System.on_read
  cases error with
  | false => exact h.of_same rfl rfl rfl rfl rfl id
  | true => exact h.of_same rfl rfl rfl rfl rfl (fun hc => by cases hc)

theorem on_write (h : Aligned s) (error : Bool) : Aligned (s.on_write error) := by
  unfold System.on_write
  cases error with
  | false => exact h.of_same rfl rfl rfl rfl rfl id
  | true => exact h.of_same rfl rfl rfl rfl rfl (fun hc => by cases hc)

theorem consume (h : Aligned s) (n : Nat) : Aligned (s.consume n) :=
  h.of_same rfl rfl rfl rfl rfl id

/-- A step keeps them. -/
theorem step {e : Event} (h : Aligned s)
    (hidle : (∃ host port, e = .set_server host port) ∨ e = .disconnect → s.connecting = .idle)
    (hs : connection.step s e = some s') : Aligned s' := by
  cases e with
  | set_server host port =>
    obtain rfl := Option.some.inj hs
    exact (h.set_server (hidle (.inl ⟨host, port, rfl⟩)) host port).1
  | connect_async has_been_closed =>
    obtain rfl := Option.some.inj hs
    exact h.connect_async has_been_closed
  | on_resolve endpoints =>
    simp only [connection.step] at hs
    split at hs
    · rename_i hresolving
      obtain rfl := Option.some.inj hs
      exact h.on_resolve hresolving endpoints
    · cases hs
  | on_connect success =>
    simp only [connection.step] at hs
    split at hs
    · rename_i more hconnecting
      obtain rfl := Option.some.inj hs
      exact h.on_connect hconnecting success
    · cases hs
  | on_read bytes error =>
    simp only [connection.step] at hs
    split at hs
    · obtain rfl := Option.some.inj hs
      exact h.on_read _ bytes error
    · split at hs
      · obtain rfl := Option.some.inj hs
        exact h.on_read 0 bytes error
      · cases hs
  | consume n =>
    obtain rfl := Option.some.inj hs
    exact h.consume n
  | on_write error =>
    obtain rfl := Option.some.inj hs
    exact h.on_write error
  | on_timeout =>
    obtain rfl := Option.some.inj hs
    exact h.shutdown
  | establish_tls_async =>
    obtain rfl := Option.some.inj hs
    exact h.of_same rfl rfl rfl rfl rfl id
  | on_handshake result =>
    cases result with
    | none =>
      simp only [connection.step] at hs
      split at hs
      · obtain rfl := Option.some.inj hs
        exact h.of_same rfl rfl rfl rfl rfl id
      · cases hs
    | some handshake =>
      simp only [connection.step] at hs
      split at hs
      · split at hs
        · obtain rfl := Option.some.inj hs
          exact h.of_same rfl rfl rfl rfl rfl id
        · cases hs
      · cases hs
  | disconnect =>
    obtain rfl := Option.some.inj hs
    exact of_closed h.disconnect_connected ((connecting_disconnect s).trans (hidle (.inr rfl)))

end Aligned

variable {s s' : System} {e : Event}

/-- Only a new target changes the target. -/
theorem step_target (he : ∀ host port, e ≠ .set_server host port) (hs : step s e = some s') :
    (s'.target_host_, s'.target_port_) = (s.target_host_, s.target_port_) := by
  have hdisconnect : (s.disconnect.target_host_, s.disconnect.target_port_) =
      (s.target_host_, s.target_port_) := by
    unfold System.disconnect System.shutdown
    split <;> rfl
  cases e with
  | set_server host port => exact absurd rfl (he host port)
  | connect_async has_been_closed =>
    obtain rfl := Option.some.inj hs
    unfold System.connect_async
    simp only
    split
    · rfl
    · split
      · exact hdisconnect
      · rfl
  | on_resolve endpoints =>
    simp only [step] at hs
    split at hs
    · obtain rfl := Option.some.inj hs
      rcases endpoints with _ | _ | more <;> rfl
    · cases hs
  | on_connect success =>
    simp only [step] at hs
    split at hs
    · rename_i more _
      obtain rfl := Option.some.inj hs
      cases success <;> cases more <;> rfl
    · cases hs
  | on_read bytes error =>
    simp only [step] at hs
    split at hs
    · obtain rfl := Option.some.inj hs
      rfl
    · split at hs
      · obtain rfl := Option.some.inj hs
        rfl
      · cases hs
  | consume n =>
    obtain rfl := Option.some.inj hs
    rfl
  | on_write error =>
    obtain rfl := Option.some.inj hs
    rfl
  | on_timeout =>
    obtain rfl := Option.some.inj hs
    unfold System.shutdown
    split <;> rfl
  | establish_tls_async =>
    obtain rfl := Option.some.inj hs
    rfl
  | on_handshake result =>
    cases result with
    | none =>
      simp only [step] at hs
      split at hs
      · obtain rfl := Option.some.inj hs
        rfl
      · cases hs
    | some handshake =>
      simp only [step] at hs
      split at hs
      · split at hs
        · obtain rfl := Option.some.inj hs
          rfl
        · cases hs
      · cases hs
  | disconnect =>
    obtain rfl := Option.some.inj hs
    exact hdisconnect

/-- While no connect is going on, a callback can only be that of a timeout. -/
theorem step_idle (hidle : s.connecting = .idle)
    (he : (∃ endpoints, e = .on_resolve endpoints) ∨ (∃ success, e = .on_connect success) ∨
      e = .on_timeout)
    (hs : step s e = some s') : s'.connecting = .idle ∧ s'.endpoint = s.endpoint := by
  rcases he with ⟨endpoints, rfl⟩ | ⟨success, rfl⟩ | rfl
  · simp only [step, hidle] at hs
    cases hs
  · simp only [step, hidle] at hs
    cases hs
  · obtain rfl := Option.some.inj hs
    unfold System.shutdown
    split
    · exact ⟨hidle, rfl⟩
    · exact ⟨hidle, rfl⟩

/-- A read and a write begin and end no connect. -/
theorem step_io (he : (∃ error, e = .on_write error) ∨ ∃ bytes error, e = .on_read bytes error)
    (hs : step s e = some s') : s'.connecting = s.connecting ∧ s'.endpoint = s.endpoint := by
  rcases he with ⟨error, rfl⟩ | ⟨bytes, error, rfl⟩
  · obtain rfl := Option.some.inj hs
    exact ⟨rfl, rfl⟩
  · simp only [step] at hs
    split at hs
    · obtain rfl := Option.some.inj hs
      exact ⟨rfl, rfl⟩
    · split at hs
      · obtain rfl := Option.some.inj hs
        exact ⟨rfl, rfl⟩
      · cases hs

theorem step_connected (hs : step s (.on_connect true) = some s') :
    s'.server.connected_ = true := by
  simp only [step] at hs
  split at hs
  · obtain rfl := Option.some.inj hs
    rfl
  · cases hs

end proxy.connection
