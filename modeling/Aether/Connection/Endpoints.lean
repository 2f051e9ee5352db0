-- When a connection shows nothing of the endpoints that it was connected to
-- before.
--
-- Neither `disconnect` nor `connect_async` resets what was read or what a
-- handshake left. So the state is that of the new endpoint if there was nothing
-- to reset.
import Aether.Connection.ServerConnection

open lib.runs

namespace proxy.connection

/-! ## What a step changes -/

/-- What a service sees stays, and the socket is at most closed. -/
structure Same (s s' : System) : Prop where
  input : s'.server.input_ = s.server.input_
  secured : s'.server.tls_established_ = s.server.tls_established_
  alpn : s'.server.alpn_ = s.server.alpn_
  cert : s'.server.cert_ = s.server.cert_
  chain : s'.server.cert_chain_ = s.server.cert_chain_
  current : s'.current = s.current
  handshaken : s'.handshaken = s.handshaken
  peer : ∀ p, s'.peer = some p → s.peer = some p

theorem Same.refl (s : System) : Same s s := ⟨rfl, rfl, rfl, rfl, rfl, rfl, rfl, fun _ h => h⟩

theorem same_shutdown (s : System) : Same s s.shutdown := by
  unfold System.shutdown
  split
  · exact ⟨rfl, rfl, rfl, rfl, rfl, rfl, rfl, fun _ h => h⟩
  · exact .refl s

theorem same_disconnect (s : System) : Same s s.disconnect := by
  obtain ⟨hin, hsec, halpn, hcert, hchain, hcur, hhand, -⟩ := same_shutdown s
  refine ⟨hin, hsec, halpn, hcert, hchain, hcur, hhand, ?_⟩
  intro p hp
  cases hp

theorem same_set_server (s : System) (host : Host) (port : Port) :
    Same s (s.set_server host port) := by
  unfold System.set_server
  split
  · exact .refl s
  · simp only
    split
    · have h := same_disconnect s
      exact ⟨h.input, h.secured, h.alpn, h.cert, h.chain, h.current, h.handshaken, h.peer⟩
    · exact ⟨rfl, rfl, rfl, rfl, rfl, rfl, rfl, fun _ h => h⟩

theorem same_connect_async (s : System) (closed : Bool) : Same s (s.connect_async closed) := by
  unfold System.connect_async
  simp only
  split
  · exact .refl s
  · split
    · have h := same_disconnect s
      exact ⟨h.input, h.secured, h.alpn, h.cert, h.chain, h.current, h.handshaken, h.peer⟩
    · exact ⟨rfl, rfl, rfl, rfl, rfl, rfl, rfl, fun _ h => h⟩

theorem same_on_resolve (s : System) (endpoints : Option Nat) :
    Same s (s.on_resolve endpoints) := by
  unfold System.on_resolve
  split <;> exact ⟨rfl, rfl, rfl, rfl, rfl, rfl, rfl, fun _ h => h⟩

theorem same_on_connect_false (s : System) (more : Nat) : Same s (s.on_connect more false) := by
  unfold System.on_connect
  simp only [Bool.false_eq_true, if_false]
  split <;> exact ⟨rfl, rfl, rfl, rfl, rfl, rfl, rfl, fun _ h => h⟩

theorem same_on_write (s : System) (error : Bool) : Same s (s.on_write error) := by
  unfold System.on_write
  cases error <;> exact ⟨rfl, rfl, rfl, rfl, rfl, rfl, rfl, fun _ h => h⟩

/-- All that a step can do to what a service sees. -/
theorem step_cases {s s' : System} {e : Event} (h : step s e = some s') :
    (e ≠ .on_connect true ∧ Same s s') ∨
    (e = .on_connect true ∧ ∃ more, s' = s.on_connect more true) ∨
    (∃ origin bytes error, e = .on_read bytes error ∧ (s.peer = some origin ∨ bytes = []) ∧
      s' = s.on_read origin bytes error) ∨
    (∃ n, e = .consume n ∧ s' = s.consume n) ∨
    ∃ origin handshake, e = .on_handshake (some handshake) ∧ s.peer = some origin ∧
      s' = s.on_handshake origin (some handshake) := by
  cases e with
  | set_server host port =>
    cases h
    exact .inl ⟨by simp, same_set_server s host port⟩
  | connect_async closed =>
    cases h
    exact .inl ⟨by simp, same_connect_async s closed⟩
  | on_resolve endpoints =>
    simp only [step] at h
    split at h
    · cases h
      exact .inl ⟨by simp, same_on_resolve s endpoints⟩
    · cases h
  | on_connect success =>
    simp only [step] at h
    split at h
    · cases h
      cases success with
      | true => exact .inr (.inl ⟨rfl, _, rfl⟩)
      | false => exact .inl ⟨by simp, same_on_connect_false s _⟩
    · cases h
  | on_read bytes error =>
    simp only [step] at h
    split at h
    · rename_i origin hpeer
      cases h
      exact .inr (.inr (.inl ⟨origin, bytes, error, rfl, .inl hpeer, rfl⟩))
    · split at h
      · rename_i hempty
        cases h
        exact .inr (.inr (.inl ⟨0, bytes, error, rfl, .inr hempty, rfl⟩))
      · cases h
  | consume n =>
    cases h
    exact .inr (.inr (.inr (.inl ⟨n, rfl, rfl⟩)))
  | on_write error =>
    cases h
    exact .inl ⟨by simp, same_on_write s error⟩
  | on_timeout =>
    cases h
    exact .inl ⟨by simp, same_shutdown s⟩
  | establish_tls_async =>
    cases h
    exact .inl ⟨by simp, rfl, rfl, rfl, rfl, rfl, rfl, rfl, fun _ h => h⟩
  | on_handshake result =>
    rcases result with _ | handshake
    · simp only [step] at h
      split at h
      · cases h
        exact .inl ⟨by simp, rfl, rfl, rfl, rfl, rfl, rfl, rfl, fun _ h => h⟩
      · cases h
    · simp only [step] at h
      split at h
      · rename_i origin hpeer
        split at h
        · cases h
          exact .inr (.inr (.inr (.inr ⟨origin, handshake, rfl, hpeer, rfl⟩)))
        · cases h
      · cases h
  | disconnect =>
    cases h
    exact .inl ⟨by simp, same_disconnect s⟩

/-! ## What all runs keep -/

/-- The values are of endpoints that were connected to, and an unsecured connection has none of a
handshake. -/
structure Past (s : System) : Prop where
  peer : ∀ p, s.peer = some p → p = s.current
  input : ∀ byte ∈ s.server.input_, byte.origin ≤ s.current
  handshaken : ∀ n ∈ s.handshaken, n ≤ s.current
  bare : s.server.tls_established_ = false →
    s.server.alpn_ = none ∧ s.server.cert_ = none ∧ s.server.cert_chain_ = []

theorem past_new : Past .new := by
  constructor <;> simp [System.new, ServerConnection.new]

theorem number_of_new {s : System} (h : s.IsNew) : s.number = s.current + 1 := if_pos h

theorem number_of_old {s : System} (h : ¬ s.IsNew) : s.number = s.current := if_neg h

theorem current_le_number (s : System) : s.current ≤ s.number := by
  by_cases h : s.IsNew
  · rw [number_of_new h]
    exact Nat.le_succ _
  · exact Nat.le_of_eq (number_of_old h).symm

/-- The bytes that a read adds are of the peer. -/
theorem mem_on_read {s : System} {origin : Nat} {bytes : List UInt8} {error : Bool}
    {byte : From UInt8} (hpeer : s.peer = some origin ∨ bytes = [])
    (h : byte ∈ (s.on_read origin bytes error).server.input_) :
    byte ∈ s.server.input_ ∨ s.peer = some byte.origin := by
  have hin : (s.on_read origin bytes error).server.input_ =
      s.server.input_ ++ bytes.map (From.mk origin) := by
    cases error <;> rfl
  rw [hin] at h
  rcases List.mem_append.mp h with hold | hnew
  · exact .inl hold
  · obtain ⟨b, hb, rfl⟩ := List.mem_map.mp hnew
    rcases hpeer with hpeer | hempty
    · exact .inr hpeer
    · rw [hempty] at hb
      cases hb

/-- A read leaves what handshakes left. -/
theorem on_read_server (s : System) (origin : Nat) (bytes : List UInt8) (error : Bool) :
    ∃ connected, (s.on_read origin bytes error).server =
      { s.server with
        input_ := s.server.input_ ++ bytes.map (From.mk origin)
        connected_ := connected } := by
  cases error
  · exact ⟨s.server.connected_, rfl⟩
  · exact ⟨false, rfl⟩

theorem past_step {s s' : System} {e : Event} (hp : Past s) (h : step s e = some s') :
    Past s' := by
  rcases step_cases h with ⟨-, hs⟩ | ⟨-, more, rfl⟩ | ⟨origin, bytes, error, -, hpeer, rfl⟩ |
    ⟨n, -, rfl⟩ | ⟨origin, handshake, -, hpeer, rfl⟩
  · refine ⟨?_, ?_, ?_, ?_⟩
    · intro p hpeer
      rw [hs.current]
      exact hp.peer p (hs.peer p hpeer)
    · rw [hs.input, hs.current]
      exact hp.input
    · rw [hs.handshaken, hs.current]
      exact hp.handshaken
    · rw [hs.secured, hs.alpn, hs.cert, hs.chain]
      exact hp.bare
  · have hle := current_le_number s
    refine ⟨?_, ?_, ?_, hp.bare⟩
    · intro p hpeer
      exact (Option.some.inj hpeer).symm
    · intro byte hbyte
      exact Nat.le_trans (hp.input byte hbyte) hle
    · intro n hn
      exact Nat.le_trans (hp.handshaken n hn) hle
  · refine ⟨hp.peer, ?_, hp.handshaken, ?_⟩
    · intro byte hbyte
      rcases mem_on_read hpeer hbyte with hold | hnew
      · exact hp.input byte hold
      · exact Nat.le_of_eq (hp.peer _ hnew)
    · obtain ⟨connected, hserver⟩ := on_read_server s origin bytes error
      rw [hserver]
      exact hp.bare
  · exact ⟨hp.peer, fun byte hbyte => hp.input byte (List.mem_of_mem_drop hbyte), hp.handshaken,
      hp.bare⟩
  · refine ⟨hp.peer, hp.input, ?_, ?_⟩
    · intro n hn
      rcases List.mem_cons.mp hn with rfl | hn
      · exact Nat.le_of_eq (hp.peer _ hpeer)
      · exact hp.handshaken n hn
    · intro hsecured
      cases hsecured

/-! ## When the state is that of the new endpoint -/

/-- There is nothing to reset: all bytes that were read have been taken, and no handshake ever
succeeded. -/
def Unused (s : System) : Prop := s.server.input_ = [] ∧ s.server.tls_established_ = false

/-- A connect that succeeds to a new endpoint finds nothing to reset. -/
def Untouched (s : System) (e : Event) : Prop := e = .on_connect true → s.IsNew → Unused s

/-- A connect to a new endpoint shows nothing of the old ones iff there was nothing to reset. -/
theorem clean_of_new {s : System} {more : Nat} (hp : Past s) (hnew : s.IsNew) :
    Clean (s.on_connect more true) ↔ Unused s := by
  have hcurrent : (s.on_connect more true).current = s.current + 1 := number_of_new hnew
  constructor
  · intro hc
    constructor
    · rw [List.eq_nil_iff_forall_not_mem]
      intro byte hbyte
      have hold := hp.input byte hbyte
      have hfresh := hc.input byte hbyte
      omega
    · rw [← Bool.not_eq_true]
      intro hsecured
      have hfresh := hp.handshaken _ (hc.secured hsecured)
      omega
  · rintro ⟨hinput, hsecured⟩
    obtain ⟨halpn, hcert, hchain⟩ := hp.bare hsecured
    refine ⟨?_, ?_, ?_, ?_, ?_⟩
    · intro byte hbyte
      have hmem : byte ∈ s.server.input_ := hbyte
      rw [hinput] at hmem
      cases hmem
    · intro h
      have htrue : s.server.tls_established_ = true := h
      rw [hsecured] at htrue
      cases htrue
    · intro alpn h
      have hsome : s.server.alpn_ = some alpn := h
      rw [halpn] at hsome
      cases hsome
    · intro cert h
      have hsome : s.server.cert_ = some cert := h
      rw [hcert] at hsome
      cases hsome
    · intro cert h
      have hmem : cert ∈ s.server.cert_chain_ := h
      rw [hchain] at hmem
      cases hmem

theorem clean_of_same {s s' : System} (hs : Same s s') (hc : Clean s) : Clean s' := by
  refine ⟨?_, ?_, ?_, ?_, ?_⟩
  · unfold ServerConnection.input_buffer
    rw [hs.input, hs.current]
    exact hc.input
  · unfold ServerConnection.secured
    rw [hs.secured, hs.current, hs.handshaken]
    exact hc.secured
  · unfold ServerConnection.alpn
    rw [hs.alpn, hs.current]
    exact hc.alpn
  · unfold ServerConnection.cert
    rw [hs.cert, hs.current]
    exact hc.cert
  · unfold ServerConnection.get_cert_chain
    rw [hs.chain, hs.current]
    exact hc.chain

/-- A clean state stays clean iff the step finds nothing to reset, where it should reset it. -/
theorem clean_step {s s' : System} {e : Event} (hp : Past s) (hc : Clean s)
    (h : step s e = some s') : Clean s' ↔ Untouched s e := by
  rcases step_cases h with ⟨hne, hs⟩ | ⟨rfl, more, rfl⟩ | ⟨origin, bytes, error, rfl, hpeer, rfl⟩ |
    ⟨n, rfl, rfl⟩ | ⟨origin, handshake, rfl, hpeer, rfl⟩
  · exact iff_of_true (clean_of_same hs hc) (fun he => absurd he hne)
  · by_cases hnew : s.IsNew
    · rw [clean_of_new hp hnew]
      constructor
      · intro hu _ _
        exact hu
      · intro hu
        exact hu rfl hnew
    · refine iff_of_true ?_ (fun _ h => absurd h hnew)
      have hcurrent : (s.on_connect more true).current = s.current := number_of_old hnew
      refine ⟨?_, ?_, ?_, ?_, ?_⟩ <;> rw [hcurrent]
      · exact hc.input
      · exact hc.secured
      · exact hc.alpn
      · exact hc.cert
      · exact hc.chain
  · refine iff_of_true ?_ (fun he => by cases he)
    obtain ⟨connected, hserver⟩ := on_read_server s origin bytes error
    refine ⟨?_, ?_, ?_, ?_, ?_⟩
    · intro byte hbyte
      rcases mem_on_read hpeer hbyte with hold | hnew
      · exact hc.input byte hold
      · exact hp.peer _ hnew
    · rw [hserver]
      exact hc.secured
    · rw [hserver]
      exact hc.alpn
    · rw [hserver]
      exact hc.cert
    · rw [hserver]
      exact hc.chain
  · refine iff_of_true ?_ (fun he => by cases he)
    exact ⟨fun byte hbyte => hc.input byte (List.mem_of_mem_drop hbyte), hc.secured, hc.alpn,
      hc.cert, hc.chain⟩
  · refine iff_of_true ?_ (fun he => by cases he)
    have horigin : origin = s.current := hp.peer origin hpeer
    refine ⟨hc.input, fun _ => ?_, ?_, ?_, ?_⟩
    · rw [horigin]
      exact List.mem_cons_self
    · intro alpn halpn
      simp only [ServerConnection.alpn, System.on_handshake] at halpn
      split at halpn
      · cases halpn
        exact horigin
      · exact hc.alpn alpn halpn
    · intro cert hcert
      cases hcert
      exact horigin
    · intro cert hcert
      rcases List.mem_append.mp hcert with hold | hnew
      · exact hc.chain cert hold
      · obtain ⟨c, -, rfl⟩ := List.mem_map.mp hnew
        exact horigin

theorem clean_new : Clean .new := by
  constructor <;> simp [System.new, ServerConnection.new, ServerConnection.input_buffer,
    ServerConnection.secured, ServerConnection.alpn, ServerConnection.cert,
    ServerConnection.get_cert_chain]

/-- All states of a run show the state of the endpoint that was last connected to, iff each connect
that succeeded to a new one found no bytes left and no handshake ever done. -/
theorem no_state_of_an_endpoint_stays_iff_there_is_none (events : List Event) :
    Throughout step Clean .new events ↔ EachStep step Untouched .new events :=
  throughout_iff (fun _ _ _ hp h => past_step hp h) (fun _ _ _ hp hc h => clean_step hp hc h)
    past_new clean_new events

/-- A connect to port `port` of the same host. -/
def connectTo (port : Port) : List Event :=
  [.set_server [] port, .connect_async false, .on_resolve (some 1), .on_connect true]

/-- A handshake with the first of two endpoints. -/
def handshakeThenOther : List Event :=
  connectTo 443 ++ [.establish_tls_async,
    .on_handshake (some ⟨⟨none, none, [], false⟩, [], none⟩)] ++ connectTo 80

/-- The second endpoint is taken for secured, with the certificate of the first. -/
theorem the_other_endpoint_is_taken_for_secured :
    ∃ s, run step .new handshakeThenOther = some s ∧ s.server.is_connected_to [] 80 = true ∧
      s.server.secured = true ∧ 2 ∉ s.handshaken ∧ s.current = 2 ∧ ¬ Clean s := by
  refine ⟨_, rfl, rfl, rfl, by decide, rfl, ?_⟩
  intro hc
  exact absurd (hc.secured rfl) (by decide)

end proxy.connection
