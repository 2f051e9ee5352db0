-- What a connection has sent so far, as a receiver reads it: data frames and
-- whole messages, with no extension.
import Aether.Websocket.FrameWriting
import Aether.Websocket.Fragments
import Aether.Websocket.WebsocketService

open lib.rfc6455 (DataType Receiver)

namespace proxy.websocket

open protocol extensions

variable {z : Zlib}

/-- A receiver has read the output of the connection up to `r`, and the serializer is where the
receiver is. -/
structure Sent (connection : Connection z) (r : Receiver) : Prop where
  exts : connection.manager.extensions_ = []
  output : ∃ fs, connection.output = lib.rfc6455.encodeAll fs ∧
    (∀ f ∈ fs, f.payload.length < 2 ^ 63) ∧ Receiver.start.receiveAll fs = some r
  progress : connection.manager.effective_opcode_out_ = r.progress.map (fun m => typeOpcode m.type)

theorem sent_new (destination : Endpoint) (generator : Nat → UInt32) :
    Sent (Connection.new destination [] generator : Connection z) .start :=
  ⟨rfl, ⟨[], rfl, by simp, rfl⟩, rfl⟩

theorem Sent.received {connection : Connection z} {r : Receiver} (h : Sent connection r) :
    lib.rfc6455.received connection.output = some r := by
  obtain ⟨fs, ho, hlen, hr⟩ := h.output
  rw [ho, lib.rfc6455.received_encodeAll hlen, hr]

/-- What a sending leaves alone. -/
structure SameState (connection connection' : Connection z) : Prop where
  source_ep : connection'.source_ep = connection.source_ep
  destination_ep : connection'.destination_ep = connection.destination_ep
  ready_to_intercept : connection'.ready_to_intercept = connection.ready_to_intercept
  next_message_content : connection'.next_message_content = connection.next_message_content

theorem SameState.refl (connection : Connection z) : SameState connection connection :=
  ⟨rfl, rfl, rfl, rfl⟩

theorem SameState.trans {c c' c'' : Connection z} (h : SameState c c') (h' : SameState c' c'') :
    SameState c c'' :=
  ⟨h'.1.trans h.1, h'.2.trans h.2, h'.3.trans h.3, h'.4.trans h.4⟩

/-- A handler that did its work: the receiver is at `r`, and the rest is as it was. -/
structure Sends (pl : Pipeline) (connection : Connection z) (h : Handled z) (r : Receiver) :
    Prop where
  result : h.result = .ok ()
  pipeline : h.pipeline = pl
  sent : Sent h.connection r
  same : SameState connection h.connection

/-! ## One piece -/

/-- The type of the frame for a piece of a message, where the receiver is. -/
def pieceType (r : Receiver) (type : DataType) : Opcode :=
  if r.progress.isSome then .continuation else typeOpcode type

theorem is_control_pieceType (r : Receiver) (type : DataType) :
    is_control (pieceType r type) = false := by
  unfold pieceType; split
  · exact is_control_continuation
  · exact is_control_typeOpcode type

theorem value_pieceType (r : Receiver) (type : DataType) :
    (pieceType r type).value = (r.pieceOpcode type).val := by
  unfold pieceType Receiver.pieceOpcode; split
  · rfl
  · cases type <;> rfl

theorem serialize_message_eq {fp : FrameParser z} {r : Receiver} {type : DataType}
    {content : List UInt8}
    (hp : fp.effective_opcode_out_ = r.progress.map (fun m => typeOpcode m.type))
    (hb : r.before type = some content) (payload : List UInt8) (fin : Bool) :
    serialize_message fp ⟨typeOpcode type, fin, payload⟩ =
      serialize_frame
        { fp with effective_opcode_out_ := if fin then none else some (typeOpcode type) }
        (pieceType r type) payload fin := by
  unfold Receiver.before at hb
  unfold serialize_message pieceType
  rcases hprog : r.progress with _ | m
  · rw [hprog] at hp
    simp [hp]
  · rw [hprog] at hp hb
    simp only at hb
    split at hb
    · rename_i ht
      subst ht
      simp [hp]
    · cases hb

theorem manager_serialize_message (fp : FrameParser z) (type : DataType) (fin : Bool)
    (payload : List UInt8) :
    manager_serialize fp (.message ⟨typeOpcode type, fin, payload⟩) =
      serialize_message fp ⟨typeOpcode type, fin, payload⟩ := by
  cases type <;> rfl

/-- A frame for a piece that comes where the receiver is. -/
structure PieceFrame (r : Receiver) (destination : Endpoint) (type : DataType)
    (payload : List UInt8) (fin : Bool) (f : lib.rfc6455.Frame) : Prop where
  payload : f.payload = payload
  fin : f.fin = fin
  opcode : f.opcode = r.pieceOpcode type
  masked : f.maskKey.isSome = decide (destination = .server)
  reserved : f.rsv1 = false ∧ f.rsv2 = false ∧ f.rsv3 = false

/-- The frame that is written for a piece that comes where the receiver is. -/
theorem manager_serialize_piece {fp : FrameParser z} {r : Receiver} {type : DataType}
    {content : List UInt8} (he : fp.extensions_ = [])
    (hp : fp.effective_opcode_out_ = r.progress.map (fun m => typeOpcode m.type))
    (hb : r.before type = some content) (payload : List UInt8) (fin : Bool) :
    ∃ fp' f, manager_serialize fp (.message ⟨typeOpcode type, fin, payload⟩) =
        ⟨fp', .ok (lib.rfc6455.encode f)⟩ ∧
      PieceFrame r fp.destination_ type payload fin f ∧ fp'.extensions_ = [] ∧
      fp'.effective_opcode_out_ = (if fin then none else some (typeOpcode type)) ∧
      fp'.destination_ = fp.destination_ := by
  have hcall := ((manager_serialize_message fp type fin payload).trans
    (serialize_message_eq hp hb payload fin)).trans
      (serialize_frame_plain (by exact he) (by simp [is_control_pieceType]) fin)
  exact ⟨_, _, hcall, ⟨rfl, rfl, Fin.ext (value_pieceType r type), isSome_wireFrame_key .., rfl,
    rfl, rfl⟩, by simpa using he, by simp, by simp⟩

/-- A piece that comes where the receiver is goes through. -/
theorem sends_piece {connection : Connection z} {r r' : Receiver} {type : DataType}
    {payload : List UInt8} {fin : Bool} (hs : Sent connection r) (h63 : payload.length < 2 ^ 63)
    (h : r.piece type payload fin = some r') (pl : Pipeline) :
    Sends pl connection
      (serialize pl connection (.message ⟨typeOpcode type, fin, payload⟩)) r' := by
  obtain ⟨content, hb, hr'⟩ := Receiver.piece_before h
  obtain ⟨fp', f, hcall, ⟨rfl, rfl, hop, -, -⟩, he, hout, -⟩ :=
    manager_serialize_piece hs.exts hs.progress hb payload fin
  obtain ⟨fs, ho, hlen, hr⟩ := hs.output
  have hreceive := Receiver.receive_piece h hop
  unfold serialize
  simp only [hcall]
  refine ⟨rfl, rfl, ⟨he, ⟨fs ++ [f], ?_, ?_, ?_⟩, ?_⟩, ⟨rfl, rfl, rfl, rfl⟩⟩
  · simp only [ho, lib.rfc6455.encodeAll, List.flatMap_append, List.flatMap_cons, List.flatMap_nil,
      List.append_nil]
  · intro g hg
    rcases List.mem_append.mp hg with hg | hg
    · exact hlen g hg
    · obtain rfl := List.mem_singleton.mp hg
      exact h63
  · rw [Receiver.receiveAll_append, hr, Option.bind_some, Receiver.receiveAll, hreceive]
    rfl
  · simp only [hout, hr']
    cases f.fin <;> rfl

/-- A piece of another type than the message in progress is refused, and nothing is sent. -/
theorem refuses_piece {connection : Connection z} {r : Receiver} {type : DataType}
    {payload : List UInt8} {fin : Bool} (hs : Sent connection r)
    (h : r.piece type payload fin = none) (pl : Pipeline) :
    ∃ e, serialize pl connection (.message ⟨typeOpcode type, fin, payload⟩) =
      ⟨pl, connection, .error e⟩ := by
  unfold Receiver.piece Receiver.before at h
  rcases hprog : r.progress with _ | m
  · rw [hprog] at h
    cases h
  · rw [hprog] at h
    simp only at h
    split at h
    · cases h
    · rename_i hne
      have hp := hs.progress
      rw [hprog] at hp
      have hopcode : typeOpcode m.type ≠ typeOpcode type := by
        intro he
        apply hne
        revert he
        cases m.type <;> cases type <;> simp [typeOpcode]
      refine ⟨unexpected_opcode (typeOpcode m.type) (typeOpcode type), ?_⟩
      have hcall : manager_serialize connection.manager (.message ⟨typeOpcode type, fin, payload⟩) =
          ⟨connection.manager,
            .error (unexpected_opcode (typeOpcode m.type) (typeOpcode type))⟩ := by
        rw [manager_serialize_message, serialize_message, hp]
        simp [hopcode]
      rw [serialize, hcall]

/-! ## Whole messages -/

/-- Frames that take a receiver on, none of them longer than a limit, of which only the last has
FIN. -/
structure Chunks (r r' : Receiver) (limit : Nat) (destination : Endpoint)
    (fs : List lib.rfc6455.Frame) : Prop where
  read : r.receiveAll fs = some r'
  short : ∀ f ∈ fs, f.payload.length ≤ limit
  last : ∃ front f, fs = front ++ [f] ∧ f.fin = true ∧ ∀ g ∈ front, g.fin = false
  masked : ∀ f ∈ fs, f.maskKey.isSome = decide (destination = .server)
  reserved : ∀ f ∈ fs, f.rsv1 = false ∧ f.rsv2 = false ∧ f.rsv3 = false

theorem PieceFrame.chunks {r r' : Receiver} {limit : Nat} {destination : Endpoint} {type : DataType}
    {payload : List UInt8} {f : lib.rfc6455.Frame}
    (hf : PieceFrame r destination type payload true f) (hshort : payload.length ≤ limit)
    (h : r.piece type payload true = some r') : Chunks r r' limit destination [f] := by
  obtain ⟨rfl, hfin, hop, hmasked, hreserved⟩ := hf
  have hread := Receiver.receive_piece (hfin.symm ▸ h) hop
  refine ⟨by rw [Receiver.receiveAll, hread]; rfl, ?_, ⟨[], f, rfl, hfin, by simp⟩, ?_, ?_⟩
  · simpa using hshort
  · simpa using hmasked
  · simpa using hreserved

theorem PieceFrame.chunks_cons {r r1 r' : Receiver} {limit : Nat} {destination : Endpoint}
    {type : DataType} {payload : List UInt8} {f : lib.rfc6455.Frame} {fs : List lib.rfc6455.Frame}
    (hf : PieceFrame r destination type payload false f) (hshort : payload.length ≤ limit)
    (h : r.piece type payload false = some r1) (hs : Chunks r1 r' limit destination fs) :
    Chunks r r' limit destination (f :: fs) := by
  obtain ⟨rfl, hfin, hop, hmasked, hreserved⟩ := hf
  obtain ⟨front, last, rfl, hlast, hfront⟩ := hs.last
  have hread := Receiver.receive_piece (hfin.symm ▸ h) hop
  refine ⟨?_, ?_, ⟨f :: front, last, rfl, hlast, ?_⟩, ?_, ?_⟩
  · rw [Receiver.receiveAll, hread, Option.bind_some, hs.read]
  · exact List.forall_mem_cons.mpr ⟨hshort, hs.short⟩
  · exact List.forall_mem_cons.mpr ⟨hfin, hfront⟩
  · exact List.forall_mem_cons.mpr ⟨hmasked, hs.masked⟩
  · exact List.forall_mem_cons.mpr ⟨hreserved, hs.reserved⟩

/-- The connection after frames that end a message. -/
def wroteAll (connection : Connection z) (manager : FrameParser z)
    (fs : List lib.rfc6455.Frame) : Connection z :=
  { connection with manager := manager, output := connection.output ++ lib.rfc6455.encodeAll fs }

theorem wroteAll_wroteAll (connection : Connection z) (manager manager' : FrameParser z)
    (f : lib.rfc6455.Frame) (fs : List lib.rfc6455.Frame) :
    wroteAll (wroteAll connection manager [f]) manager' fs =
      wroteAll connection manager' (f :: fs) := by
  simp only [wroteAll, lib.rfc6455.encodeAll, List.flatMap_cons, List.flatMap_nil, List.append_nil,
    List.append_assoc]

/-- The rest of a message is written in chunks that a receiver puts together. -/
theorem send_loop_chunks (msg : Message) {type : DataType} (ht : msg.type = typeOpcode type)
    (ep : Endpoint) (pl : Pipeline) {connection : Connection z} {r : Receiver}
    {content : List UInt8} {i : Nat} (he : connection.manager.extensions_ = [])
    (hp : connection.manager.effective_opcode_out_ = r.progress.map (fun m => typeOpcode m.type))
    (hb : r.before type = some content) :
    ∃ manager fs, send_loop ep pl connection msg i = ⟨pl, wroteAll connection manager fs, .ok ()⟩ ∧
      manager.extensions_ = [] ∧ manager.effective_opcode_out_ = none ∧
      Chunks r (r.extend ⟨type, content ++ msg.content.drop i⟩ true) (chunk_size ep)
        connection.manager.destination_ fs := by
  induction hn : msg.content.length - i using Nat.strongRecOn
    generalizing connection r content i with
  | ind n ih =>
    have hchunk := chunk_size_pos ep
    have hpiece : ∀ fin, r.piece type ((msg.content.drop i).take (chunk_size ep)) fin =
        some (r.extend ⟨type, content ++ (msg.content.drop i).take (chunk_size ep)⟩ fin) := by
      intro fin; rw [Receiver.piece, hb]; rfl
    have hshort : ((msg.content.drop i).take (chunk_size ep)).length ≤ chunk_size ep := by
      rw [List.length_take]; omega
    rw [send_loop, ht]
    split
    · rename_i hend
      have hall : (msg.content.drop i).take (chunk_size ep) = msg.content.drop i :=
        List.take_of_length_le (by rw [List.length_drop]; omega)
      rw [hall] at hpiece hshort ⊢
      obtain ⟨fp', f, hcall, hf, he', hout, -⟩ :=
        manager_serialize_piece he hp hb (msg.content.drop i) true
      refine ⟨fp', [f], ?_, he', hout, hf.chunks hshort (hpiece true)⟩
      simp only [serialize, hcall, wroteAll, lib.rfc6455.encodeAll, List.flatMap_cons,
        List.flatMap_nil, List.append_nil]
    · obtain ⟨fp', f, hcall, hf, he', hout, hdest⟩ :=
        manager_serialize_piece he hp hb ((msg.content.drop i).take (chunk_size ep)) false
      have hprogress : (wroteAll connection fp' [f]).manager.effective_opcode_out_ =
          (r.extend ⟨type, content ++ (msg.content.drop i).take (chunk_size ep)⟩
            false).progress.map (fun m => typeOpcode m.type) := hout
      obtain ⟨manager, fs, hloop, hexts, hend, hs⟩ :=
        ih (msg.content.length - (i + chunk_size ep)) (by omega) he' hprogress
          (Receiver.before_extend_false r ⟨type, _⟩) rfl
      have hjoin : content ++ (msg.content.drop i).take (chunk_size ep) ++
          msg.content.drop (i + chunk_size ep) = content ++ msg.content.drop i := by
        rw [List.append_assoc, ← List.drop_drop, List.take_append_drop]
      -- Extending the message in progress and ending it is ending it with both pieces.
      have hextend : ∀ m m' : lib.rfc6455.Message, (r.extend m false).extend m' true =
          r.extend m' true := fun _ _ => rfl
      rw [hextend, hjoin] at hs
      have hdestination : (wroteAll connection fp' [f]).manager.destination_ =
          connection.manager.destination_ := hdest
      rw [hdestination] at hs
      refine ⟨manager, f :: fs, ?_, hexts, hend, hf.chunks_cons hshort (hpiece false) hs⟩
      have hwrote : serialize pl connection (.message ⟨typeOpcode type, false,
          (msg.content.drop i).take (chunk_size ep)⟩) =
          ⟨pl, wroteAll connection fp' [f], .ok ()⟩ := by
        simp only [serialize, hcall, wroteAll, lib.rfc6455.encodeAll, List.flatMap_cons,
          List.flatMap_nil, List.append_nil]
      rw [hwrote, Handled.bind]
      exact hloop.trans (by rw [wroteAll_wroteAll])

theorem send_loop_sends (msg : Message) {type : DataType} (ht : msg.type = typeOpcode type)
    (ep : Endpoint) (pl : Pipeline) {connection : Connection z} {r : Receiver}
    {content : List UInt8} {i : Nat} (hs : Sent connection r) (hb : r.before type = some content) :
    Sends pl connection (send_loop ep pl connection msg i)
      (r.extend ⟨type, content ++ msg.content.drop i⟩ true) := by
  have hlimit : chunk_size ep < 2 ^ 63 := by cases ep <;> decide
  obtain ⟨manager, fs, hloop, he, hnone, hchunks⟩ :=
    send_loop_chunks msg ht ep pl (i := i) hs.exts hs.progress hb
  obtain ⟨sent, ho, hlen, hr⟩ := hs.output
  rw [hloop]
  refine ⟨rfl, rfl, ⟨he, ⟨sent ++ fs, ?_, ?_, ?_⟩, hnone⟩, ⟨rfl, rfl, rfl, rfl⟩⟩
  · simp only [wroteAll, ho, lib.rfc6455.encodeAll, List.flatMap_append]
  · intro f hf
    rcases List.mem_append.mp hf with hf | hf
    · exact hlen f hf
    · have hshort := hchunks.short f hf
      omega
  · rw [Receiver.receiveAll_append, hr, Option.bind_some, hchunks.read]

/-- An unblocked message goes through whole, and ends the message in progress if there is one of
its type. -/
theorem send_message_sends (msg : Message) {type : DataType} (ht : msg.type = typeOpcode type)
    (hm : msg.blocked = false) (pl : Pipeline) {connection : Connection z} {r : Receiver}
    {content : List UInt8} (hs : Sent connection r) (hb : r.before type = some content) :
    Sends pl connection (send_message pl connection msg)
      (r.extend ⟨type, content ++ msg.content⟩ true) := by
  have h := send_loop_sends msg ht connection.source_ep pl (i := 0) hs hb
  rw [send_message, hm]
  exact h

/-- With no message in progress and no extension, an unblocked message is sent in frames that a
receiver puts together to that message: none is longer than the chunk size of the source, only the
last has FIN, and no message is left in progress. -/
theorem a_message_is_sent_in_chunks (type : DataType) (origin : Endpoint) (content : List UInt8)
    (pl : Pipeline) (connection : Connection z) (hexts : connection.manager.extensions_ = [])
    (hout : connection.manager.effective_opcode_out_ = none) :
    ∃ manager fs,
      send_message pl connection ⟨typeOpcode type, origin, content, false⟩ =
        ⟨pl, { connection with
          manager := manager, output := connection.output ++ lib.rfc6455.encodeAll fs }, .ok ()⟩ ∧
      lib.rfc6455.decodeAll (lib.rfc6455.encodeAll fs) = some fs ∧
      lib.rfc6455.received (lib.rfc6455.encodeAll fs) = some ⟨none, [⟨type, content⟩]⟩ ∧
      Chunks .start ⟨none, [⟨type, content⟩]⟩ (chunk_size connection.source_ep)
        connection.manager.destination_ fs ∧
      manager.effective_opcode_out_ = none := by
  have hlimit : chunk_size connection.source_ep < 2 ^ 63 := by
    cases connection.source_ep <;> decide
  obtain ⟨manager, fs, hloop, -, hnone, hchunks⟩ :=
    send_loop_chunks (r := .start) ⟨typeOpcode type, origin, content, false⟩ rfl
      connection.source_ep pl (i := 0) hexts hout rfl
  have h63 : ∀ f ∈ fs, f.payload.length < 2 ^ 63 := by
    intro f hf
    have hshort := hchunks.short f hf
    omega
  refine ⟨manager, fs, ?_, ?_, ?_, hchunks, hnone⟩
  · rw [send_message, if_neg (by simp), hloop]
    rfl
  · exact lib.rfc6455.decodeAll_encodeAll h63
  · rw [lib.rfc6455.received_encodeAll h63]
    exact hchunks.read

/-- A client of which a pong was passed on to the server. -/
def ponged : Connection .inert :=
  { Connection.new .server [] (fun i => UInt32.ofNat (77 * i + 1)) with
    output := [0x8A, 0x80, 1, 2, 3, 4] }

/-- Ten thousand bytes, with what was sent before. -/
theorem a_message_is_sent_in_chunks_of_a_client :
    ∃ manager fs,
      send_message (.new false) ponged ⟨.text, .client, List.replicate 10000 97, false⟩ =
        ⟨.new false, { ponged with
          manager := manager
          output := [0x8A, 0x80, 1, 2, 3, 4] ++ lib.rfc6455.encodeAll fs }, .ok ()⟩ ∧
      lib.rfc6455.decodeAll (lib.rfc6455.encodeAll fs) = some fs ∧
      lib.rfc6455.received (lib.rfc6455.encodeAll fs) =
        some ⟨none, [⟨.text, List.replicate 10000 97⟩]⟩ ∧
      Chunks .start ⟨none, [⟨.text, List.replicate 10000 97⟩]⟩ 4088 .server fs ∧
      manager.effective_opcode_out_ = none :=
  a_message_is_sent_in_chunks .text .client (List.replicate 10000 97) (.new false) ponged rfl rfl

/-- A message of another type than the one in progress is refused, and nothing is sent. -/
theorem refuses_message (msg : Message) {connection : Connection z} {r : Receiver}
    {type : DataType} (ht : msg.type = typeOpcode type) (hm : msg.blocked = false)
    (hs : Sent connection r) (hb : r.before type = none) (pl : Pipeline) :
    ∃ e, send_message pl connection msg = ⟨pl, connection, .error e⟩ := by
  have hnone : ∀ p fin, r.piece type p fin = none := fun p fin => by rw [Receiver.piece, hb]; rfl
  rw [send_message, hm, if_neg (by simp), send_loop, ht]
  split
  · exact refuses_piece hs (hnone _ _) pl
  · obtain ⟨e, he⟩ := refuses_piece hs (hnone ((msg.content.drop 0).take
      (chunk_size connection.source_ep)) false) pl
    exact ⟨e, by rw [he]; rfl⟩

end proxy.websocket
