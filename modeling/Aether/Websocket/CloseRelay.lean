-- The payload of a close frame on its way to the other endpoint: the manager
-- decodes it to a code and a reason, and another call encodes these.
import Aether.Lib.Rfc6455Headers
import Aether.Websocket.FrameWriting
import Aether.Websocket.WebsocketService

open util.buffer util.bytes lib.big_endian

namespace proxy.websocket

open protocol extensions

variable {z : Zlib}

/-! ## The two directions -/

/-- The payload that `serialize` makes of a close frame. -/
def CloseFrame.payload (f : CloseFrame) : List UInt8 :=
  util.bytes.insert 2 (f.code.value % 2 ^ 16) ++ f.reason

theorem process_close_frame_empty :
    process_close_frame [] = .ok ⟨.no_status_rcvd, []⟩ := rfl

theorem process_close_frame_one (b : UInt8) : process_close_frame [b] =
    .error (proxy_error .invalid_frame "Close frame cannot have 1 byte payload") := rfl

theorem process_close_frame_code (b0 b1 : UInt8) (reason : List UInt8) :
    process_close_frame (b0 :: b1 :: reason) = .ok ⟨⟨ofBigEndian [b0, b1]⟩, reason⟩ := by
  have hlen : 2 ≤ BufferSegment.new.uncommitted.length + (b0 :: b1 :: reason).length := by
    simp [BufferSegment.new]
  have hread := BufferSegment.read_enough (BufferSegment.gathering_new (by decide : 0 < 2))
    (by decide) hlen
  have htaken : BufferSegment.new.uncommitted ++
      (b0 :: b1 :: reason).take (2 - BufferSegment.new.uncommitted.length) = [b0, b1] := rfl
  have hrest : (b0 :: b1 :: reason).drop (2 - BufferSegment.new.uncommitted.length) = reason := rfl
  have htwo : parse_network_byte_order 2 [b0, b1] = ofBigEndian [b0, b1] := parse_two rfl
  rw [htaken, hrest] at hread
  unfold process_close_frame
  rw [hread]
  simp [bind, Except.bind, htwo]

/-- A code and a reason are encoded as they were. -/
theorem payload_code (b0 b1 : UInt8) (reason : List UInt8) :
    CloseFrame.payload ⟨⟨ofBigEndian [b0, b1]⟩, reason⟩ = b0 :: b1 :: reason := by
  have hlt : ofBigEndian [b0, b1] < 2 ^ 16 := by simpa using ofBigEndian_lt [b0, b1]
  have hcode : bigEndian 2 (ofBigEndian [b0, b1]) = [b0, b1] := bigEndian_ofBigEndian [b0, b1]
  unfold CloseFrame.payload
  rw [Nat.mod_eq_of_lt hlt, insert_eq_bigEndian, hcode]
  rfl

theorem payload_no_status : CloseFrame.payload ⟨.no_status_rcvd, []⟩ = [3, 237] := by decide

/-- What is decoded is encoded as it was, but for the payload that is not there. -/
theorem payload_of_process {content : List UInt8} {f : CloseFrame}
    (h : process_close_frame content = .ok f) :
    f.payload = if content = [] then [3, 237] else content := by
  rcases content with _ | ⟨b0, _ | ⟨b1, reason⟩⟩
  · rw [process_close_frame_empty] at h
    obtain rfl := Except.ok.inj h
    rw [payload_no_status, if_pos rfl]
  · rw [process_close_frame_one] at h
    cases h
  · rw [process_close_frame_code] at h
    obtain rfl := Except.ok.inj h
    rw [payload_code, if_neg (List.cons_ne_nil b0 _)]

/-! ## The frame that is written -/

theorem put_same (b : DoubleBuffer) : b.put b.input b.output = b := by
  rcases b with ⟨first, second, _ | _⟩ <;> rfl

/-- Extensions leave a control frame as it is. -/
theorem run_outbound_hooks_control (exts : List (PermessageDeflate z)) {header : FrameHeader}
    (htype : is_control header.type = true) (buffers : DoubleBuffer) :
    run_outbound_hooks exts header buffers = .ok ⟨exts, header, buffers, none⟩ := by
  have hdata : opcode_is_compressible header.type = false := by
    rw [opcode_is_compressible, htype]
    rfl
  induction exts with
  | nil => rfl
  | cons ext exts ih =>
    unfold run_outbound_hooks on_outbound_frame
    simp [hdata, bind, Except.bind, put_same, ih]

/-- A short control frame is written with its payload, whatever the extensions. -/
theorem serialize_frame_control (fp : FrameParser z) {type : Opcode}
    (htype : is_control type = true) {payload : List UInt8} (h : payload.length ≤ 125) :
    serialize_frame fp type payload true =
      ⟨drawn fp, .ok (lib.rfc6455.encode (wireFrame fp type payload true))⟩ := by
  have hcontrol : is_control (outboundHeader fp type true false).type = true := htype
  have hhooks := run_outbound_hooks_control fp.extensions_ hcontrol ⟨payload, [], false⟩
  have hcall := serialize_frame_hooked hhooks (fun _ => h)
  exact hcall

theorem serialize_close_eq (fp : FrameParser z) {f : CloseFrame} (h : f.payload.length ≤ 125) :
    serialize_close fp f =
      ⟨drawn fp, .ok (lib.rfc6455.encode (wireFrame fp .close f.payload true))⟩ := by
  unfold serialize_close CloseFrame.payload at *
  exact serialize_frame_control fp (by decide) h

/-! ## The relay -/

/-- Of frames that `connection` has parsed, one close frame is written to its destination, and it
has this payload. -/
def RelaysClose (received : Interceptors) (pl : Pipeline) (connection : Connection z)
    (frames : List CompletedFrame) (payload : List UInt8) : Prop :=
  ∃ w : lib.rfc6455.Frame, w.opcode = 8 ∧ w.payload = payload ∧
    (handle_frames received pl connection frames).connection.output =
      connection.output ++ lib.rfc6455.encode w

theorem handle_close_output (received : Interceptors) (pl : Pipeline) {connection : Connection z}
    {f : CloseFrame} (hopen : connection.finished = false) (hlen : f.payload.length ≤ 125) :
    (handle_frames received pl connection [.close f]).connection.output = connection.output ++
      lib.rfc6455.encode (wireFrame connection.manager .close f.payload true) := by
  have hcall : manager_serialize connection.manager (.close f) =
      ⟨drawn connection.manager,
        .ok (lib.rfc6455.encode (wireFrame connection.manager .close f.payload true))⟩ :=
    serialize_close_eq connection.manager hlen
  unfold handle_frames on_frames on_frame on_close_frame on_frames close_connection serialize
  simp [Handled.bind, Pipeline.set_close_state, hopen, hcall]

theorem relaysClose_iff (received : Interceptors) (pl : Pipeline) {connection : Connection z}
    {f : CloseFrame} (hopen : connection.finished = false) (hlen : f.payload.length ≤ 125)
    (payload : List UInt8) :
    RelaysClose received pl connection [.close f] payload ↔ f.payload = payload := by
  have houtput := handle_close_output received pl hopen hlen
  constructor
  · rintro ⟨w, -, rfl, hsame⟩
    rw [houtput] at hsame
    have hframe := lib.rfc6455.encode_injective (List.append_cancel_left hsame)
    rw [← hframe]
    rfl
  · intro hpayload
    exact ⟨_, rfl, hpayload, houtput⟩

/-- The close frame of an endpoint reaches the other one with its payload, unless it has none. -/
theorem a_close_is_relayed_as_it_came_iff (received : Interceptors) (pl : Pipeline)
    (connection : Connection z) {frame : Frame} {frames : List CompletedFrame}
    (hopen : connection.finished = false) (htype : frame.type = .close)
    (hlen : frame.content.length ≤ 125) (haccepted : complete frame = .ok frames) :
    RelaysClose received pl connection frames frame.content ↔ frame.content ≠ [] := by
  obtain ⟨f, hf, rfl⟩ : ∃ f, process_close_frame frame.content = .ok f ∧ frames = [.close f] := by
    unfold complete at haccepted
    rw [htype] at haccepted
    simp only at haccepted
    cases hf : process_close_frame frame.content with
    | error e =>
      rw [hf] at haccepted
      cases haccepted
    | ok f =>
      rw [hf] at haccepted
      exact ⟨f, rfl, (Except.ok.inj haccepted).symm⟩
  have hpayload := payload_of_process hf
  by_cases hempty : frame.content = []
  · rw [if_pos hempty] at hpayload
    rw [relaysClose_iff received pl hopen (by rw [hpayload]; decide), hpayload, hempty]
    simp
  · rw [if_neg hempty] at hpayload
    rw [relaysClose_iff received pl hopen (by rw [hpayload]; exact hlen)]
    exact iff_of_true hpayload hempty

/-- What the client sends goes to the server. -/
def from_client : Connection .inert := .new .server [] (fun _ => 0)

def a_close_frame (content : List UInt8) : Frame where
  fin := true
  rsv := ⟨false, false, false⟩
  type := .close
  mask_bit := true
  payload_length := content.length
  mask_key := 0
  content := content

/-- The code 1001 and a reason. -/
def a_going_away : List UInt8 := [3, 233, 98, 121, 101]

theorem a_close_with_a_reason_is_relayed_as_it_came :
    RelaysClose (fun pl msg => (pl, msg)) (.new false) from_client
        [.close ⟨⟨1001⟩, [98, 121, 101]⟩] a_going_away ↔ a_going_away ≠ [] := by
  have haccepted : complete (a_close_frame a_going_away) =
      .ok [.close ⟨⟨1001⟩, [98, 121, 101]⟩] := by decide
  exact a_close_is_relayed_as_it_came_iff _ _ from_client rfl rfl (by decide) haccepted

/-- A close without a code goes on with the code that stands for none. -/
theorem an_empty_close_is_relayed_with_a_code :
    ∃ frames, complete (a_close_frame []) = .ok frames ∧
      ¬ RelaysClose (fun pl msg => (pl, msg)) (.new false) from_client frames [] ∧
      RelaysClose (fun pl msg => (pl, msg)) (.new false) from_client frames [3, 237] := by
  have hshort : CloseFrame.payload ⟨.no_status_rcvd, []⟩ = [3, 237] := payload_no_status
  refine ⟨[.close ⟨.no_status_rcvd, []⟩], rfl, ?_, ?_⟩
  · rw [relaysClose_iff _ _ rfl (by rw [hshort]; decide), hshort]
    simp
  · rw [relaysClose_iff _ _ rfl (by rw [hshort]; decide), hshort]

end proxy.websocket
