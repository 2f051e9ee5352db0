-- How the two managers set their compressors up from the parameters that the
-- handshake agreed on, and with whom they can then speak.
import Aether.Lib.Lz77
import Aether.Websocket.ExtensionHeaders
import Aether.Websocket.FrameParser

open util.string
open lib.lz77 (Coder Reads reads_iff)

namespace proxy.websocket.protocol

open extensions
open handshake (ExtensionData)

variable {z : Zlib}

/-! ## The streams -/

/-- The calls that open streams, by the `windowBits` that they are given, and the window of a
stream, as a power of two. -/
structure ZlibInit (z : Zlib) where
  deflateInit2 : Int → Option z.Deflate
  inflateInit2 : Int → Option z.Inflate
  deflate_bits : z.Deflate → Nat
  inflate_bits : z.Inflate → Nat

namespace extensions

def default_max_window_bits : Int := 15

def window_bits (data : ExtensionData) (name : Text) : Except Error Int :=
  if data.has_param name then
    match data.get_param name with
    | .ok value =>
      match lexical_cast_int value with
      | some bits => .ok bits
      | none => .error .terminated
    -- The text of an error is not a number.
    | .error _ => .error .terminated
  else .ok default_max_window_bits

/-- `permessage_deflate::create`, and the constructor in it. -/
def create (init : ZlibInit z) (caller : Endpoint) (data : ExtensionData) :
    Except Error (PermessageDeflate z) := do
  let client_no_context_takeover := data.has_param (text "client_no_context_takeover")
  let server_no_context_takeover := data.has_param (text "server_no_context_takeover")
  let client_max_window_bits ← window_bits data (text "client_max_window_bits")
  let server_max_window_bits ← window_bits data (text "server_max_window_bits")
  let flush :=
    if (client_no_context_takeover && caller = .client) ||
        (server_no_context_takeover && caller = .server) then .full_flush
    else .sync_flush
  let deflate_bits := if caller = .client then client_max_window_bits else server_max_window_bits
  let inflate_bits := if caller = .client then server_max_window_bits else client_max_window_bits
  match init.deflateInit2 (-1 * deflate_bits) with
  | none => .error (proxy_error .zlib_error "Could not initialize deflate stream")
  | some deflate_stream =>
    match init.inflateInit2 (-1 * inflate_bits) with
    | none => .error (proxy_error .zlib_error "Could not initialize inflate stream")
    | some inflate_stream => .ok (.start flush deflate_stream inflate_stream)

/-- `extension::from_extension_data`. No other extension is one that the proxy knows. -/
def from_extension_data (init : ZlibInit z) (caller : Endpoint) (data : ExtensionData) :
    Except Error (Option (PermessageDeflate z)) :=
  if data.name_ = text "permessage-deflate" then (create init caller data).map some else .ok none

end extensions

/-- The loop of the constructor of `frame_parser`. An extension that cannot be created is left out.
-/
def create_extensions (init : ZlibInit z) (destination : Endpoint) :
    List ExtensionData → Except Error (List (PermessageDeflate z))
  | [] => .ok []
  | data :: rest =>
    match from_extension_data init destination data with
    | .ok (some ext) => (create_extensions init destination rest).map (ext :: ·)
    | .ok none => create_extensions init destination rest
    | .error (.state _ _) => create_extensions init destination rest
    | .error e => .error e

/-- The constructor of `websocket_manager`, and of `frame_parser` in it. -/
def websocket_manager (init : ZlibInit z) (ep : Endpoint) (extension_data : List ExtensionData)
    (generator : Nat → UInt32) : Except Error (FrameParser z) :=
  (create_extensions init ep extension_data).map fun exts => .new ep exts generator

/-! ## What was agreed on -/

/-- RFC 7692, section 7.1: the window that an endpoint writes with, as a power of two, and whether
it drops its context behind each message. -/
structure Agreement where
  bits : Endpoint → Nat
  forgets : Endpoint → Bool

/-- How an endpoint writes, and its peer reads. -/
def Agreement.coder (a : Agreement) (writer : Endpoint) : Coder :=
  ⟨2 ^ a.bits writer, !a.forgets writer⟩

def windowParam : Endpoint → Text
  | .client => text "client_max_window_bits"
  | .server => text "server_max_window_bits"

def contextParam : Endpoint → Text
  | .client => text "client_no_context_takeover"
  | .server => text "server_no_context_takeover"

/-- The parameters say what was agreed on. A window that none gives is 15. -/
structure Negotiated (data : ExtensionData) (a : Agreement) : Prop where
  name : data.name_ = text "permessage-deflate"
  range : ∀ ep, 8 ≤ a.bits ep ∧ a.bits ep ≤ 15
  window : ∀ ep, (data.params_.find (windowParam ep)).getD (decimal 15) = decimal (a.bits ep)
  context : ∀ ep, (data.params_.find (contextParam ep)).isSome = a.forgets ep

/-- What zlib says of raw streams. A window of 8 is not one that `deflate` has: it is refused, or 9
is used for it. -/
structure RawStreams (init : ZlibInit z) : Prop where
  deflate : ∀ n : Nat, 9 ≤ n → n ≤ 15 →
    ∃ stream, init.deflateInit2 (-n) = some stream ∧ init.deflate_bits stream = n
  deflate_eight : ∀ stream, init.deflateInit2 (-8) = some stream → init.deflate_bits stream = 9
  inflate : ∀ n : Nat, 8 ≤ n → n ≤ 15 →
    ∃ stream, init.inflateInit2 (-n) = some stream ∧ init.inflate_bits stream = n

/-! ## What the managers do with it -/

theorem Negotiated.window_bits {data : ExtensionData} {a : Agreement} (h : Negotiated data a)
    (ep : Endpoint) : window_bits data (windowParam ep) = .ok (a.bits ep : Int) := by
  have hcast : lexical_cast_int (decimal (a.bits ep)) = some (a.bits ep : Int) :=
    lexical_cast_int_decimal (Nat.lt_of_le_of_lt (h.range ep).2 (by decide))
  have hwindow := h.window ep
  unfold extensions.window_bits ExtensionData.has_param ExtensionData.get_param
  rcases hp : data.params_.find (windowParam ep) with _ | value
  · rw [hp, Option.getD_none] at hwindow
    rw [← hwindow, lexical_cast_int_decimal (by decide)] at hcast
    exact congrArg Except.ok (Option.some.inj hcast)
  · rw [hp, Option.getD_some] at hwindow
    simp only [Option.isSome_some, if_true, hwindow, hcast]

/-- The manager that writes to an endpoint takes the window and the context of that endpoint for
what it writes, and those of the other for what it reads. -/
theorem create_negotiated {data : ExtensionData} {a : Agreement} (h : Negotiated data a)
    (init : ZlibInit z) (ep : Endpoint) :
    create init ep data =
      match init.deflateInit2 (-(a.bits ep : Int)) with
      | none => .error (proxy_error .zlib_error "Could not initialize deflate stream")
      | some deflate_stream =>
        match init.inflateInit2 (-(a.bits (flip_endpoint ep) : Int)) with
        | none => .error (proxy_error .zlib_error "Could not initialize inflate stream")
        | some inflate_stream =>
          .ok (.start (if a.forgets ep then .full_flush else .sync_flush) deflate_stream
            inflate_stream) := by
  have hclient := h.window_bits .client
  have hserver := h.window_bits .server
  have hforgetsc : data.has_param (text "client_no_context_takeover") = a.forgets .client :=
    h.context .client
  have hforgetss : data.has_param (text "server_no_context_takeover") = a.forgets .server :=
    h.context .server
  simp only [windowParam] at hclient hserver
  unfold create
  rw [hclient, hserver, hforgetsc, hforgetss]
  cases ep with
  | client =>
    simp only [bind, Except.bind, flip_endpoint, Int.neg_mul, Int.one_mul, if_true, reduceCtorEq,
      decide_true, decide_false, Bool.and_true, Bool.and_false, Bool.or_false]
  | server =>
    simp only [bind, Except.bind, flip_endpoint, Int.neg_mul, Int.one_mul, if_false, reduceCtorEq,
      decide_true, decide_false, Bool.and_true, Bool.and_false, Bool.false_or]

/-- A manager has the extension that was created for it, if one was. -/
theorem websocket_manager_iff {data : ExtensionData}
    (hname : data.name_ = text "permessage-deflate") (init : ZlibInit z) (ep : Endpoint)
    (generator : Nat → UInt32) (ext : PermessageDeflate z) :
    websocket_manager init ep [data] generator = .ok (.new ep [ext] generator) ↔
      create init ep data = .ok ext := by
  have hnew : ∀ exts, FrameParser.new ep exts generator = .new ep [ext] generator ↔
      exts = [ext] := by
    intro exts
    simp [FrameParser.new]
  unfold websocket_manager create_extensions from_extension_data
  rw [if_pos hname]
  rcases create init ep data with e | made
  · cases e <;> simp [Except.map, create_extensions, hnew]
  · simp [Except.map, create_extensions, hnew]

/-! ## The law -/

/-- How the proxy writes with the extension. -/
def writes (init : ZlibInit z) (ext : PermessageDeflate z) : Coder :=
  ⟨2 ^ init.deflate_bits ext.deflate_stream_, ext.flush_ ≠ .full_flush⟩

/-- How it reads. A stream that inflates is never reset. -/
def reads (init : ZlibInit z) (ext : PermessageDeflate z) : Coder :=
  ⟨2 ^ init.inflate_bits ext.inflate_stream_, true⟩

/-- The extension of the manager that writes to one endpoint keeps to what was agreed on for the
other, in whose place the proxy writes and whose messages it reads. -/
structure Fits (init : ZlibInit z) (a : Agreement) (ep : Endpoint) (ext : PermessageDeflate z) :
    Prop where
  deflates : init.deflate_bits ext.deflate_stream_ ≤ a.bits (flip_endpoint ep)
  drops : a.forgets (flip_endpoint ep) = true → ext.flush_ = .full_flush
  inflates : init.inflate_bits ext.inflate_stream_ = a.bits (flip_endpoint ep)

/-- Both managers compress, and with each of them every run of messages is read: by its endpoint,
what the proxy writes to it, and by the proxy, what the other endpoint writes. -/
def Understood (init : ZlibInit z) (data : ExtensionData) (a : Agreement)
    (generator : Nat → UInt32) : Prop :=
  ∀ ep, ∃ ext : PermessageDeflate z,
    websocket_manager init ep [data] generator = .ok (.new ep [ext] generator) ∧
    Reads UInt8 (a.coder (flip_endpoint ep)) (writes init ext) ∧
    Reads UInt8 (reads init ext) (a.coder (flip_endpoint ep)) ∧ Fits init a ep ext

theorem pow_le_pow_iff (m n : Nat) : 2 ^ m ≤ 2 ^ n ↔ m ≤ n := Nat.pow_le_pow_iff_right (by decide)

/-- What the proxy writes is read by one that reads as agreed on for `ep`. -/
theorem reads_writes_iff (init : ZlibInit z) (a : Agreement) (ep : Endpoint)
    (ext : PermessageDeflate z) :
    Reads UInt8 (a.coder ep) (writes init ext) ↔
      init.deflate_bits ext.deflate_stream_ ≤ a.bits ep ∧
        (a.forgets ep = true → ext.flush_ = .full_flush) := by
  rw [reads_iff (Nat.two_pow_pos _)]
  simp only [writes, Agreement.coder, pow_le_pow_iff]
  apply and_congr_right
  intro _
  cases a.forgets ep <;> simp

theorem reads_coder_iff (init : ZlibInit z) (a : Agreement) (ep : Endpoint)
    (ext : PermessageDeflate z) :
    Reads UInt8 (reads init ext) (a.coder ep) ↔
      a.bits ep ≤ init.inflate_bits ext.inflate_stream_ := by
  rw [reads_iff (Nat.two_pow_pos _)]
  simp only [reads, Agreement.coder, pow_le_pow_iff, implies_true, and_true]

/-- What the manager that writes to `ep` was created with. -/
structure Created (init : ZlibInit z) (a : Agreement) (ep : Endpoint) (ext : PermessageDeflate z) :
    Prop where
  deflates : init.deflate_bits ext.deflate_stream_ = if a.bits ep = 8 then 9 else a.bits ep
  inflates : init.inflate_bits ext.inflate_stream_ = a.bits (flip_endpoint ep)
  flush : ext.flush_ = if a.forgets ep then .full_flush else .sync_flush

theorem created_of_create {init : ZlibInit z} (hraw : RawStreams init) {data : ExtensionData}
    {a : Agreement} (h : Negotiated data a) {ep : Endpoint} {ext : PermessageDeflate z}
    (hext : create init ep data = .ok ext) : Created init a ep ext := by
  rw [create_negotiated h] at hext
  rcases hd : init.deflateInit2 (-(a.bits ep : Int)) with _ | deflate
  · rw [hd] at hext
    cases hext
  · obtain ⟨inflate, hi, hinflate⟩ := hraw.inflate _ (h.range (flip_endpoint ep)).1
      (h.range (flip_endpoint ep)).2
    rw [hd, hi] at hext
    cases hext
    refine ⟨?_, hinflate, rfl⟩
    by_cases h8 : a.bits ep = 8
    · rw [if_pos h8]
      rw [h8] at hd
      exact hraw.deflate_eight deflate hd
    · have hrange := h.range ep
      obtain ⟨deflate', hd', hdeflate⟩ := hraw.deflate (a.bits ep) (by omega) hrange.2
      rw [hd] at hd'
      cases hd'
      rw [if_neg h8]
      exact hdeflate

theorem create_of_ne_eight {init : ZlibInit z} (hraw : RawStreams init) {data : ExtensionData}
    {a : Agreement} (h : Negotiated data a) {ep : Endpoint} (h8 : a.bits ep ≠ 8) :
    ∃ ext, create init ep data = .ok ext := by
  have hrange := h.range ep
  obtain ⟨deflate, hd, -⟩ := hraw.deflate (a.bits ep) (by omega) hrange.2
  obtain ⟨inflate, hi, -⟩ := hraw.inflate _ (h.range (flip_endpoint ep)).1
    (h.range (flip_endpoint ep)).2
  rw [create_negotiated h, hd, hi]
  exact ⟨_, rfl⟩

/-- A zlib of which only the windows of the streams are of interest. -/
def windowZlib : Zlib where
  Inflate := Nat
  Deflate := Nat
  inflate bits _ _ := ⟨bits, .ok, [], []⟩
  deflate bits _ _ _ := ⟨bits, .ok, [], []⟩
  inflate_left _ _ := 0
  deflate_left _ _ := 0
  inflate_room _ _ _ := Nat.zero_le _
  deflate_room _ _ _ _ := Nat.zero_le _
  inflate_ends _ _ n h he := absurd he (by simp; omega)
  deflate_ends _ _ n h he := absurd he (by simp; omega)

/-- It refuses a window of 8 for what it deflates. -/
def windowInit : ZlibInit windowZlib where
  deflateInit2 n := if -15 ≤ n ∧ n ≤ -9 then some (-n).toNat else none
  inflateInit2 n := if -15 ≤ n ∧ n ≤ -8 then some (-n).toNat else none
  deflate_bits bits := bits
  inflate_bits bits := bits

theorem rawStreams_windowInit : RawStreams windowInit where
  deflate n h9 h15 := ⟨n, by simp [windowInit, h9, h15], rfl⟩
  deflate_eight stream h := by
    simp [windowInit] at h
  inflate n h8 h15 := ⟨n, by simp [windowInit, h8, h15], rfl⟩

/-- All are understood exactly when the two endpoints agreed on the same for each other, and not on
the window that zlib lacks. -/
theorem all_are_understood_iff_the_endpoints_agreed_on_the_same {init : ZlibInit z}
    (hraw : RawStreams init) {data : ExtensionData} {a : Agreement} (h : Negotiated data a)
    (generator : Nat → UInt32) :
    Understood init data a generator ↔
      a.bits .client = a.bits .server ∧ a.forgets .client = a.forgets .server ∧
        a.bits .client ≠ 8 := by
  have hdrops : ∀ {ep ext}, Created init a ep ext →
      (ext.flush_ = .full_flush ↔ a.forgets ep = true) := by
    intro ep ext hc
    rw [hc.flush]
    cases a.forgets ep <;> simp
  constructor
  · intro hu
    obtain ⟨client, hclient, -, -, hfitc⟩ := hu .client
    obtain ⟨server, hserver, -, -, hfits⟩ := hu .server
    rw [websocket_manager_iff h.name] at hclient hserver
    have hc := created_of_create hraw h hclient
    have hs := created_of_create hraw h hserver
    have hbitsc := hfitc.deflates
    have hbitss := hfits.deflates
    have hforgetsc := hfitc.drops
    have hforgetss := hfits.drops
    rw [hc.deflates] at hbitsc
    rw [hs.deflates] at hbitss
    rw [hdrops hc] at hforgetsc
    rw [hdrops hs] at hforgetss
    simp only [flip_endpoint] at hbitsc hbitss hforgetsc hforgetss
    refine ⟨?_, Bool.eq_iff_iff.mpr ⟨hforgetss, hforgetsc⟩, ?_⟩
    · split_ifs at hbitsc hbitss <;> omega
    · intro h8
      rw [if_pos h8] at hbitsc
      split_ifs at hbitss <;> omega
  · rintro ⟨hbits, hforgets, h8⟩ ep
    have hsame : a.bits (flip_endpoint ep) = a.bits ep ∧
        a.forgets (flip_endpoint ep) = a.forgets ep := by
      cases ep with
      | client => exact ⟨hbits.symm, hforgets.symm⟩
      | server => exact ⟨hbits, hforgets⟩
    have hne : a.bits ep ≠ 8 := by
      cases ep with
      | client => exact h8
      | server => exact hbits ▸ h8
    obtain ⟨ext, hext⟩ := create_of_ne_eight hraw h hne
    have hc := created_of_create hraw h hext
    have hdeflates : init.deflate_bits ext.deflate_stream_ ≤ a.bits (flip_endpoint ep) := by
      rw [hc.deflates, if_neg hne, hsame.1]
    have hforgotten : a.forgets (flip_endpoint ep) = true → ext.flush_ = .full_flush := by
      rw [hsame.2, hdrops hc]
      exact id
    refine ⟨ext, (websocket_manager_iff h.name ..).mpr hext,
      (reads_writes_iff ..).mpr ⟨hdeflates, hforgotten⟩, ?_, hdeflates, hforgotten, hc.inflates⟩
    rw [reads_coder_iff, hc.inflates]

/-- `permessage-deflate` without parameters. -/
def default_data : ExtensionData := .new (text "permessage-deflate")

theorem negotiated_defaults : Negotiated default_data ⟨fun _ => 15, fun _ => false⟩ where
  name := rfl
  range ep := by cases ep <;> decide
  window ep := rfl
  context ep := rfl

theorem all_are_understood_with_the_defaults :
    Understood windowInit default_data ⟨fun _ => 15, fun _ => false⟩ (fun _ => 0) :=
  (all_are_understood_iff_the_endpoints_agreed_on_the_same rawStreams_windowInit
    negotiated_defaults _).mpr ⟨rfl, rfl, by decide⟩

/-- `permessage-deflate; server_max_window_bits=10`. -/
def smaller_window : ExtensionData :=
  default_data.set_param (text "server_max_window_bits") (text "10")

theorem negotiated_server_window :
    Negotiated smaller_window ⟨fun | .client => 15 | .server => 10, fun _ => false⟩ where
  name := rfl
  range ep := by cases ep <;> decide
  window ep := by cases ep <;> decide
  context ep := by cases ep <;> decide

/-- The client is sent references further back than it agreed to keep. -/
theorem a_client_is_not_understood_with_a_smaller_window_of_the_server :
    ¬ Understood windowInit smaller_window
      ⟨fun | .client => 15 | .server => 10, fun _ => false⟩ (fun _ => 0) := by
  intro h
  obtain ⟨ext, hext, -, -, hfits⟩ := h .client
  rw [websocket_manager_iff rfl] at hext
  have hcreated := created_of_create rawStreams_windowInit negotiated_server_window hext
  have hdeflates := hfits.deflates
  rw [hcreated.deflates] at hdeflates
  exact absurd hdeflates (by decide)

end proxy.websocket.protocol
