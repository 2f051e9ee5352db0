-- The parser of a Client Hello, `tls/handshake/client_hello.cpp`.
--
-- It walks over the bytes with an index. The buffer has signed characters, as
-- on the x86 targets of the project, and sizes have 64 bits.
import Aether.Error
import Aether.Lib.Cursor
import Mathlib.Algebra.Group.Nat.Defs

open lib.cursor
open lib.cursor.Reader (fail loop)

namespace proxy.tls.handshake

/-- A sum of sizes. -/
def size_t (n : Nat) : Nat := n % 2 ^ 64

/-- A `char` that is made a size. -/
def char_to_size (c : UInt8) : Nat := if c.toNat < 128 then c.toNat else 2 ^ 64 - 256 + c.toNat

/-! ## Reads -/

/-- `raw_data[index++]`, which nothing checks. -/
def read_next (raw_data : List UInt8) : Reader Error UInt8 := fun index =>
  match raw_data[index]? with
  | some c => ⟨size_t (index + 1), [.read index, .move index (size_t (index + 1))], .ok c⟩
  | none => ⟨index, [.read index], .error .fault⟩

def current_index : Reader Error Nat := fun index => ⟨index, [], .ok index⟩

/-- `copy_bytes`. A range that ends before it begins is not one. -/
def copy_bytes (src : List UInt8) (num_bytes : Nat) : Reader Error (List UInt8) := fun offset =>
  let last := size_t (offset + num_bytes)
  if src.length < last then fail (default_error .read_access_violation) offset
  else if last < offset then ⟨offset, [.copy offset last], .error .fault⟩
  else
    ⟨last, [.copy offset last, .move offset last], .ok ((src.drop offset).take (last - offset))⟩

def read_byte_string_loop (src : List UInt8) : Nat → Nat → Reader Error Nat
  | 0, res => pure res
  | i + 1, res => do
    let c ← read_next src
    read_byte_string_loop src i (size_t (res <<< 8) ||| c.toNat)

def read_byte_string (src : List UInt8) (num_bytes : Nat) : Reader Error Nat := fun offset =>
  if src.length < size_t (offset + num_bytes) then
    fail (default_error .read_access_violation) offset
  else read_byte_string_loop src num_bytes 0 offset

/-! ## The message -/

structure ServerName where
  type : UInt8
  host_name : List UInt8
  deriving DecidableEq, Repr

/-- `client_hello`. The extensions have the keys of the map, as they come. -/
structure ClientHello where
  record_header : List UInt8
  handshake_header : List UInt8
  version : List UInt8
  random : List UInt8
  session_id : List UInt8
  cipher_suites : List Nat
  compression_methods : List UInt8
  extensions : List (Nat × List UInt8)
  server_names : List ServerName
  alpn : List (List UInt8)
  deriving DecidableEq, Repr

def invalid_client_hello (message : String) : Error := proxy_error .invalid_client_hello message

/-- The type of `server_name`, and of `application_layer_protocol_negotiation`. -/
def server_name_type : Nat := 0x0000

def alpn_type : Nat := 0x0010

/-- A length of one byte, and as many bytes. -/
def read_short (raw_data : List UInt8) : Reader Error (List UInt8) := do
  let length ← read_next raw_data
  copy_bytes raw_data (char_to_size length)

/-- A loop from where the index is up to `length` bytes after it, with the bounds check that
follows. -/
def read_within {σ : Type} (raw_data : List UInt8) (length : Nat) (message : String)
    (body : σ → Reader Error σ) (s : σ) : Reader Error σ := do
  let prev_index ← current_index
  let s ← loop (size_t (prev_index + length)) body (raw_data.length + 1) s
  let index ← current_index
  if index ≠ size_t (prev_index + length) then fail (invalid_client_hello message) else pure s

def read_cipher_suite (raw_data : List UInt8) (suites : List Nat) : Reader Error (List Nat) := do
  let cipher_suite ← read_byte_string raw_data 2
  pure (suites ++ [cipher_suite])

def read_cipher_suites (raw_data : List UInt8) : Reader Error (List Nat) := do
  let ciphers_length ← read_byte_string raw_data 2
  read_within raw_data ciphers_length "Invalid cipher suites length" (read_cipher_suite raw_data) []

def read_server_name (raw_data : List UInt8) (names : List ServerName) :
    Reader Error (List ServerName) := do
  let _ ← read_byte_string raw_data 2
  let type ← read_next raw_data
  let name_length ← read_byte_string raw_data 2
  let host_name ← copy_bytes raw_data name_length
  pure (names ++ [⟨type, host_name⟩])

def read_alpn (raw_data : List UInt8) (alpn : List (List UInt8)) :
    Reader Error (List (List UInt8)) := do
  let next_alpn ← read_short raw_data
  pure (alpn ++ [next_alpn])

/-- One extension. We are specifically interested in a few extensions, so we do a bit more parsing
on them. -/
def read_extension (raw_data : List UInt8) (message : ClientHello) : Reader Error ClientHello := do
  let type ← read_byte_string raw_data 2
  let length ← read_byte_string raw_data 2
  if type = server_name_type then
    let names ← read_within raw_data length "Error in parsing server name extension"
      (read_server_name raw_data) message.server_names
    pure { message with server_names := names }
  else if type = alpn_type then
    let alpn_length ← read_byte_string raw_data 2
    let alpn ← read_within raw_data alpn_length "Error in parsing ALPN extension"
      (read_alpn raw_data) message.alpn
    pure { message with alpn := alpn }
  else if type ∈ message.extensions.map (·.1) then
    fail (invalid_client_hello "Duplicate extension found")
  else
    let data ← copy_bytes raw_data length
    pure { message with extensions := message.extensions ++ [(type, data)] }

/-- Extensions, if they exist. They read to the end of the message. -/
def read_extensions (raw_data : List UInt8) (message : ClientHello) : Reader Error ClientHello := do
  let extensions_length ← read_byte_string raw_data 2
  if extensions_length ≠ 0 then
    loop raw_data.length (read_extension raw_data) (raw_data.length + 1) message
  else pure message

/-- The length that the handshake header states. -/
def handshake_length (header : List UInt8) : Nat :=
  ((header.getD 1 0).toNat <<< 8 ||| (header.getD 2 0).toNat) <<< 8 ||| (header.getD 3 0).toNat

/-- From the session id on. -/
def read_body (raw_data : List UInt8) (message : ClientHello) : Reader Error ClientHello := do
  let session_id ← read_short raw_data
  let cipher_suites ← read_cipher_suites raw_data
  let compression_methods ← read_short raw_data
  let message ← read_extensions raw_data { message with
    session_id := session_id
    cipher_suites := cipher_suites
    compression_methods := compression_methods }
  let index ← current_index
  -- Bounds check for entire message.
  if index ≠ raw_data.length then fail (invalid_client_hello "Invalid Client Hello length")
  else pure message

def from_raw_data_impl (raw_data : List UInt8) : Reader Error ClientHello :=
  -- Bytes needed for record header and handshake header.
  if raw_data.length < 9 then fail (default_error .invalid_client_hello)
  else do
    let record_header ← copy_bytes raw_data 5
    let handshake_header ← copy_bytes raw_data 4
    -- Must be a Client Hello message.
    if handshake_header.getD 0 0 ≠ 0x01 then fail (default_error .invalid_client_hello)
    else if handshake_length handshake_header ≠ raw_data.length - 9 then
      fail (default_error .invalid_client_hello)
    else
      let version ← copy_bytes raw_data 2
      let random ← copy_bytes raw_data 32
      read_body raw_data ⟨record_header, handshake_header, version, random, [], [], [], [], [], []⟩

/-- `from_raw_data`, from index 0. -/
def from_raw_data (raw_data : List UInt8) : Read Error ClientHello :=
  let run := from_raw_data_impl raw_data 0
  { run with
    value :=
      match run.value with
      | .error (.error (.state .read_access_violation _)) =>
        .error (.error (invalid_client_hello "Invalid Client Hello length"))
      | value => value }

end proxy.tls.handshake
