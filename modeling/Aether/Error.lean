-- The errors of the proxy: `proxy/error/error_code.hpp` and `error.hpp`, with
-- the codes of HTTP, TLS and WebSocket, and those of the proxy itself that a
-- parser or a service gives.
import Mathlib.Tactic.Common

namespace proxy

inductive errc where
  | parser_error
  | self_connect
  | invalid_method
  | invalid_status
  | invalid_version
  | invalid_target_host
  | invalid_target_port
  | invalid_request_line
  | invalid_header
  | header_not_found
  | invalid_body_size
  | body_size_too_large
  | invalid_chunked_body
  | no_response
  | invalid_response_line
  | malformed_response_body
  | invalid_client_hello
  | read_access_violation
  | tls_service_error
  | invalid_ssl_method
  | invalid_cipher_suite
  | invalid_trusted_certificates_file
  | invalid_cipher_suite_list
  | invalid_alpn_protos_list
  | ssl_context_error
  | ssl_server_store_creation_error
  | certificate_creation_error
  | certificate_issuer_not_found
  | certificate_subject_not_found
  | certificate_name_entry_error
  | alpn_not_found
  | upstream_handshake_failed
  | downstream_handshake_failed
  | upstream_connect_error
  | serial_number_generation_failed
  | invalid_opcode
  | extension_param_not_found
  | invalid_extension_string
  | invalid_frame
  | unexpected_opcode
  | serialization_error
  | zlib_error
  deriving DecidableEq, Repr

namespace errc

/-- The category and the name, as the text of an error spells them. -/
def label : errc → String
  | parser_error => "proxy::parser_error"
  | self_connect => "proxy::self_connect"
  | invalid_method => "http::invalid_method"
  | invalid_status => "http::invalid_status"
  | invalid_version => "http::invalid_version"
  | invalid_target_host => "http::invalid_target_host"
  | invalid_target_port => "http::invalid_target_port"
  | invalid_request_line => "http::invalid_request_line"
  | invalid_header => "http::invalid_header"
  | header_not_found => "http::header_not_found"
  | invalid_body_size => "http::invalid_body_size"
  | body_size_too_large => "http::body_size_too_large"
  | invalid_chunked_body => "http::invalid_chunked_body"
  | no_response => "http::no_response"
  | invalid_response_line => "http::invalid_response_line"
  | malformed_response_body => "http::malformed_response_body"
  | invalid_client_hello => "tls::invalid_client_hello"
  | read_access_violation => "tls::read_access_violation"
  | tls_service_error => "tls::tls_service_error"
  | invalid_ssl_method => "tls::invalid_ssl_method"
  | invalid_cipher_suite => "tls::invalid_cipher_suite"
  | invalid_trusted_certificates_file => "tls::invalid_trusted_certificates_file"
  | invalid_cipher_suite_list => "tls::invalid_cipher_suite_list"
  | invalid_alpn_protos_list => "tls::invalid_alpn_protos_list"
  | ssl_context_error => "tls::ssl_context_error"
  | ssl_server_store_creation_error => "tls::ssl_server_store_creation_error"
  | certificate_creation_error => "tls::certificate_creation_error"
  | certificate_issuer_not_found => "tls::certificate_issuer_not_found"
  | certificate_subject_not_found => "tls::certificate_subject_not_found"
  | certificate_name_entry_error => "tls::certificate_name_entry_error"
  | alpn_not_found => "tls::alpn_not_found"
  | upstream_handshake_failed => "tls::upstream_handshake_failed"
  | downstream_handshake_failed => "tls::downstream_handshake_failed"
  | upstream_connect_error => "tls::upstream_connect_error"
  | serial_number_generation_failed => "tls::serial_number_generation_failed"
  | invalid_opcode => "websocket::invalid_opcode"
  | extension_param_not_found => "websocket::extension_param_not_found"
  | invalid_extension_string => "websocket::invalid_extension_string"
  | invalid_frame => "websocket::invalid_frame"
  | unexpected_opcode => "websocket::unexpected_opcode"
  | serialization_error => "websocket::serialization_error"
  | zlib_error => "websocket::zlib_error"

/-- `error_code::message`, the default text. -/
def message : errc → String
  | parser_error => "Parser error"
  | self_connect => "Proxy cannot connect to itself"
  | invalid_method => "Invalid HTTP method"
  | invalid_status => "Invalid HTTP status"
  | invalid_version => "Invalid HTTP version"
  | invalid_target_host => "Invalid target host"
  | invalid_target_port => "Invalid target port"
  | invalid_request_line => "Invalid HTTP request line"
  | invalid_header => "Invalid HTTP header"
  | header_not_found => "Header was not found"
  | invalid_body_size => "Invalid HTTP body size"
  | body_size_too_large => "Given body size exceeds limit"
  | invalid_chunked_body => "Malformed chunked-encoding body"
  | no_response => "HTTP exchange has no response"
  | invalid_response_line => "Invalid HTTP response line"
  | malformed_response_body => "Malformed response body"
  | invalid_client_hello => "Invalid Client Hello message"
  | read_access_violation => "Read access violation (not enough data)"
  | tls_service_error => "Exception in TLS service"
  | invalid_ssl_method => "Invalid SSL version"
  | invalid_cipher_suite => "Invalid cipher suite"
  | invalid_trusted_certificates_file => "Invalid verify file"
  | invalid_cipher_suite_list => "Invalid cipher suite list"
  | invalid_alpn_protos_list => "Invalid ALPN protocol list"
  | ssl_context_error => "Failed to create and configure SSL context"
  | ssl_server_store_creation_error =>
    "An error occurred when creating the SSL server's certificate store"
  | certificate_creation_error => "An error occurred when generating an SSL certificate"
  | certificate_issuer_not_found => "Certificate issuer could not be found"
  | certificate_subject_not_found => "Certificate subject could not be found"
  | certificate_name_entry_error => "Error accessing certificate name entry"
  | alpn_not_found => "Negotiated ALPN could not be found"
  | upstream_handshake_failed => "Upstream handshake failed"
  | downstream_handshake_failed => "Downstream handshake failed"
  | upstream_connect_error => "Could not connect to upstream server"
  | serial_number_generation_failed =>
    "Failed to generate next serial number for SSL certificate generation"
  | invalid_opcode => "Invalid WebSocket opcode"
  | extension_param_not_found => "Extension parameter was not found"
  | invalid_extension_string => "Invalid extension string"
  | invalid_frame => "Invalid frame"
  | unexpected_opcode => "Unexpected opcode"
  | serialization_error => "Frame serialization error"
  | zlib_error => "zlib error"

end errc

/-- How a call fails. -/
inductive Error where
  /-- A `result` that holds an error. -/
  | state (code : errc) (message : String)
  /-- Behaviour that the language does not define. -/
  | undefined
  /-- An exception, which no `result` carries. -/
  | terminated
  deriving DecidableEq, Repr

/-- `error::<category>::<name>(message)`. -/
def proxy_error (code : errc) (message : String) : Error :=
  .state code (code.label ++ ": " ++ message)

/-- The same, with the default text. -/
def default_error (code : errc) : Error := proxy_error code code.message

/-- A sequence of two calls succeeds where both do. -/
theorem bind_eq_ok {ε α β : Type} {x : Except ε α} {f : α → Except ε β} {b : β} :
    (x >>= f) = .ok b ↔ ∃ a, x = .ok a ∧ f a = .ok b := by
  cases x with
  | error e => simp [bind, Except.bind]
  | ok a => simp [bind, Except.bind]

end proxy
