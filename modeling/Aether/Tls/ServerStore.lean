-- The store of the certificates for clients, `tls/x509/server_store.cpp`, with
-- the certificates of `x509/certificate.cpp` and the names that `tls_service`
-- asks it for.
--
-- A name is a string of bytes, in the order of `std::string`. OpenSSL puts the
-- requested names into a certificate and gives them back as they are, and any
-- of its calls may fail. Keys, serial numbers and dates are left out.
import Aether.Tls.ClientHello
import Std.Data.TreeMap
import Std.Data.TreeSet

namespace proxy.tls.x509

abbrev Name := List UInt8

/-- The bytes of a text of the source. -/
def ascii (s : String) : Name := s.toList.map (fun c => UInt8.ofNat c.toNat)

/-! ## Certificates -/

structure CertificateInterface where
  common_name : Option Name
  sans : Std.TreeSet Name
  organization : Option Name

/-- A subject alternative name, as `GEN_DNS` or as `GEN_IPADD`. -/
inductive GeneralName where
  | dns (name : Name)
  | ip (name : Name)
  deriving DecidableEq, Repr

def GeneralName.text : GeneralName → Name
  | dns name => name
  | ip name => name

/-- The entries of an X.509 certificate. -/
structure Certificate where
  common_name : Option Name
  organization : Option Name
  sans : List GeneralName
  critical : Bool
  deriving DecidableEq, Repr

namespace Certificate

def get_nid_from_name : Option Name → Except Error (Option Name)
  -- This entry does not exist.
  | none => .ok none
  | some [] => .error (default_error .certificate_name_entry_error)
  | some name => .ok (some name)

/-- `add_sans`. It ignores non-DNS entries, and empty ones. -/
def dns_name : GeneralName → Option Name
  | .dns name => if name.length ≠ 0 then some name else none
  | .ip _ => none

/-- `sans`. -/
def dns_names (cert : Certificate) : List Name := cert.sans.filterMap dns_name

def all_server_names (cert : Certificate) : List Name :=
  match get_nid_from_name cert.common_name with
  | .ok (some name) => name :: cert.dns_names
  | _ => cert.dns_names

/-- All names of a certificate. -/
def names (cert : Certificate) : List Name :=
  cert.common_name.toList ++ cert.sans.map GeneralName.text

end Certificate

/-- `memory_certificate`, less its keys. -/
structure MemoryCertificate where
  cert : Certificate
  names : List Name
  deriving DecidableEq, Repr

/-! ## Generating certificates -/

/-- The calls of `generate_certificate` that may fail. -/
inductive Call where
  | set_serial
  | set_not_before
  | set_not_after
  | set_issuer
  | add_common_name
  | add_organization
  | set_version
  | add_subject_alt_name
  | add_key_usage
  | get_public_key
  | set_public_key
  | sign
  deriving DecidableEq, Repr

/-- A call, with the error that its failure is returned as. -/
structure Step where
  call : Call
  code : errc
  message : String

structure OpenSsl where
  succeeds : Call → CertificateInterface → Bool
  /-- `boost::asio::ip::address::from_string` takes the name. -/
  is_address : Name → Bool

namespace OpenSsl

variable (ssl : OpenSsl)

def has_valid_cn (ci : CertificateInterface) : Bool :=
  match ci.common_name with
  | some cn => decide (cn.length < 64)
  | none => false

/-- The calls of `generate_certificate`, in their order. -/
def steps (ci : CertificateInterface) : List Step :=
  [⟨.set_serial, .certificate_creation_error, "Error setting certificate serial number"⟩,
    ⟨.set_not_before, .certificate_creation_error,
      "Error setting certificate's notBefore property"⟩,
    ⟨.set_not_after, .certificate_creation_error,
      "Error setting certificate's notAfter property"⟩,
    ⟨.set_issuer, .certificate_creation_error, "Error setting certificate's issuer"⟩] ++
  (if has_valid_cn ci then
    [⟨.add_common_name, .certificate_creation_error,
      "Error setting certificate's common name property"⟩] else []) ++
  (if ci.organization.isSome then
    [⟨.add_organization, .certificate_creation_error,
      "Error setting certificate's organization property"⟩] else []) ++
  (if ci.sans.isEmpty then []
  else
    [⟨.set_version, .certificate_creation_error, "Error setting certificate version"⟩,
      ⟨.add_subject_alt_name, .ssl_server_store_creation_error,
        "Error adding certificate extension"⟩]) ++
  [⟨.add_key_usage, .ssl_server_store_creation_error, "Error adding certificate extension"⟩,
    ⟨.get_public_key, .certificate_creation_error,
      "Error retrieving server certificate's public key."⟩,
    ⟨.set_public_key, .certificate_creation_error, "Error setting certificate's public key."⟩,
    ⟨.sign, .certificate_creation_error, "Error signing certificate."⟩]

def check (ci : CertificateInterface) (step : Step) : Except Error Unit :=
  if ssl.succeeds step.call ci then .ok () else .error (proxy_error step.code step.message)

def general_name (san : Name) : GeneralName := if ssl.is_address san then .ip san else .dns san

def generate_certificate (ci : CertificateInterface) : Except Error Certificate := do
  (steps ci).forM (ssl.check ci)
  return {
    common_name := if has_valid_cn ci then ci.common_name else none
    organization := ci.organization
    sans := ci.sans.toList.map ssl.general_name
    -- No CN, so SANs are critical.
    critical := !ci.sans.isEmpty && !has_valid_cn ci }

end OpenSsl

/-! ## The store -/

def max_num_certs : Nat := 500

structure ServerStore where
  cert_map_ : Std.TreeMap Name MemoryCertificate
  /-- The front is the next certificate to delete when the max capacity is reached. -/
  cert_queue_ : List Name

/-- A store, and the certificate that it gives out. -/
structure Obtained where
  store : ServerStore
  cert : MemoryCertificate

/-- The loop of `get_asterisk_forms`, from a position on. -/
def asterisk_suffixes : Name → List Name
  | [] => []
  | c :: rest =>
    if c = '.'.toUInt8 then (ascii "*." ++ rest) :: asterisk_suffixes rest
    else asterisk_suffixes rest

def get_asterisk_forms (domain : Name) : List Name := domain :: asterisk_suffixes domain

/-- The loop of `is_disjoint`. -/
def disjoint_loop {α : Type} [Ord α] : List α → List α → Bool
  | it1 :: set1, it2 :: set2 =>
    match compare it1 it2 with
    | .eq => false
    | .lt => disjoint_loop set1 (it2 :: set2)
    | .gt => disjoint_loop (it1 :: set1) set2
  | _, _ => true
  termination_by set1 set2 => set1.length + set2.length

/-- `is_disjoint`, of two sequences that it takes to be in order. -/
def is_disjoint {α : Type} [Ord α] : List α → List α → Bool
  | it1 :: set1, it2 :: set2 =>
    if compare it1 ((it2 :: set2).getLastD it2) = .gt ∨
        compare it2 ((it1 :: set1).getLastD it1) = .gt then true
    else disjoint_loop (it1 :: set1) (it2 :: set2)
  | _, _ => true

namespace ServerStore

def new : ServerStore := ⟨∅, []⟩

/-- `insert`. The result is a reference into the map, which is read after the deletion. -/
def insert (store : ServerStore) (key : Name) (cert : MemoryCertificate) :
    Except Error Obtained :=
  let cert_map := store.cert_map_.insertIfNew key cert
  let cert_queue := store.cert_queue_ ++ [key]
  let store : ServerStore :=
    if cert_map.size > max_num_certs then ⟨cert_map.erase (cert_queue.headD []), cert_queue.tail⟩
    else ⟨cert_map, cert_queue⟩
  match store.cert_map_[key]? with
  | some result => .ok ⟨store, result⟩
  | none => .error .undefined

/-- The names that `get_certificate` looks for. -/
def common_names (ci : CertificateInterface) : Std.TreeSet Name :=
  match ci.common_name with
  | some cn => Std.TreeSet.ofList (get_asterisk_forms cn)
  | none => ∅

/-- `get_certificate`. Check for any overlap in the server names. -/
def get_certificate (store : ServerStore) (ci : CertificateInterface) : Option MemoryCertificate :=
  (store.cert_map_.toList.find?
    (fun pair => !is_disjoint (common_names ci).toList pair.2.names)).map (fun pair => pair.2)

def create_certificate (ssl : OpenSsl) (store : ServerStore) (ci : CertificateInterface) :
    Except Error Obtained := do
  let cert ← ssl.generate_certificate ci
  store.insert (ci.common_name.getD []) ⟨cert, cert.all_server_names⟩

/-- The end of `get_certificate_for_client`, with no interceptor. -/
def obtain (ssl : OpenSsl) (store : ServerStore) (ci : CertificateInterface) :
    Except Error Obtained :=
  match store.get_certificate ci with
  | some cert => .ok ⟨store, cert⟩
  | none => store.create_certificate ssl ci

end ServerStore

/-! ## The names of a client -/

/-- What `tls_service` reads of its connection to the server. -/
structure ServerEnd where
  connected : Bool
  host : Name
  secured : Bool
  cert : Certificate

/-- The names of the server, of `get_certificate_for_client`. -/
def server_names (server : ServerEnd) : Except Error CertificateInterface :=
  if !server.connected then .ok ⟨none, ∅, none⟩
  -- Always use host as the common name.
  else if !server.secured then .ok ⟨some server.host, ∅, none⟩
  -- TLS is established, use certificate data.
  else do
    let cn ← Certificate.get_nid_from_name server.cert.common_name
    let org ← Certificate.get_nid_from_name server.cert.organization
    return ⟨some server.host, Std.TreeSet.ofList (server.cert.dns_names ++ cn.toList), org⟩

/-- The interface that `get_certificate_for_client` builds. -/
def client_interface (server : ServerEnd) (message : handshake.ClientHello) :
    Except Error CertificateInterface := do
  let ci ← server_names server
  -- Copy Client Hello SNI entries.
  let sni := message.server_names.map (fun san => san.host_name)
  return { ci with sans := ci.sans.insertMany (sni ++ ci.common_name.toList) }

def get_certificate_for_client (ssl : OpenSsl) (store : ServerStore) (server : ServerEnd)
    (message : handshake.ClientHello) : Except Error Obtained := do
  let ci ← client_interface server message
  store.obtain ssl ci

end proxy.tls.x509
