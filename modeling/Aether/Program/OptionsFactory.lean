-- The options of the program, `program/options_factory.cpp`, and what holds of them for every
-- command line that is accepted.
--
-- A default is not checked, only a value that is given. A duration is the number of milliseconds
-- it is made of. `boost::lexical_cast` and the file system are in the environment.
import Aether.Program.CommandLines
import Aether.Util.Text

open util.string proxy

namespace program

inductive SslMethod where
  | sslv23
  | sslv2
  | sslv3
  | tlsv1
  | tlsv11
  | tlsv12
  | tlsv13
  deriving DecidableEq, Repr

def ssl_methods : List (SslMethod × Text) :=
  [(.sslv23, text "SSLv23"), (.sslv2, text "SSLv2"), (.sslv3, text "SSLv3"),
    (.tlsv1, text "TLSv1"), (.tlsv11, text "TLSv1.1"), (.tlsv12, text "TLSv1.2"),
    (.tlsv13, text "TLSv1.3")]

def string_to_ssl_method (str : Text) : Option SslMethod :=
  (ssl_methods.find? fun method => iequals_fn str method.2).map (·.1)

/-- The converter of both options. It is not called with another string. -/
def to_ssl_method (m : Text) : SslMethod := (string_to_ssl_method m).getD .sslv23

/-- `program::options`. -/
structure Options where
  port : UInt16
  help : Bool
  ipv6 : Bool
  thread_pool_size : Int32
  connection_queue_limit : Int32
  connection_service_limit : UInt64
  timeout : UInt64
  tunnel_timeout : UInt64
  body_size_limit : UInt64
  ssl_passthrough : Bool
  ssl_passthrough_strict : Bool
  ssl_client_method : SslMethod
  ssl_server_method : SslMethod
  ssl_verify : Int32
  ssl_negotiate_ciphers : Bool
  ssl_negotiate_alpn : Bool
  ssl_supply_server_chain_to_client : Bool
  ssl_cert_store_properties : Text
  ssl_cert_store_dir : Text
  ssl_dhparam_file : Text
  ssl_verify_upstream_trusted_ca_file_path : Text
  ssl_use_strong_serial_numbers : Bool
  websocket_passthrough : Bool
  websocket_passthrough_strict : Bool
  websocket_intercept_messages_by_default : Bool
  run_interactive : Bool
  run_logs : Bool
  run_silent : Bool
  log_file_name : Text

structure Environment where
  hardware_concurrency : UInt32
  somaxconn : Int32
  path_exists : Text → Bool
  parent_path : Text → Text
  /-- A file can be opened to be written. -/
  opens : Text → Bool
  default_properties_file : Text
  default_dir : Text
  default_dhparam_file : Text
  default_trusted_certificates_file : Text
  cast_port : Text → Option UInt16
  cast_int : Text → Option Int32
  cast_size : Text → Option UInt64
  cast_string : Text → Option Text

namespace OptionsFactory

/-- `validate::resolve_default_value`: the first value that passes, or the last one. -/
def resolve_default_value {α : Type} (validate : α → Bool) : α → List α → α
  | val, [] => val
  | val, val2 :: vals => if validate val then val else resolve_default_value validate val2 vals

/-- A call of `add_option`. -/
abbrev AddOption :=
  OptionsParser Options → Options → Except Failure (OptionsParser Options × Options)

/-- An option whose values are stored as they are. -/
def plain {α : Type} (name : String) (letter : Option UInt8) (destination : α → Options → Options)
    (default_value : Option α) (validate : Option (α → Bool)) : CommandLineOption Options α α :=
  ⟨some (text name), letter, destination, false, default_value, validate, none, some id⟩

variable (env : Environment)

def valued {In Out : Type} (lexical_cast : Text → Option In)
    (option : CommandLineOption Options In Out) : AddOption :=
  fun parser s => parser.add_option lexical_cast option s

def boolean {Out : Type} (option : CommandLineOption Options Bool Out) : AddOption :=
  fun parser s => parser.add_boolean option s

def flag (name : String) (letter : Option UInt8) (destination : Bool → Options → Options)
    (default_value : Bool) : AddOption :=
  boolean (plain name letter destination (some default_value) none)

def timeout (name : String) (destination : UInt64 → Options → Options) (default_value : UInt64) :
    AddOption :=
  valued env.cast_size ⟨some (text name), none, destination, false, some default_value,
    some fun t => t ≠ 0, some id, none⟩

def ssl_method (name : String) (destination : SslMethod → Options → Options) : AddOption :=
  valued env.cast_string ⟨some (text name), none, destination, false, some (text "SSLv23"),
    some fun m => (string_to_ssl_method m).isSome, some to_ssl_method, none⟩

def path (name : String) (destination : Text → Options → Options) (default_value : Text)
    (validate : Text → Bool) : AddOption :=
  valued env.cast_string (plain name none destination (some default_value) (some validate))

/-- The calls of `add_options`. -/
def calls : List AddOption := [
  valued env.cast_port (plain "port" (some 112) (fun v s => { s with port := v }) (some 3000) none),
  flag "help" (some 104) (fun v s => { s with help := v }) false,
  flag "ipv6" (some 54) (fun v s => { s with ipv6 := v }) true,
  valued env.cast_int (plain "threads" none (fun v s => { s with thread_pool_size := v })
    (some (resolve_default_value (fun t => 0 < t) (env.hardware_concurrency * 2).toInt32 [2]))
    (some fun t => 0 < t)),
  valued env.cast_int (plain "connection-limit" none
    (fun v s => { s with connection_queue_limit := v }) (some env.somaxconn)
    (some fun q => 0 < q)),
  valued env.cast_size (plain "connection-service-limit" none
    (fun v s => { s with connection_service_limit := v }) (some 0xFFFFFFFFFFFFFFFF) none),
  timeout env "timeout" (fun v s => { s with timeout := v }) 120000,
  timeout env "tunnel-timeout" (fun v s => { s with tunnel_timeout := v }) 30000,
  valued env.cast_size (plain "body-size-limit" none (fun v s => { s with body_size_limit := v })
    (some 200000000) (some fun l => 4096 < l)),
  flag "ssl-passthrough-strict" none (fun v s => { s with ssl_passthrough_strict := v }) false,
  flag "ssl-passthrough" none (fun v s => { s with ssl_passthrough := v }) false,
  ssl_method env "ssl-client-method" (fun v s => { s with ssl_client_method := v }),
  ssl_method env "ssl-server-method" (fun v s => { s with ssl_server_method := v }),
  boolean ⟨some (text "ssl-verify"), none, fun v s => { s with ssl_verify := v }, false, some true,
    none, some fun verify => if verify then 1 else 0, some fun b => if b then 1 else 0⟩,
  flag "ssl-negotiate-ciphers" none (fun v s => { s with ssl_negotiate_ciphers := v }) false,
  flag "ssl-negotiate-alpn" none (fun v s => { s with ssl_negotiate_alpn := v }) false,
  flag "ssl-supply-server-chain" none
    (fun v s => { s with ssl_supply_server_chain_to_client := v }) false,
  path env "ssl-certificate-properties" (fun v s => { s with ssl_cert_store_properties := v })
    env.default_properties_file env.path_exists,
  path env "ssl-certificate-dir" (fun v s => { s with ssl_cert_store_dir := v }) env.default_dir
    (fun p => env.path_exists p || env.path_exists (env.parent_path p)),
  path env "ssl-dhparam-file" (fun v s => { s with ssl_dhparam_file := v })
    env.default_dhparam_file env.path_exists,
  path env "upstream-trusted-ca-file"
    (fun v s => { s with ssl_verify_upstream_trusted_ca_file_path := v })
    env.default_trusted_certificates_file env.path_exists,
  flag "strong-serial-numbers" none (fun v s => { s with ssl_use_strong_serial_numbers := v })
    false,
  flag "ws-passthrough-strict" none (fun v s => { s with websocket_passthrough_strict := v }) false,
  flag "ws-passthrough" none (fun v s => { s with websocket_passthrough := v }) false,
  flag "ws-intercept-default" none
    (fun v s => { s with websocket_intercept_messages_by_default := v }) false,
  flag "interactive" (some 105) (fun v s => { s with run_interactive := v }) false,
  flag "logs" (some 108) (fun v s => { s with run_logs := v }) false,
  flag "silent" (some 115) (fun v s => { s with run_silent := v }) false,
  valued env.cast_string (plain "log-file" none (fun v s => { s with log_file_name := v }) none
    (some env.opens))]

/-- The calls up to the first that gives an error, and whether one does. -/
def add_all : List AddOption → OptionsParser Options × Options →
    (OptionsParser Options × Options) × Bool
  | [], x => (x, true)
  | add :: adds, x =>
    match add x.1 x.2 with
    | .ok x => add_all adds x
    | .error _ => (x, false)

/-- The memory of the options before a program gives them values. -/
def uninitialized (memory : Options) : Options :=
  { memory with
    timeout := 0
    tunnel_timeout := 0
    ssl_cert_store_properties := []
    ssl_cert_store_dir := []
    ssl_dhparam_file := []
    ssl_verify_upstream_trusted_ca_file_path := []
    log_file_name := [] }

def add_options (memory : Options) : OptionsParser Options × Options :=
  (add_all (calls env) (.new, uninitialized memory)).1

/-- How a call of `parse_cmdline` ends: the program exits, or goes on with the options. -/
inductive Outcome where
  | error (failure : Failure)
  | help
  | options (options : Options)

def parse_cmdline (memory : Options) (argv : List Text) : Outcome :=
  let (parser_, options_) := add_options env memory
  match parser_.parse argv options_ with
  | .error failure => .error failure
  | .ok (_, options_) => if options_.help then .help else .options options_

/-! ## What every option keeps -/

end OptionsFactory

namespace OptionsParser

variable {σ In Out : Type} {P : σ → Prop} {p p' : OptionsParser σ} {s s' : σ}

/-- No option of the parser takes the state out of `P`. -/
def Keeps (P : σ → Prop) (p : OptionsParser σ) : Prop :=
  ∀ (key : Text) (option : StoredOption σ), p.option_map_[key]? = some option →
    ∀ str s s', option.parser str s = some s' → P s → P s'

/-- The values that pass the check of the option keep `P`. -/
def Checks (P : σ → Prop) (option : CommandLineOption σ In Out) : Prop :=
  ∀ value s, option.is_valid value = true → P s → P (option.assign value s)

theorem keeps_new : Keeps P (.new : OptionsParser σ) := by
  intro key option hoption
  simp [OptionsParser.new] at hoption

theorem keeps_store {required : Bool} {name : Option Text} {letter : Option UInt8}
    {is_boolean : Bool} {parser : Text → σ → Option σ} (h : Keeps P p)
    (hparser : ∀ str s s', parser str s = some s' → P s → P s') :
    Keeps P (p.store required name letter is_boolean parser) := by
  intro key option hoption
  simp only [store, Std.TreeMap.getElem?_insertIfNew] at hoption
  split at hoption
  · obtain rfl := Option.some.inj hoption
    exact hparser
  · exact h key option hoption

theorem keeps_add_option {lexical_cast : Text → Option In} {option : CommandLineOption σ In Out}
    (h : Keeps P p) (hchecks : Checks P option)
    (hadd : p.add_option lexical_cast option s = .ok (p', s')) : Keeps P p' := by
  obtain ⟨-, -, hadd⟩ := bind_eq_ok.mp hadd
  obtain ⟨rfl, -⟩ := Prod.mk.inj (Except.ok.inj hadd)
  refine keeps_store h fun str s s' hs hP => ?_
  split at hs
  · obtain ⟨hvalid, hs⟩ := Option.ite_none_right_eq_some.mp hs
    obtain rfl := Option.some.inj hs
    exact hchecks _ s hvalid hP
  · cases hs

theorem keeps_add_boolean {option : CommandLineOption σ Bool Out} (h : Keeps P p)
    (hchecks : Checks P option) (hadd : p.add_boolean option s = .ok (p', s')) : Keeps P p' := by
  obtain ⟨-, -, hadd⟩ := bind_eq_ok.mp hadd
  obtain ⟨rfl, -⟩ := Prod.mk.inj (Except.ok.inj hadd)
  refine keeps_store h fun str s s' hs hP => ?_
  obtain ⟨hvalid, hs⟩ := Option.ite_none_right_eq_some.mp hs
  obtain rfl := Option.some.inj hs
  exact hchecks _ s hvalid hP

theorem keeps_write_all {given : List (StoredOption σ × Text)} (h : Keeps P p)
    (hstored : ∀ pair ∈ given, ∃ key : Text, p.option_map_[key]? = some pair.1)
    (hwritten : write_all given s = some s') (hs : P s) : P s' := by
  induction given generalizing s with
  | nil =>
    obtain rfl := Option.some.inj hwritten
    exact hs
  | cons pair given ih =>
    rw [List.forall_mem_cons] at hstored
    obtain ⟨s₁, hparser, hwritten⟩ := Option.bind_eq_some_iff.mp hwritten
    obtain ⟨key, hkey⟩ := hstored.1
    exact ih hstored.2 hwritten (h key pair.1 hkey pair.2 s s₁ hparser hs)

/-- What all options keep is kept by a command line. -/
theorem keeps_parse {argv : List Text} {i : Nat} (h : Keeps P p)
    (hparse : p.parse argv s = .ok (i, s')) (hs : P s) : P s' := by
  obtain ⟨given, rest, hline, hwritten, -, -⟩ := line_of_parse hparse
  exact keeps_write_all h hline.stored hwritten hs

end OptionsParser

namespace OptionsFactory

open OptionsParser

variable {env : Environment} {P : Options → Prop}

/-- A call that adds an option which keeps `P`. -/
def Adds (P : Options → Prop) (add : AddOption) : Prop :=
  ∀ parser s parser' s', Keeps P parser → add parser s = .ok (parser', s') → Keeps P parser'

theorem adds_valued {In Out : Type} {lexical_cast : Text → Option In}
    {option : CommandLineOption Options In Out} (h : Checks P option) :
    Adds P (valued lexical_cast option) :=
  fun _ _ _ _ hkeeps hadd => keeps_add_option hkeeps h hadd

theorem adds_boolean {Out : Type} {option : CommandLineOption Options Bool Out}
    (h : Checks P option) : Adds P (boolean option) :=
  fun _ _ _ _ hkeeps hadd => keeps_add_boolean hkeeps h hadd

theorem keeps_add_all {adds : List AddOption} {x : OptionsParser Options × Options}
    (hadds : ∀ add ∈ adds, Adds P add) (h : Keeps P x.1) : Keeps P (add_all adds x).1.1 := by
  induction adds generalizing x with
  | nil => exact h
  | cons add adds ih =>
    rw [List.forall_mem_cons] at hadds
    unfold add_all
    split
    · rename_i x' hadd
      exact ih hadds.2 (hadds.1 x.1 x.2 x'.1 x'.2 h hadd)
    · exact h

/-! ## Options that pass their checks -/

/-- What the checks of the options ask, where a default is not checked. -/
structure Valid (env : Environment) (o : Options) : Prop where
  thread_pool_size : 0 < o.thread_pool_size
  connection_queue_limit : 0 < o.connection_queue_limit
  timeout : o.timeout ≠ 0
  tunnel_timeout : o.tunnel_timeout ≠ 0
  body_size_limit : 4096 < o.body_size_limit
  ssl_verify : o.ssl_verify = 0 ∨ o.ssl_verify = 1
  ssl_cert_store_properties : o.ssl_cert_store_properties = env.default_properties_file ∨
    env.path_exists o.ssl_cert_store_properties = true
  ssl_cert_store_dir : o.ssl_cert_store_dir = env.default_dir ∨
    (env.path_exists o.ssl_cert_store_dir ||
      env.path_exists (env.parent_path o.ssl_cert_store_dir)) = true
  ssl_dhparam_file : o.ssl_dhparam_file = env.default_dhparam_file ∨
    env.path_exists o.ssl_dhparam_file = true
  ssl_verify_upstream_trusted_ca_file_path :
    o.ssl_verify_upstream_trusted_ca_file_path = env.default_trusted_certificates_file ∨
      env.path_exists o.ssl_verify_upstream_trusted_ca_file_path = true
  log_file_name : o.log_file_name = [] ∨ env.opens o.log_file_name = true

theorem adds_flag {name : String} {letter : Option UInt8} {destination : Bool → Options → Options}
    {default_value : Bool} (h : ∀ v s, P s → P (destination v s)) :
    Adds P (flag name letter destination default_value) :=
  adds_boolean fun value s _ hs => h value s hs

theorem adds_of_call : ∀ add ∈ calls env, Adds (Valid env) add := by
  simp only [calls, List.forall_mem_cons]
  refine ⟨?port, ?help, ?ipv6, ?threads, ?connection_limit, ?service_limit, ?timeout,
    ?tunnel_timeout, ?body_size_limit, ?passthrough_strict, ?passthrough, ?client_method,
    ?server_method, ?verify, ?ciphers, ?alpn, ?chain, ?properties, ?dir, ?dhparam, ?ca, ?serials,
    ?ws_strict, ?ws, ?ws_intercept, ?interactive, ?logs, ?silent, ?log_file, ?none⟩
  case threads =>
    exact adds_valued fun value s hvalid hs =>
      { hs with thread_pool_size := of_decide_eq_true hvalid }
  case connection_limit =>
    exact adds_valued fun value s hvalid hs =>
      { hs with connection_queue_limit := of_decide_eq_true hvalid }
  case timeout =>
    exact adds_valued fun value s hvalid hs => { hs with timeout := of_decide_eq_true hvalid }
  case tunnel_timeout =>
    exact adds_valued fun value s hvalid hs =>
      { hs with tunnel_timeout := of_decide_eq_true hvalid }
  case body_size_limit =>
    exact adds_valued fun value s hvalid hs =>
      { hs with body_size_limit := of_decide_eq_true hvalid }
  case verify =>
    refine adds_boolean fun value s _ hs => { hs with ssl_verify := ?_ }
    cases value
    · exact Or.inl rfl
    · exact Or.inr rfl
  case properties =>
    exact adds_valued fun value s hvalid hs =>
      { hs with ssl_cert_store_properties := Or.inr hvalid }
  case dir =>
    exact adds_valued fun value s hvalid hs => { hs with ssl_cert_store_dir := Or.inr hvalid }
  case dhparam =>
    exact adds_valued fun value s hvalid hs => { hs with ssl_dhparam_file := Or.inr hvalid }
  case ca =>
    exact adds_valued fun value s hvalid hs =>
      { hs with ssl_verify_upstream_trusted_ca_file_path := Or.inr hvalid }
  case log_file =>
    exact adds_valued fun value s hvalid hs => { hs with log_file_name := Or.inr hvalid }
  case port => exact adds_valued fun value s _ hs => { hs with }
  case service_limit => exact adds_valued fun value s _ hs => { hs with }
  case client_method => exact adds_valued fun value s _ hs => { hs with }
  case server_method => exact adds_valued fun value s _ hs => { hs with }
  case none => nofun
  all_goals exact adds_flag fun _ _ hs => { hs with }

/-- The options that the calls of `add_options` leave, whatever was in the memory. -/
def defaults (env : Environment) : Options where
  port := 3000
  help := false
  ipv6 := true
  thread_pool_size :=
    resolve_default_value (fun t => 0 < t) (env.hardware_concurrency * 2).toInt32 [2]
  connection_queue_limit := env.somaxconn
  connection_service_limit := 0xFFFFFFFFFFFFFFFF
  timeout := 120000
  tunnel_timeout := 30000
  body_size_limit := 200000000
  ssl_passthrough := false
  ssl_passthrough_strict := false
  ssl_client_method := .sslv23
  ssl_server_method := .sslv23
  ssl_verify := 1
  ssl_negotiate_ciphers := false
  ssl_negotiate_alpn := false
  ssl_supply_server_chain_to_client := false
  ssl_cert_store_properties := env.default_properties_file
  ssl_cert_store_dir := env.default_dir
  ssl_dhparam_file := env.default_dhparam_file
  ssl_verify_upstream_trusted_ca_file_path := env.default_trusted_certificates_file
  ssl_use_strong_serial_numbers := false
  websocket_passthrough := false
  websocket_passthrough_strict := false
  websocket_intercept_messages_by_default := false
  run_interactive := false
  run_logs := false
  run_silent := false
  log_file_name := []

theorem add_options_state (memory : Options) : (add_options env memory).2 = defaults env := by
  have hmethod : to_ssl_method (text "SSLv23") = .sslv23 := by decide +kernel
  have hstate : (add_options env memory).2 =
      { defaults env with
        ssl_client_method := to_ssl_method (text "SSLv23")
        ssl_server_method := to_ssl_method (text "SSLv23") } := rfl
  rw [hstate, hmethod]
  rfl

theorem defaults_valid (hsomaxconn : 0 < env.somaxconn) : Valid env (defaults env) where
  thread_pool_size := by
    show 0 < resolve_default_value (fun t : Int32 => decide (0 < t)) _ [2]
    unfold resolve_default_value
    split
    · rename_i hpositive
      exact of_decide_eq_true hpositive
    · decide
  connection_queue_limit := hsomaxconn
  timeout := show (120000 : UInt64) ≠ 0 by decide
  tunnel_timeout := show (30000 : UInt64) ≠ 0 by decide
  body_size_limit := show (4096 : UInt64) < 200000000 by decide
  ssl_verify := Or.inr rfl
  ssl_cert_store_properties := Or.inl rfl
  ssl_cert_store_dir := Or.inl rfl
  ssl_dhparam_file := Or.inl rfl
  ssl_verify_upstream_trusted_ca_file_path := Or.inl rfl
  log_file_name := Or.inl rfl

/-- Whatever a command line says, the program goes on only with options that pass their checks, and
nothing of them is left from the memory that they are in. -/
theorem parsed_options_are_valid (env : Environment) (hsomaxconn : 0 < env.somaxconn)
    (memory : Options) (argv : List Text) (options : Options)
    (h : parse_cmdline env memory argv = .options options) :
    Valid env options ∧ options.help = false ∧
      ∀ memory', parse_cmdline env memory' argv = .options options := by
  have hsame (memory' : Options) : add_options env memory' = add_options env memory :=
    Prod.ext rfl ((add_options_state memory').trans (add_options_state memory).symm)
  have hkeeps : Keeps (Valid env) (add_options env memory).1 :=
    keeps_add_all adds_of_call keeps_new
  have hinitial : Valid env (add_options env memory).2 := by
    rw [add_options_state]
    exact defaults_valid hsomaxconn
  have hagain (memory' : Options) : parse_cmdline env memory' argv = .options options := by
    rw [← h, parse_cmdline, parse_cmdline, hsame memory']
  unfold parse_cmdline at h
  simp only at h
  split at h
  · cases h
  · rename_i i options' hparse
    split at h
    · cases h
    · rename_i hhelp
      obtain rfl := Outcome.options.inj h
      exact ⟨keeps_parse hkeeps hparse hinitial, Bool.eq_false_iff.mpr hhelp, hagain⟩

/-- Two processors, and a file system where no file can be written. -/
def small : Environment :=
  ⟨2, 128, fun _ => true, id, fun _ => false, [], [], [], [], fun _ => none,
    fun str => (digits str).map .ofNat, fun str => (digits str).map .ofNat, some⟩

def Outcome.goes_on : Outcome → Bool
  | .options _ => true
  | _ => false

theorem seven_threads_are_valid : ∃ options, parse_cmdline small (defaults small)
      [text "aether", text "--threads=7", text "-l"] = .options options ∧
    Valid small options ∧ options.help = false ∧
      ∀ memory', parse_cmdline small memory'
        [text "aether", text "--threads=7", text "-l"] = .options options := by
  have hgoes : (parse_cmdline small (defaults small)
      [text "aether", text "--threads=7", text "-l"]).goes_on = true := by decide +kernel
  cases h : parse_cmdline small (defaults small)
      [text "aether", text "--threads=7", text "-l"] with
  | options options =>
    exact ⟨options, rfl, parsed_options_are_valid small (by decide) _ _ options h⟩
  | error failure =>
    rw [h] at hgoes
    cases hgoes
  | help =>
    rw [h] at hgoes
    cases hgoes

end OptionsFactory

end program
