-- What `http_service::validate_target` makes of the target of a request, and what
-- the `Host` fields of the forwarded request name.
import Aether.Http.Framing
import Aether.Http.HostParsing

open util.string lib.rfc7230

namespace proxy.http.http1

namespace HttpService

/-- The first part of `validate_target`: the netloc of the target. -/
def locate_target (req : Request) : Except Error Request := do
  let target := req.target_
  -- This form is when the client knows it is talking to a proxy.
  if target.form = .absolute then
    let msg :=
      if req.has_header (text "Host") then req.toMessage
      else req.set_header_to_value (text "Host") target.netloc.to_host_string
    return { req with toMessage := msg, target_ := { target with form := .origin } }
  else if target.form = .origin ∧ !target.netloc.has_hostname then
    if !req.has_header (text "Host") then
      .error (proxy_error .invalid_target_host "No host given.")
    else
      let netloc ← Url.parse_netloc (← req.get_header (text "Host"))
      return { req with target_ := { target with netloc := netloc } }
  else return req

/-- The scheme of a target without one, by the connection to the server. -/
def default_scheme (secured : Bool) : Text := if secured then text "https" else text "http"

def default_port (secured : Bool) (scheme : Text) : UInt16 :=
  if scheme = text "https" ∨ secured then 443 else 80

def set_default_scheme (secured : Bool) (target : Url) : Url :=
  if target.form ≠ .authority ∧ target.scheme = [] then
    { target with scheme := default_scheme secured }
  else target

def set_default_port (secured : Bool) (target : Url) : Url :=
  if target.netloc.has_port then target
  else { target with
    netloc := { target.netloc with port := some (default_port secured target.scheme) } }

/-- The second part of `validate_target`: the scheme and the port. -/
def complete_target (secured : Bool) (target : Url) : Url :=
  set_default_port secured (set_default_scheme secured target)

def validate_target (secured : Bool) (req : Request) : Except Error Request := do
  let req ← locate_target req
  return { req with target_ := complete_target secured req.target_ }

/-! ## The `Host` fields -/

def hosts (msg : Message) : List Text := msg.get_all_of_header (text "Host")

/-- The scheme that the target gets. -/
def scheme (secured : Bool) (target : Url) : Text :=
  if target.scheme = [] then default_scheme secured else target.scheme

/-- The port of a netloc in a request. -/
def port (secured : Bool) (target : Url) (p : Option UInt16) : Nat :=
  (p.getD (default_port secured (scheme secured target))).toNat

/-- The default port of the scheme is the one that the code takes. -/
def SamePort (ports : Text → Option Nat) (secured : Bool) (target : Url) : Prop :=
  ports (scheme secured target) = some (port secured target none)

/-- When the `Host` fields of a request agree with its target, where `ports` has the default ports
of the schemes. The fields name the host of a target that has one. A field that is added for it has
a host that is plain. The first field of a request whose target has none is one that `parse_netloc`
reads, and the others name the same. -/
structure HostsAgree (ports : Text → Option Nat) (secured : Bool) (req : Request) : Prop where
  given : req.target_.form = .absolute ∨ req.target_.netloc.has_hostname →
    ∀ v ∈ hosts req.toMessage, Names (ports (scheme secured req.target_)) v req.target_.netloc.host
      (port secured req.target_ req.target_.netloc.port)
  added : req.target_.form = .absolute → hosts req.toMessage = [] →
    PlainHost req.target_.netloc.host ∧
      (req.target_.netloc.port = none → SamePort ports secured req.target_)
  first : req.target_.form = .origin → req.target_.netloc.has_hostname = false →
    ∀ v, (hosts req.toMessage).head? = some v →
      Url.Located v ∧ ((hostField v).bind Prod.snd = none → SamePort ports secured req.target_)
  others : req.target_.form = .origin → req.target_.netloc.has_hostname = false →
    ∀ v, (hosts req.toMessage).head? = some v → ∀ h p, hostField v = some (h, p) →
      ∀ w ∈ (hosts req.toMessage).tail, Names (ports (scheme secured req.target_)) w h
        (p.getD (port secured req.target_ none))

/-- The field that is added is the only one. -/
theorem hosts_of_added {msg : Message} (h : hosts msg = []) (value v : Text) :
    v ∈ hosts (msg.set_header_to_value (text "Host") value) ↔ v = value := by
  have hnone : ∀ f ∈ msg.headers_.fields, iequals_fn f.1 (text "Host") = false := by
    intro f hf
    have hrange := List.map_eq_nil_iff.mp h
    simpa using List.filter_eq_nil_iff.mp hrange f hf
  unfold Message.set_header_to_value Message.add_header Message.remove_header hosts
    Message.get_all_of_header Headers.equal_range Headers.emplace Headers.erase
  simp only [List.mem_map, List.mem_filter, mem_emplace]
  constructor
  · rintro ⟨f, ⟨rfl | hmem, hname⟩, rfl⟩
    · rfl
    · rw [hnone f (List.mem_of_mem_eraseP hmem)] at hname
      cases hname
  · intro hv
    exact ⟨(text "Host", value), ⟨.inl rfl, beq_self_eq_true _⟩, hv.symm⟩

section

variable {ports : Text → Option Nat} {secured : Bool} {req req' : Request}

theorem set_default_scheme_eq {target : Url} (h : target.form ≠ .authority) :
    set_default_scheme secured target = { target with scheme := scheme secured target } := by
  unfold set_default_scheme scheme
  by_cases hempty : target.scheme = []
  · rw [if_pos ⟨h, hempty⟩, if_pos hempty]
  · rw [if_neg (fun hand => hempty hand.2), if_neg hempty]

theorem set_default_port_eq (target : Url) :
    set_default_port secured target = { target with
      netloc := { target.netloc with
        port := some (target.netloc.port.getD (default_port secured target.scheme)) } } := by
  obtain ⟨form, scheme, ⟨username, password, host, port⟩, path, search⟩ := target
  cases port <;> rfl

theorem complete_target_eq {target : Url} (h : target.form ≠ .authority) :
    complete_target secured target = { target with
      scheme := scheme secured target
      netloc := { target.netloc with
        port := some (target.netloc.port.getD
          (default_port secured (scheme secured target))) } } := by
  unfold complete_target
  rw [set_default_scheme_eq h, set_default_port_eq]

/-- A field names its own host and port, up to the default of the scheme. -/
theorem names_self_iff {default : Option Nat} {v h : Text} {p : Option UInt16} (d : UInt16)
    (hfield : hostField v = some (h, p.map UInt16.toNat)) :
    Names default v h (p.getD d).toNat ↔ (p = none → default = some d.toNat) := by
  unfold Names
  rw [hfield]
  cases p with
  | none =>
    constructor
    · rintro ⟨_, _, heq, -, hport⟩ -
      obtain ⟨rfl, rfl⟩ := Prod.mk.inj (Option.some.inj heq)
      exact hport
    · intro hdefault
      exact ⟨h, none, rfl, rfl, hdefault rfl⟩
  | some p =>
    constructor
    · intro _ hnone
      cases hnone
    · intro _
      exact ⟨h, some p.toNat, rfl, rfl, rfl⟩

theorem hostField_to_host_string {netloc : NetworkLocation} (h : PlainHost netloc.host) :
    hostField netloc.to_host_string = some (netloc.host, netloc.port.map UInt16.toNat) := by
  refine hostField_iff.mpr ⟨_, rfl, h, ?_⟩
  cases netloc.port with
  | none => rfl
  | some p => exact cutPort_eq_some_iff.mpr ⟨decimal p.toNat, rfl, digits_decimal p.toNat⟩

/-- The field that is added names the target if its host is plain. -/
theorem names_added_iff {default : Option Nat} {netloc : NetworkLocation} (d : UInt16) :
    Names default netloc.to_host_string netloc.host (netloc.port.getD d).toNat ↔
      PlainHost netloc.host ∧ (netloc.port = none → default = some d.toNat) := by
  constructor
  · intro hnames
    have hplain : PlainHost netloc.host := by
      obtain ⟨h, p, hfield, hsame, -⟩ := hnames
      obtain ⟨r, hv, hplain, -⟩ := hostField_iff.mp hfield
      obtain ⟨rfl, -⟩ := List.append_inj hv hsame.length.symm
      exact hplain
    exact ⟨hplain, (names_self_iff d (hostField_to_host_string hplain)).mp hnames⟩
  · rintro ⟨hplain, hport⟩
    exact (names_self_iff d (hostField_to_host_string hplain)).mpr hport

/-- The field that the target is taken from names it if it is read as it stands there. -/
theorem names_taken_iff {default : Option Nat} {v : Text} {n : NetworkLocation} (d : UInt16)
    (found : Url.parse_netloc v = .ok n) :
    Names default v n.host (n.port.getD d).toNat ↔
      Url.Located v ∧ ((hostField v).bind Prod.snd = none → default = some d.toNat) := by
  constructor
  · intro hnames
    have hlocated : Url.Located v := by
      obtain ⟨h, p, hfield, hsame, -⟩ := hnames
      exact Url.located_of_same found hfield hsame
    have hreads := hlocated.reads found
    refine ⟨hlocated, fun hnone => (names_self_iff d hreads).mp hnames ?_⟩
    rw [hreads] at hnone
    exact Option.map_eq_none_iff.mp hnone
  · rintro ⟨hlocated, hport⟩
    have hreads := hlocated.reads found
    refine (names_self_iff d hreads).mpr (fun hnone => hport ?_)
    rw [hreads, hnone]
    rfl

/-- The host and the port that are read are those that the other fields are compared with. -/
theorem names_other_iff {default : Option Nat} {v w : Text} {n : NetworkLocation} (d : UInt16)
    (found : Url.parse_netloc v = .ok n) (hlocated : Url.Located v) :
    Names default w n.host (n.port.getD d).toNat ↔
      ∀ h p, hostField v = some (h, p) → Names default w h (p.getD d.toNat) := by
  have hport : (n.port.map UInt16.toNat).getD d.toNat = (n.port.getD d).toNat := by
    cases n.port <;> rfl
  rw [hlocated.reads found, ← hport]
  constructor
  · intro hnames h p heq
    obtain ⟨rfl, rfl⟩ := Prod.mk.inj (Option.some.inj heq)
    exact hnames
  · intro hall
    exact hall _ _ rfl

/-- What `locate_target` does to a request in absolute or origin form. -/
inductive Locates (req : Request) : Request → Prop where
  | given (absolute : req.target_.form = .absolute) (some_ : hosts req.toMessage ≠ []) :
    Locates req { req with target_ := { req.target_ with form := .origin } }
  | added (absolute : req.target_.form = .absolute) (none_ : hosts req.toMessage = []) :
    Locates req { req with
      toMessage :=
        req.set_header_to_value (text "Host") req.target_.netloc.to_host_string
      target_ := { req.target_ with form := .origin } }
  | own (origin : req.target_.form = .origin) (has : req.target_.netloc.has_hostname = true) :
    Locates req req
  | taken (origin : req.target_.form = .origin) (without : req.target_.netloc.has_hostname = false)
    {v : Text} {n : NetworkLocation} (first : (hosts req.toMessage).head? = some v)
    (found : Url.parse_netloc v = .ok n) :
    Locates req { req with target_ := { req.target_ with netloc := n } }

theorem Locates.of_ok (hform : req.target_.form = .absolute ∨ req.target_.form = .origin)
    (h : locate_target req = .ok req') : Locates req req' := by
  have hhost := req.toMessage.has_header_iff (text "Host")
  unfold locate_target at h
  rcases hform with habsolute | horigin
  · simp only [habsolute, if_true] at h
    obtain rfl := Except.ok.inj h
    by_cases hsome : hosts req.toMessage ≠ []
    · rw [if_pos (hhost.mpr hsome)]
      exact .given habsolute hsome
    · rw [if_neg (fun hhas => hsome (hhost.mp hhas))]
      exact .added habsolute (not_not.mp hsome)
  · have hnot : req.target_.form ≠ .absolute := by
      rw [horigin]
      decide
    simp only [if_neg hnot] at h
    by_cases hname : req.target_.netloc.has_hostname = true
    · rw [if_neg (by simp [hname])] at h
      obtain rfl := Except.ok.inj h
      exact .own horigin hname
    · rw [if_pos ⟨horigin, by simpa using hname⟩] at h
      split at h
      · cases h
      · obtain ⟨v, hv, h⟩ := bind_eq_ok.mp h
        obtain ⟨n, hn, h⟩ := bind_eq_ok.mp h
        obtain rfl := Except.ok.inj h
        exact .taken horigin (by simpa using hname) (Message.get_header_ok hv) hn

/-- A request in absolute or origin form that is forwarded has `Host` fields that all name the host
and the port of its target, exactly if its fields agree with its target. -/
theorem every_host_names_the_target_iff
    (hform : req.target_.form = .absolute ∨ req.target_.form = .origin)
    (h : validate_target secured req = .ok req') :
    (∀ v ∈ hosts req'.toMessage,
      Names (ports req'.target_.scheme) v req'.host_name req'.host_port.toNat) ↔
      HostsAgree ports secured req := by
  obtain ⟨located, hlocated, h⟩ := bind_eq_ok.mp h
  obtain rfl := Except.ok.inj h
  have hnames := Locates.of_ok hform hlocated
  cases hnames with
  | given absolute some_ =>
    rw [complete_target_eq (by simp)]
    have hnot : req.target_.form ≠ .origin := by
      rw [absolute]
      decide
    constructor
    · intro hall
      exact ⟨fun _ => hall, fun _ hnil => absurd hnil some_, fun horigin => absurd horigin hnot,
        fun horigin => absurd horigin hnot⟩
    · exact fun hagree => hagree.given (.inl absolute)
  | added absolute none_ =>
    rw [complete_target_eq (by simp)]
    have hnot : req.target_.form ≠ .origin := by
      rw [absolute]
      decide
    have hadded := hosts_of_added none_ req.target_.netloc.to_host_string
    constructor
    · intro hall
      have hself := hall _ ((hadded _).mpr rfl)
      refine ⟨?_, fun _ _ => (names_added_iff _).mp hself, fun horigin => absurd horigin hnot,
        fun horigin => absurd horigin hnot⟩
      intro _ v hv
      rw [none_] at hv
      cases hv
    · intro hagree v hv
      obtain rfl := (hadded v).mp hv
      exact (names_added_iff _).mpr (hagree.added absolute none_)
  | own origin has =>
    have hnot : req.target_.form ≠ .absolute := by
      rw [origin]
      decide
    rw [complete_target_eq (by rw [origin]; decide)]
    constructor
    · intro hall
      refine ⟨fun _ => hall, fun habsolute => absurd habsolute hnot, ?_, ?_⟩
      · intro _ hwithout
        rw [has] at hwithout
        cases hwithout
      · intro _ hwithout
        rw [has] at hwithout
        cases hwithout
    · exact fun hagree => hagree.given (.inr has)
  | @taken origin without v n first found =>
    have hnot : req.target_.form ≠ .absolute := by
      rw [origin]
      decide
    rw [complete_target_eq (by simp [origin])]
    obtain ⟨rest, hhosts⟩ := List.head?_eq_some_iff.mp first
    constructor
    · intro hall
      obtain ⟨hlocated, hport⟩ := (names_taken_iff _ found).mp (hall v (List.mem_of_head? first))
      refine ⟨?_, fun habsolute => absurd habsolute hnot, ?_, ?_⟩
      · rintro (habsolute | hhas)
        · exact absurd habsolute hnot
        · rw [without] at hhas
          cases hhas
      · intro _ _ w hw
        obtain rfl := Option.some.inj (first.symm.trans hw)
        exact ⟨hlocated, hport⟩
      · intro _ _ w hw h p hfield x hx
        obtain rfl := Option.some.inj (first.symm.trans hw)
        exact (names_other_iff _ found hlocated).mp (hall x (List.mem_of_mem_tail hx)) h p hfield
    · intro hagree x hx
      obtain ⟨hlocated, hport⟩ := hagree.first origin without v first
      rw [hhosts] at hx
      rcases List.mem_cons.mp hx with rfl | hx
      · exact (names_taken_iff _ found).mpr ⟨hlocated, hport⟩
      · refine (names_other_iff _ found hlocated).mpr (fun h p hfield => ?_)
        exact hagree.others origin without v first h p hfield x (by rw [hhosts]; exact hx)

end

/-- A head in absolute form, with a field for the same host. -/
def an_absolute_head : Text := text "GET http://a/ HTTP/1.1\r\nHost: A:80\r\n\r\n"

/-- A head in absolute form, with a field for another host. -/
def a_head_for_two_hosts : Text := text "GET http://a/ HTTP/1.1\r\nHost: b\r\n\r\n"

theorem every_host_of_an_absolute_head :
    ∃ p req, (HttpParser.new 4097 .new).read_head an_absolute_head = .ok p ∧
      validate_target false p.exchange_.req_ = .ok req ∧
      ((∀ v ∈ hosts req.toMessage,
        Names (defaultPort req.target_.scheme) v req.host_name req.host_port.toNat) ↔
        HostsAgree defaultPort false p.exchange_.req_) := by
  refine ⟨_, _, rfl, rfl, ?_⟩
  exact every_host_names_the_target_iff (.inl rfl) rfl

/-- The field is forwarded to another host. -/
theorem a_host_of_another_target :
    ∃ p req v, (HttpParser.new 4097 .new).read_head a_head_for_two_hosts = .ok p ∧
      validate_target false p.exchange_.req_ = .ok req ∧ v ∈ hosts req.toMessage ∧
      ∀ ports : Text → Option Nat,
        ¬ Names (ports req.target_.scheme) v req.host_name req.host_port.toNat := by
  refine ⟨_, _, text "b", rfl, rfl, by decide, ?_⟩
  rintro ports ⟨h, p, hfield, hsame, -⟩
  have hb : hostField (text "b") = some (text "b", none) := rfl
  obtain ⟨rfl, rfl⟩ := Prod.mk.inj (Option.some.inj (hb.symm.trans hfield))
  exact absurd hsame (by decide)

end HttpService

end proxy.http.http1
