-- Which requests and responses are handshakes, against what a handshake is.
import Aether.Http.HttpService
import Aether.Util.Trimming

open util.string

namespace proxy.websocket.handshake

def comma : UInt8 := 44

section

variable (msg : http.Message)

/-! ## What a handshake is -/

/-- A field of the name. -/
def FieldOf (name : Text) (f : http.Header) : Prop :=
  f ∈ msg.headers_.fields ∧ iequals_fn f.1 name = true

/-- A field of the name has the token in its list, whatever its case and the spaces and tabs around
it. -/
def Lists (name token : Text) : Prop :=
  ∃ f, FieldOf msg name f ∧ ∃ entry ∈ f.2.splitOn comma, iequals_fn (trim entry) token = true

def Present (name : Text) : Prop := ∃ f, FieldOf msg name f

def AllNonempty (name : Text) : Prop := ∀ f, FieldOf msg name f → f.2 ≠ []

/-- The fields that a request and a response have in common. -/
def Upgrades : Prop :=
  Lists msg (text "Connection") (text "upgrade") ∧ Lists msg (text "Upgrade") (text "websocket")

def Version13 : Prop := ∃ f, FieldOf msg (text "Sec-WebSocket-Version") f ∧ f.2 = text "13"

def RequestHandshake : Prop :=
  Upgrades msg ∧ Version13 msg ∧ Present msg (text "Sec-WebSocket-Key") ∧
    AllNonempty msg (text "Sec-WebSocket-Key")

def ResponseHandshake : Prop :=
  Upgrades msg ∧ ∃ f, FieldOf msg (text "Sec-WebSocket-Accept") f ∧ f.2 ≠ []

/-! ## What the code asks for -/

theorem mem_equal_range {name : Text} {f : http.Header} :
    f ∈ msg.headers_.equal_range name ↔ FieldOf msg name f := List.mem_filter

/-- The tokens of a value that is no white space are looked for in all entries. -/
theorem any_split_trim_iff {value token : Text} (htoken : token ≠ []) :
    (split_trim value comma).any (fun str => iequals_fn str token) = true ↔
      ∃ entry ∈ value.splitOn comma, iequals_fn (trim entry) token = true := by
  rw [List.any_eq_true]
  constructor
  · rintro ⟨str, hstr, hequal⟩
    obtain ⟨entry, hentry, hsome⟩ := List.mem_filterMap.mp hstr
    split at hsome
    · cases hsome
    · obtain rfl := Option.some.inj hsome
      exact ⟨entry, hentry, hequal⟩
  · rintro ⟨entry, hentry, hequal⟩
    have hblank : ¬ entry.all whitespace = true := by
      intro hall
      rw [trim_of_blank hall] at hequal
      have hlength := congrArg List.length (beq_iff_eq.mp hequal)
      simp [lowercase] at hlength
      exact htoken (List.length_eq_zero_iff.mp hlength.symm)
    exact ⟨trim entry, List.mem_filterMap.mpr ⟨entry, hentry, if_neg hblank⟩, hequal⟩

theorem header_has_token_iff (name : Text) {token : Text} (htoken : token ≠ []) :
    msg.header_has_token name token true = true ↔ Lists msg name token := by
  unfold http.Message.header_has_token Lists
  rw [List.any_eq_true]
  simp only [if_true, mem_equal_range]
  exact exists_congr (fun f => and_congr_right (fun _ => any_split_trim_iff htoken))

theorem header_is_nonempty_iff (name : Text) :
    msg.header_is_nonempty name = true ↔ AllNonempty msg name := by
  unfold http.Message.header_is_nonempty AllNonempty
  rw [List.all_eq_true]
  simp only [mem_equal_range, bne_iff_ne]

theorem header_has_value_iff (name value : Text) :
    msg.header_has_value name value false = true ↔ ∃ f, FieldOf msg name f ∧ f.2 = value := by
  unfold http.Message.header_has_value
  rw [List.any_eq_true]
  simp only [mem_equal_range, Bool.false_eq_true, if_false, beq_iff_eq]

theorem is_upgrade_iff : is_upgrade msg = true ↔ Upgrades msg := by
  have hlower : lowercase (text "Upgrade") = lowercase (text "upgrade") := by decide
  have hcase (value : Text) :
      iequals_fn value (text "Upgrade") = iequals_fn value (text "upgrade") := by
    rw [iequals_fn, iequals_fn, hlower]
  have hlists : Lists msg (text "Connection") (text "Upgrade") ↔
      Lists msg (text "Connection") (text "upgrade") := by
    simp only [Lists, hcase]
  rw [is_upgrade, Bool.and_eq_true, header_has_token_iff msg _ (by decide),
    header_has_token_iff msg _ (by decide), hlists]
  rfl

/-! ## When it is one -/

variable {msg}

/-- A header that is not there has no empty value. -/
theorem allNonempty_of_absent {name : Text} (h : ¬ Present msg name) : AllNonempty msg name :=
  fun f hf => absurd ⟨f, hf⟩ h

end

theorem is_request_handshake_iff (req : http.Request) : is_request_handshake req = true ↔
    Upgrades req.toMessage ∧ Version13 req.toMessage ∧
      AllNonempty req.toMessage (text "Sec-WebSocket-Key") := by
  rw [is_request_handshake, Bool.and_eq_true, Bool.and_eq_true, is_upgrade_iff,
    header_has_value_iff, header_is_nonempty_iff, and_assoc]
  rfl

theorem is_response_handshake_iff (res : http.Response) : is_response_handshake res = true ↔
    Upgrades res.toMessage ∧ AllNonempty res.toMessage (text "Sec-WebSocket-Accept") := by
  rw [is_response_handshake, Bool.and_eq_true, is_upgrade_iff, header_is_nonempty_iff]

/-- Unless the rest is no handshake, a key is there. -/
def KeyPresent (req : http.Request) : Prop :=
  Upgrades req.toMessage → Version13 req.toMessage →
    Present req.toMessage (text "Sec-WebSocket-Key")

/-- Unless the rest is no handshake, a value to accept with is there, and there are not both an
empty and another one. -/
def AcceptPresent (res : http.Response) : Prop :=
  Upgrades res.toMessage → Present res.toMessage (text "Sec-WebSocket-Accept") ∧
    (AllNonempty res.toMessage (text "Sec-WebSocket-Accept") ∨
      ∀ f, FieldOf res.toMessage (text "Sec-WebSocket-Accept") f → f.2 = [])

theorem request_sound_iff (req : http.Request) :
    (is_request_handshake req = true ↔ RequestHandshake req.toMessage) ↔ KeyPresent req := by
  rw [is_request_handshake_iff]
  constructor
  · intro h hupgrades hversion
    by_contra habsent
    obtain ⟨-, -, hpresent, -⟩ := h.mp ⟨hupgrades, hversion, allNonempty_of_absent habsent⟩
    exact habsent hpresent
  · intro h
    constructor
    · rintro ⟨hupgrades, hversion, hall⟩
      exact ⟨hupgrades, hversion, h hupgrades hversion, hall⟩
    · rintro ⟨hupgrades, hversion, -, hall⟩
      exact ⟨hupgrades, hversion, hall⟩

theorem response_sound_iff (res : http.Response) :
    (is_response_handshake res = true ↔ ResponseHandshake res.toMessage) ↔ AcceptPresent res := by
  rw [is_response_handshake_iff]
  constructor
  · intro h hupgrades
    by_cases hall : AllNonempty res.toMessage (text "Sec-WebSocket-Accept")
    · obtain ⟨-, f, hf, -⟩ := h.mp ⟨hupgrades, hall⟩
      exact ⟨⟨f, hf⟩, Or.inl hall⟩
    · have hempty : ∀ f, FieldOf res.toMessage (text "Sec-WebSocket-Accept") f → f.2 = [] := by
        intro f hf
        by_contra hne
        exact hall (h.mpr ⟨hupgrades, f, hf, hne⟩).2
      refine ⟨?_, Or.inr hempty⟩
      by_contra habsent
      exact hall (allNonempty_of_absent habsent)
  · intro h
    constructor
    · rintro ⟨hupgrades, hall⟩
      obtain ⟨⟨f, hf⟩, -⟩ := h hupgrades
      exact ⟨hupgrades, f, hf, hall f hf⟩
    · rintro ⟨hupgrades, f, hf, hne⟩
      rcases (h hupgrades).2 with hall | hempty
      · exact ⟨hupgrades, hall⟩
      · exact absurd (hempty f hf) hne

/-- A request and a response are taken for handshakes when they are exactly if their keys are there
where the rest is one. -/
theorem handshakes_are_sound_iff (req : http.Request) (res : http.Response) :
    ((is_request_handshake req = true ↔ RequestHandshake req.toMessage) ↔ KeyPresent req) ∧
      ((is_response_handshake res = true ↔ ResponseHandshake res.toMessage) ↔
        AcceptPresent res) :=
  ⟨request_sound_iff req, response_sound_iff res⟩

/-- A response without a value to accept with. -/
def an_unaccepted_upgrade : http.Response :=
  ⟨(http.Message.new.add_header (text "Connection") (text "Upgrade")).add_header (text "Upgrade")
    (text "websocket"), .switching_protocols⟩

theorem an_unaccepted_upgrade_is_taken : is_response_handshake an_unaccepted_upgrade = true ∧
    ¬ ResponseHandshake an_unaccepted_upgrade.toMessage := by
  refine ⟨by decide, ?_⟩
  rintro ⟨-, f, hf, -⟩
  have hmem := (mem_equal_range _).mpr hf
  have hnone : an_unaccepted_upgrade.headers_.equal_range (text "Sec-WebSocket-Accept") = [] := by
    decide
  rw [hnone] at hmem
  cases hmem

end proxy.websocket.handshake
