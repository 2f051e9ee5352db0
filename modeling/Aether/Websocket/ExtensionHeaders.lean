-- The extensions in the headers of a handshake, `handshake/extension_data.cpp` and
-- `get_extensions` of `handshake/handshake.cpp`, and that those that are written
-- are read.
import Aether.Http.Message
import Aether.Http.TextPositions
import Aether.Util.SplitTrim
import Aether.Util.TextOrder

open util.string lib.ordered_map lib.positions

namespace proxy.websocket.handshake

/-! ## The data of an extension -/

@[ext] structure ExtensionData where
  name_ : Text
  params_ : OrderedMap less Text
  deriving DecidableEq, Repr

namespace ExtensionData

def extension_delim : UInt8 := 44

def param_delim : UInt8 := 59

def assign_delim : UInt8 := 61

def new (name : Text) : ExtensionData := ⟨name, .empty⟩

def has_param (ext : ExtensionData) (name : Text) : Bool := (ext.params_.find name).isSome

def get_param (ext : ExtensionData) (name : Text) : Except Error Text :=
  match ext.params_.find name with
  | none =>
    .error (proxy_error .extension_param_not_found
      ("Extension parameter \"" ++ display name ++ "\" was not found"))
  | some value => .ok value

def set_param (ext : ExtensionData) (name value : Text) : ExtensionData :=
  { ext with params_ := ext.params_.insert_or_assign name value }

/-- A turn of the loop of `from_header_value`. -/
def read_param (ext : ExtensionData) (curr : Text) : ExtensionData :=
  match http.find curr assign_delim 0 with
  | none => ext.set_param curr []
  | some assign_pos => ext.set_param (curr.take assign_pos) (curr.drop (assign_pos + 1))

def from_header_value (header : Text) : Except Error ExtensionData :=
  match http.find header extension_delim 0 with
  | some _ =>
    .error (proxy_error .invalid_extension_string "Multiple extensions present in single string")
  | none =>
    match split_trim_from header param_delim 0 [] with
    | [] => .error (proxy_error .invalid_extension_string "No extension name found")
    | name :: params => .ok (params.foldl read_param (new name))

/-- A parameter as `operator<<` writes it. -/
def print_param (param : Text × Text) : Text := param.1 ++ assign_delim :: param.2

/-- `operator<<`. -/
def print (ext : ExtensionData) : Text :=
  ext.name_ ++ ext.params_.entries.flatMap (fun param => param_delim :: 32 :: print_param param)

/-- `operator<<` of a list. -/
def print_list : List ExtensionData → Text
  | [] => []
  | ext :: ext_list =>
    ext.print ++ ext_list.flatMap (fun ext => extension_delim :: 32 :: ext.print)

end ExtensionData

open ExtensionData

/-! ## The headers -/

/-- The extensions that were read, and the strings that were not, with the errors that are written
to the console. -/
structure Extensions where
  read : List ExtensionData
  unrecognized : List (Text × Error)

namespace Extensions

def read_string (extensions : Extensions) (ext_string : Text) : Extensions :=
  match from_header_value ext_string with
  | .ok ext => { extensions with read := extensions.read ++ [ext] }
  | .error err =>
    { extensions with unrecognized := extensions.unrecognized ++ [(ext_string, err)] }

def read_header (extensions : Extensions) (extension_list : Text) : Extensions :=
  (split_trim_from extension_list extension_delim 0 []).foldl read_string extensions

end Extensions

def get_extensions (msg : http.Message) : Extensions :=
  (msg.get_all_of_header (text "Sec-WebSocket-Extensions")).foldl Extensions.read_header ⟨[], []⟩

/-! ## Written extensions -/

/-- The characters that separate something. -/
def delims : Text := [extension_delim, param_delim, assign_delim, 32, 9]

/-- A name has a character, and none that separates anything. -/
def IsName (name : Text) : Prop := name ≠ [] ∧ ∀ c ∈ name, c ∉ delims

instance (name : Text) : Decidable (IsName name) :=
  decidable_of_iff ((name != [] && name.all (fun c => !delims.contains c)) = true) (by
    simp [IsName])

structure Printable (ext : ExtensionData) : Prop where
  name : IsName ext.name_
  params : ∀ param ∈ ext.params_.entries, IsName param.1
  values : ∀ param ∈ ext.params_.entries,
    extension_delim ∉ param.2 ∧ param_delim ∉ param.2 ∧ Trimmed param.2

theorem IsName.trimmed {name : Text} (h : IsName name) : Trimmed name := by
  have hchar : ∀ c ∈ name, whitespace c = false := by
    intro c hc
    have hnot := h.2 c hc
    simp only [delims, List.mem_cons, not_or] at hnot
    simp [whitespace, hnot.2.2.2.1, hnot.2.2.2.2.1]
  constructor
  · cases hhead : name.head? with
    | none => rfl
    | some c => simp [hchar c (List.mem_of_mem_head? hhead)]
  · cases hlast : name.getLast? with
    | none => rfl
    | some c => simp [hchar c (List.mem_of_mem_getLast? hlast)]

theorem IsName.notMem {name : Text} (h : IsName name) {delim : UInt8}
    (hdelim : delim ∈ delims) : delim ∉ name :=
  fun hmem => h.2 delim hmem hdelim

/-! ## Parameters -/

section

variable {param : Text × Text}

theorem read_param_print (h : IsName param.1) (ext : ExtensionData) :
    ext.read_param (print_param param) = ext.set_param param.1 param.2 := by
  have hassign : assign_delim ∉ param.1 := h.notMem (by decide)
  rw [read_param, print_param, http.find_cut hassign]
  simp only
  rw [List.take_left, ← List.drop_drop, List.drop_left, List.drop_one, List.tail_cons]

theorem print_param_trimmed (hname : IsName param.1) (hvalue : Trimmed param.2) :
    Trimmed (print_param param) := by
  refine hname.trimmed.append hname.1 ?_
  rw [List.getLast?_cons]
  cases hlast : param.2.getLast? with
  | none => rfl
  | some c =>
    have hback := hvalue.2
    rw [hlast] at hback
    exact hback

theorem notMem_print_param {delim : UInt8} (hname : delim ∉ param.1) (hvalue : delim ∉ param.2)
    (hne : delim ≠ assign_delim) : delim ∉ print_param param := by
  simp [print_param, hname, hvalue, hne]

end

/-! ## Extensions -/

namespace Printable

variable {ext : ExtensionData} (h : Printable ext)

include h

theorem param {param : Text × Text} (hparam : param ∈ ext.params_.entries) :
    param_delim ∉ print_param param ∧ Trimmed (print_param param) ∧ print_param param ≠ [] := by
  have hname := h.params param hparam
  obtain ⟨-, hvalue, htrimmed⟩ := h.values param hparam
  refine ⟨notMem_print_param (hname.notMem (by decide)) hvalue (by decide),
    print_param_trimmed hname htrimmed, ?_⟩
  simp [print_param]

theorem comma_notMem : extension_delim ∉ ext.print := by
  have hdelim : extension_delim ≠ param_delim := by decide
  have hblank : extension_delim ≠ 32 := by decide
  intro hmem
  rcases List.mem_append.mp hmem with hmem | hmem
  · exact h.name.notMem (by decide) hmem
  · obtain ⟨param, hparam, hmem⟩ := List.mem_flatMap.mp hmem
    rw [List.mem_cons, List.mem_cons] at hmem
    have hnot : extension_delim ∉ print_param param :=
      notMem_print_param ((h.params param hparam).notMem (by decide)) (h.values param hparam).1
        (by decide)
    exact hmem.elim hdelim (fun hmem => hmem.elim hblank hnot)

theorem trimmed : Trimmed ext.print := by
  have hend (params : List (Text × Text)) (hparams : ∀ q ∈ params, q ∈ ext.params_.entries) :
      (params.flatMap (fun param => param_delim :: 32 :: print_param param)).getLast?.all
        (fun c => !whitespace c) = true := by
    induction params with
    | nil => rfl
    | cons q params ih =>
      have hlater := ih (fun r hr => hparams r (List.mem_cons_of_mem q hr))
      obtain ⟨-, htrimmed, hne⟩ := h.param (hparams q List.mem_cons_self)
      rw [List.flatMap_cons, List.getLast?_append]
      cases hlast : (params.flatMap (fun param =>
          param_delim :: 32 :: print_param param)).getLast? with
      | some c => rwa [hlast] at hlater
      | none =>
        have hskip : (param_delim :: 32 :: print_param q).getLast? = (print_param q).getLast? := by
          obtain ⟨c, w, hq⟩ := List.exists_cons_of_ne_nil hne
          simp [hq]
        rw [Option.none_or, hskip]
        exact htrimmed.2
  exact h.name.trimmed.append h.name.1 (hend _ (fun q hq => hq))

/-- What is written of an extension is read as it. -/
theorem from_header_value_print : from_header_value ext.print = .ok ext := by
  have hcomma : http.find ext.print extension_delim 0 = none :=
    http.find_of_notMem h.comma_notMem
  have htokens : split_trim_from ext.print param_delim 0 [] =
      ext.name_ :: ext.params_.entries.map print_param := by
    rw [split_trim_loop (by decide)]
    exact split_trim_joined (by decide)
      ⟨h.name.notMem (by decide), h.name.trimmed, h.name.1⟩ (fun param hparam => h.param hparam)
  have hparams : (ext.params_.entries.map print_param).foldl read_param (new ext.name_) =
      ext.params_.entries.foldl (fun ext param => ext.set_param param.1 param.2)
        (new ext.name_) := by
    rw [List.foldl_map]
    apply List.foldl_ext
    intro ext' param hparam
    exact read_param_print (h.params param hparam) ext'
  have hset (params : List (Text × Text)) (ext' : ExtensionData) :
      params.foldl (fun ext param => ext.set_param param.1 param.2) ext' =
        ⟨ext'.name_, params.foldl (fun m param => m.insert_or_assign param.1 param.2)
          ext'.params_⟩ := by
    induction params generalizing ext' with
    | nil => rfl
    | cons param params ih => exact ih (ext'.set_param param.1 param.2)
  have hrefill := ext.params_.refill_insert_or_assign
  unfold from_header_value
  rw [hcomma, htokens]
  simp only
  rw [hparams, hset]
  exact congrArg Except.ok (ExtensionData.ext rfl hrefill)

end Printable

/-! ## Headers -/

theorem read_header_print (extensions : Extensions) {ext_list : List ExtensionData}
    (h : ∀ ext ∈ ext_list, Printable ext) :
    extensions.read_header (print_list ext_list) =
      { extensions with read := extensions.read ++ ext_list } := by
  have htokens : split_trim_from (print_list ext_list) extension_delim 0 [] =
      ext_list.map print := by
    rw [split_trim_loop (by decide)]
    cases ext_list with
    | nil => rfl
    | cons ext ext_list =>
      have hentry : ∀ ext' ∈ ext :: ext_list,
          extension_delim ∉ ext'.print ∧ Trimmed ext'.print ∧ ext'.print ≠ [] := by
        intro ext' hext'
        have hprintable := h ext' hext'
        refine ⟨hprintable.comma_notMem, hprintable.trimmed, ?_⟩
        simp [print, hprintable.name.1]
      exact split_trim_joined (by decide) (hentry ext List.mem_cons_self)
        (fun ext' hext' => hentry ext' (List.mem_cons_of_mem ext hext'))
  rw [Extensions.read_header, htokens, List.foldl_map]
  clear htokens
  induction ext_list generalizing extensions with
  | nil => simp
  | cons ext ext_list ih =>
    have hread : extensions.read_string ext.print =
        { extensions with read := extensions.read ++ [ext] } := by
      rw [Extensions.read_string, (h ext List.mem_cons_self).from_header_value_print]
    rw [List.foldl_cons, hread, ih _ (fun ext' hext' => h ext' (List.mem_cons_of_mem ext hext'))]
    simp

theorem read_headers_print {ext_lists : List (List ExtensionData)}
    (h : ∀ ext_list ∈ ext_lists, ∀ ext ∈ ext_list, Printable ext) (extensions : Extensions) :
    (ext_lists.map print_list).foldl Extensions.read_header extensions =
      { extensions with read := extensions.read ++ ext_lists.flatten } := by
  induction ext_lists generalizing extensions with
  | nil => simp
  | cons ext_list ext_lists ih =>
    have hhead := read_header_print extensions (h ext_list List.mem_cons_self)
    rw [List.map_cons, List.foldl_cons, hhead,
      ih (fun ext_list' hmem => h ext_list' (List.mem_cons_of_mem ext_list hmem))]
    simp

/-- Extensions that are written in the headers of a message, in however many, are read in their
order, each with its parameters, and nothing is unrecognized. -/
theorem written_extensions_are_read {msg : http.Message} {ext_lists : List (List ExtensionData)}
    (h : ∀ ext_list ∈ ext_lists, ∀ ext ∈ ext_list, Printable ext)
    (hmsg : msg.get_all_of_header (text "Sec-WebSocket-Extensions") = ext_lists.map print_list) :
    get_extensions msg = ⟨ext_lists.flatten, []⟩ := by
  rw [get_extensions, hmsg, read_headers_print h]
  rfl

/-- An extension with a parameter and one without, and one in another header. -/
def offers : List (List ExtensionData) :=
  [[(ExtensionData.new (text "mux")).set_param (text "q") (text "4=5"), .new (text "flow")],
    [.new (text "zip")]]

def an_offering_message : http.Message :=
  (http.Message.new.add_header (text "Sec-WebSocket-Extensions")
    (text "mux; q=4=5, flow")).add_header (text "Sec-WebSocket-Extensions") (text "zip")

theorem offers_are_read : get_extensions an_offering_message = ⟨offers.flatten, []⟩ := by
  refine written_extensions_are_read ?_ (by decide)
  intro ext_list hlist ext hext
  have hmem : ext ∈ offers.flatten := List.mem_flatten_of_mem hlist hext
  simp only [offers, List.flatten_cons, List.flatten_nil, List.append_nil, List.cons_append,
    List.nil_append, List.mem_cons, List.not_mem_nil, or_false] at hmem
  rcases hmem with rfl | rfl | rfl
  · exact ⟨by decide, by decide, by decide⟩
  · exact ⟨by decide, by decide, by decide⟩
  · exact ⟨by decide, by decide, by decide⟩

end proxy.websocket.handshake
