-- The characters and parts of a text that the parsers of `url.cpp` access: the
-- parsers once more, with a note of each access, and when all of them are inside.
import Aether.Http.TargetBytes
import Aether.Http.TextPositions
import Aether.Lib.Traced

open util.string lib.traced

namespace proxy.http

/-! ## Accesses -/

/-- A read with `operator[]`, and a part that `substring` or `substr` gives. -/
inductive Access where
  | char (src : Text) (pos : Nat)
  | part (src : Text) (start : Nat) (stop : Option Nat)

/-- A read is of a character of the text, and a part starts in it and not behind its own end. -/
def Access.Inside : Access → Prop
  | char src pos => pos < src.length
  | part src start stop => start ≤ src.length ∧ ∀ i ∈ stop, start ≤ i

namespace Url

/-- `parse`, which has no method. -/
def parse (str : Text) : Except Error Url := do
  if str = text "*" then return ⟨.asterisk, [], .new, [], []⟩
  else if (← char_at str 0) = slash then return parse_origin_form str
  -- Authority form URLs are illegal outside of a CONNECT context.
  else parse_absolute_form str

/-! ## The parsers with their accesses -/

namespace traced

abbrev Parser (α : Type) := Traced Access Error α

def char_at (src : Text) (pos : Nat) : Parser UInt8 :=
  .access (.char src pos) (http.char_at src pos)

def substring_from (src : Text) (start : Nat) : Parser Text :=
  .access (.part src start none) (http.substring_from src start)

def substring (src : Text) (start : Nat) (stop : Option Nat) : Parser Text :=
  .access (.part src start stop) (http.substring src start stop)

def two_slashes (src : Text) (pos : Nat) : Parser Bool := do
  if (← char_at src pos) = slash then return (← char_at src (pos + 1)) = slash
  else return false

def parse_authority_form (str : Text) : Parser Url :=
  match find str colon 0 with
  | none => .of (.error (proxy_error .invalid_target_port "Missing port for authority form"))
  | some port_pos => do
    let port ← .of (parse_port (← substring_from str (port_pos + 1)))
    return make_authority_form (← substring str 0 (some port_pos)) port

def parse_origin_form (str : Text) : Parser Url :=
  match find_first_of str search_delims 0 with
  | some earliest_delim => do
    return make_origin_form (← substring str 0 (some earliest_delim))
      (← substring_from str earliest_delim)
  | none => return make_origin_form str []

def parse_password (str : Text) (start user_end : Nat) : Parser Text :=
  match find str colon start with
  | none => return []
  | some password_start =>
    if password_start < user_end then substring str (password_start + 1) (some user_end)
    else return []

def parse_user (str : Text) (start : Nat) (netloc : NetworkLocation) :
    Parser (NetworkLocation × Nat) :=
  match find str 64 start with
  | none => return (netloc, start)
  | some user_end => do
    let password ← parse_password str start user_end
    let username ← substring str start (some user_end)
    return ({ netloc with username := username, password := password }, user_end)

/-- The host and the port of `parse_netloc`. -/
def parse_host (str : Text) (netloc : NetworkLocation) (start : Nat) : Parser NetworkLocation :=
  match find str colon start with
  | none => do return { netloc with host := ← substring_from str start }
  | some port_start => do
    match parse_port (← substring_from str (port_start + 1)) with
    | .ok port =>
      return { netloc with port := some port, host := ← substring str start (some port_start) }
    | .error _ => return { netloc with host := ← substring str start (some str.length) }

def parse_netloc (str : Text) : Parser NetworkLocation := do
  let start := if ← two_slashes str 0 then 2 else 0
  let (netloc, start) ← parse_user str start .new
  parse_host str netloc start

/-- The path and the search behind a netloc. -/
def parse_path (str scheme : Text) (netloc : NetworkLocation) :
    Option Nat → Option Nat → Parser Url
  | some first_slash, some delim =>
    if first_slash < delim then do
      return ⟨.absolute, scheme, netloc, ← substring str first_slash (some delim),
        ← substring_from str delim⟩
    else do return ⟨.absolute, scheme, netloc, ← substring_from str first_slash, []⟩
  | some first_slash, none => do
    return ⟨.absolute, scheme, netloc, ← substring_from str first_slash, []⟩
  | none, some delim => do return ⟨.absolute, scheme, netloc, [], ← substring_from str delim⟩
  | none, none => return ⟨.absolute, scheme, netloc, [], []⟩

def parse_with_netloc (str scheme : Text) (netloc_start : Nat) : Parser Url := do
  let earliest_nonslash_delim := find_first_of str search_delims netloc_start
  let first_slash := find str slash netloc_start
  let netloc ←
    parse_netloc (← substring str netloc_start (min_pos earliest_nonslash_delim first_slash))
  parse_path str scheme netloc first_slash earliest_nonslash_delim

def parse_scheme (str : Text) : Parser (Text × Nat) :=
  match find str colon 0 with
  | none => return ([], 0)
  | some netloc_start => do
    if ← two_slashes str 0 then return ([], 0)
    else return (← substring str 0 (some netloc_start), netloc_start)

/-- The case without a netloc, with a path from a position on. -/
def parse_without_netloc (str scheme : Text) (netloc_start : Nat) : Parser Url :=
  match find_first_of str search_delims netloc_start with
  | some delim => do
    return ⟨.absolute, scheme, .new, ← substring str netloc_start (some delim),
      ← substring_from str delim⟩
  | none => do return ⟨.absolute, scheme, .new, ← substring_from str netloc_start, []⟩

def parse_absolute_form (str : Text) : Parser Url := do
  let (scheme, netloc_start) ← parse_scheme str
  if ← two_slashes str (netloc_start + 1) then parse_with_netloc str scheme (netloc_start + 3)
  else if (← char_at str (netloc_start + 1)) = slash then
    parse_without_netloc str scheme (netloc_start + 2)
  else return ⟨.absolute, scheme, .new, [], ← substring_from str (netloc_start + 1)⟩

def parse (str : Text) : Parser Url := do
  if str = text "*" then return ⟨.asterisk, [], .new, [], []⟩
  else if (← char_at str 0) = slash then parse_origin_form str
  else parse_absolute_form str

def parse_target (str : Text) (verb : Method) : Parser Url := do
  if str = text "*" then return ⟨.asterisk, [], .new, [], []⟩
  else if (← char_at str 0) = slash then parse_origin_form str
  else if verb = .CONNECT then parse_authority_form str
  else parse_absolute_form str

/-! ## They are the parsers -/

theorem result_ite {p : Prop} [Decidable p] {α : Type} (x y : Parser α) :
    (if p then x else y).result = if p then x.result else y.result := by
  split
  · rfl
  · rfl

theorem two_slashes_result (src : Text) (pos : Nat) :
    (two_slashes src pos).result = http.two_slashes src pos := by
  simp [two_slashes, http.two_slashes, char_at, result_ite, pure, Except.pure]

theorem authority_form_result (str : Text) :
    (parse_authority_form str).result = Url.parse_authority_form str := by
  unfold parse_authority_form Url.parse_authority_form
  cases hfind : find str colon 0 with
  | none => rfl
  | some i =>
    obtain ⟨a, b, hstr, -, rfl⟩ := find_eq_some hfind
    rw [List.drop_zero] at hstr
    subst hstr
    have hport : http.substring_from (a ++ colon :: b) (0 + a.length + 1) =
        .ok ((a ++ colon :: b).drop (0 + a.length + 1)) := if_pos (by simp)
    have hhost : http.substring (a ++ colon :: b) 0 (some (0 + a.length)) = .ok a :=
      substring_of_drop rfl (Nat.zero_le _)
    have htake : (a ++ colon :: b).take (0 + a.length) = a := by rw [Nat.zero_add, List.take_left]
    simp only [Traced.result_bind, substring_from, substring, Traced.result_access, hport, hhost,
      htake, Traced.result_of]
    simp only [bind, Except.bind]
    cases parse_port ((a ++ colon :: b).drop (0 + a.length + 1)) <;> rfl

theorem origin_form_result (str : Text) :
    (parse_origin_form str).result = .ok (Url.parse_origin_form str) := by
  unfold parse_origin_form Url.parse_origin_form
  cases hfind : find_first_of str search_delims 0 with
  | none => rfl
  | some i =>
    obtain ⟨k, hk, rfl⟩ := Option.map_eq_some_iff.mp hfind
    have hlt : k < str.length := (List.findIdx?_eq_some_iff_getElem.mp hk).1
    have hsearch : http.substring_from str (0 + k) = .ok (str.drop (0 + k)) :=
      if_pos (by omega)
    have hpath : http.substring str 0 (some (0 + k)) = .ok (str.take (0 + k)) := by
      simp [http.substring, http.substring_from, Except.map]
    simp only [Traced.result_bind, substring_from, substring, Traced.result_access, hpath, hsearch]
    rfl

theorem password_result (str : Text) (start user_end : Nat) :
    (parse_password str start user_end).result = Url.parse_password str start user_end := by
  unfold parse_password Url.parse_password
  cases find str colon start with
  | none => rfl
  | some password_start =>
    simp only [result_ite]
    rfl

theorem user_result (str : Text) (start : Nat) (netloc : NetworkLocation) :
    (parse_user str start netloc).result = Url.parse_user str start netloc := by
  unfold parse_user Url.parse_user
  cases find str 64 start with
  | none => rfl
  | some user_end =>
    simp only [Traced.result_bind, password_result]
    rfl

theorem host_result (str : Text) (netloc : NetworkLocation) (start : Nat) :
    (parse_host str netloc start).result = match find str colon start with
      | none => do return { netloc with host := ← http.substring_from str start }
      | some port_start => do
        match parse_port (← http.substring_from str (port_start + 1)) with
        | .ok port =>
          return { netloc with
            port := some port, host := ← http.substring str start (some port_start) }
        | .error _ =>
          return { netloc with host := ← http.substring str start (some str.length) } := by
  unfold parse_host
  cases find str colon start with
  | none =>
    simp only [Traced.result_bind]
    rfl
  | some port_start =>
    simp only [Traced.result_bind, substring_from, Traced.result_access]
    congr
    funext ds
    cases parse_port ds with
    | ok port =>
      simp only [Traced.result_bind]
      rfl
    | error e =>
      simp only [Traced.result_bind]
      rfl

theorem netloc_result (str : Text) : (parse_netloc str).result = Url.parse_netloc str := by
  unfold parse_netloc Url.parse_netloc
  rw [Traced.result_bind, two_slashes_result]
  refine congrArg _ (funext fun slashes => ?_)
  rw [Traced.result_bind, user_result]
  exact congrArg _ (funext fun ⟨netloc, start⟩ => host_result str netloc start)

theorem path_result (str scheme : Text) (netloc : NetworkLocation)
    (first_slash delim : Option Nat) : (parse_path str scheme netloc first_slash delim).result =
      match first_slash, delim with
      | some first_slash, some delim =>
        if first_slash < delim then do
          return ⟨.absolute, scheme, netloc, ← http.substring str first_slash (some delim),
            ← http.substring_from str delim⟩
        else do return ⟨.absolute, scheme, netloc, ← http.substring_from str first_slash, []⟩
      | some first_slash, none => do
        return ⟨.absolute, scheme, netloc, ← http.substring_from str first_slash, []⟩
      | none, some delim => do
        return ⟨.absolute, scheme, netloc, [], ← http.substring_from str delim⟩
      | none, none => .ok ⟨.absolute, scheme, netloc, [], []⟩ := by
  cases first_slash <;> cases delim <;>
    simp only [parse_path, result_ite, Traced.result_bind] <;> rfl

theorem with_netloc_result (str scheme : Text) (netloc_start : Nat) :
    (parse_with_netloc str scheme netloc_start).result =
      Url.parse_with_netloc str scheme netloc_start := by
  unfold parse_with_netloc Url.parse_with_netloc
  simp only [Traced.result_bind, netloc_result, path_result]
  rfl

theorem scheme_result (str : Text) : (parse_scheme str).result = Url.parse_scheme str := by
  unfold parse_scheme Url.parse_scheme
  cases find str colon 0 with
  | none => rfl
  | some i =>
    simp only [Traced.result_bind, two_slashes_result, result_ite]
    rfl

theorem without_netloc_result (str scheme : Text) (netloc_start : Nat) :
    (parse_without_netloc str scheme netloc_start).result =
      match find_first_of str search_delims netloc_start with
      | some delim => do
        return ⟨.absolute, scheme, .new, ← http.substring str netloc_start (some delim),
          ← http.substring_from str delim⟩
      | none => do
        return ⟨.absolute, scheme, .new, ← http.substring_from str netloc_start, []⟩ := by
  unfold parse_without_netloc
  cases find_first_of str search_delims netloc_start <;> simp only [Traced.result_bind] <;> rfl

theorem absolute_form_result (str : Text) :
    (parse_absolute_form str).result = Url.parse_absolute_form str := by
  unfold parse_absolute_form Url.parse_absolute_form
  simp only [Traced.result_bind, two_slashes_result, scheme_result, with_netloc_result,
    without_netloc_result, result_ite]
  rfl

theorem parse_result (str : Text) : (parse str).result = Url.parse str := by
  unfold parse Url.parse
  simp only [Traced.result_bind, result_ite, origin_form_result, absolute_form_result]
  rfl

/-- The parser with its accesses gives what the parser gives. -/
theorem target_result (str : Text) (verb : Method) :
    (parse_target str verb).result = Url.parse_target str verb := by
  unfold parse_target Url.parse_target
  simp only [Traced.result_bind, result_ite, origin_form_result, absolute_form_result,
    authority_form_result]
  rfl

end traced

end Url

end proxy.http
