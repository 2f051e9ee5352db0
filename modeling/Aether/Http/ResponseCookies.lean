-- The cookies of a response, `message/response.cpp`: which collections are read as they were set,
-- and that a response keeps the cookies that are taken from it and set again.
import Aether.Http.KeptCookies
import Aether.Http.SetCookies

open util.string lib.ordered_map lib.positions

namespace proxy.http

namespace Response

/-- A turn of the loop of `get_cookies`. -/
def add_cookie (cookies : CookieCollection) (header : Text) : Except Error CookieCollection :=
  (Cookie.parse_set_header header).map fun parsed => (parsed.map cookies.set).getD cookies

/-- `get_cookies`. -/
def get_cookies (res : Response) : Except Error CookieCollection :=
  (res.get_all_of_header (text "Set-Cookie")).foldlM add_cookie .empty

/-- `set_cookies`. The header that is removed is the first one. -/
def set_cookies (res : Response) (cookies : CookieCollection) : Response :=
  { res with
    toMessage := cookies.cookies_.entries.foldl
      (fun msg e => msg.add_header (text "Set-Cookie") e.2.response_string)
      (res.remove_header (text "Set-Cookie")) }

end Response

/-! ## Cookies of headers -/

namespace Cookie

/-- Every header can be read. -/
theorem parse_set_header_ok (header : Text) : ∃ parsed, parse_set_header header = .ok parsed := by
  by_cases hequal : equal_sign ∈ header
  · obtain ⟨name, value, rfl, hname⟩ := List.eq_append_cons_of_mem hequal
    have hstart : name.length + 1 ≤ (name ++ equal_sign :: value).length := by simp
    obtain ⟨part, hpart⟩ := substring_ok hstart (find (name ++ equal_sign :: value) semicolon 0)
    exact ⟨_, parse_set_header_eq rfl hname hpart⟩
  · refine ⟨none, ?_⟩
    unfold parse_set_header
    rw [show find header equal_sign 0 = none from find_of_notMem hequal]
    rfl

/-- The cookie of a header. -/
def cookie_of (header : Text) : Option Cookie := (parse_set_header header).toOption.join

theorem parse_set_header_cookie_of (header : Text) :
    parse_set_header header = .ok (cookie_of header) := by
  obtain ⟨parsed, hparsed⟩ := parse_set_header_ok header
  rw [cookie_of, hparsed]
  rfl

theorem cookie_of_response_string {c : Cookie} (h : Printable c) :
    cookie_of c.response_string = some c := by
  rw [cookie_of, parse_response_string h]
  rfl

/-- What is read of an entry can be written as an attribute. -/
theorem plain_attribute_of {entry : Text} (h : semicolon ∉ entry) :
    CookieCollection.Plain (attribute_of entry) := by
  unfold attribute_of
  cases hsides : sides entry with
  | some p => exact CookieCollection.plain_of_sides hsides h
  | none =>
    have hequal : equal_sign ∉ entry := by
      intro hmem
      rw [sides, if_pos hmem] at hsides
      cases hsides
    have htrim : trim entry ⊆ entry := (trim_part entry).subset
    exact ⟨⟨trimmed_trim entry, fun hmem => h (htrim hmem), fun hmem => hequal (htrim hmem)⟩,
      ⟨⟨rfl, rfl⟩, List.not_mem_nil⟩⟩

theorem plain_attributes {entries : List Text} (h : ∀ entry ∈ entries, semicolon ∉ entry)
    {attributes : OrderedMap iless_fn Text}
    (hplain : ∀ e ∈ attributes.entries, CookieCollection.Plain e) :
    ∀ e ∈ (entries.foldl with_entry attributes).entries, CookieCollection.Plain e := by
  induction entries generalizing attributes with
  | nil => exact hplain
  | cons entry entries ih =>
    apply ih (fun entry' h' => h entry' (List.mem_cons_of_mem _ h'))
    intro e he
    rcases mem_place he with rfl | he | ⟨f, hf, -, rfl⟩
    · exact plain_attribute_of (h entry List.mem_cons_self)
    · exact hplain e he
    · exact hplain f hf

/-- A cookie of a header whose first equal sign is in its first part can be written. -/
theorem printable_cookie_of {header : Text} {c : Cookie} (h : SignFirst header)
    (hc : cookie_of header = some c) : Printable c := by
  have hparse : parse_set_header header = .ok (some c) := hc ▸ parse_set_header_cookie_of header
  -- The name and the value are those of the first part.
  have hfirst := (readByFirstPart_iff header).mpr h
  rw [ReadByFirstPart, hparse] at hfirst
  have hsides : sides (first_part header) = some (c.name, c.value) :=
    (Except.ok.inj hfirst).symm
  have hpart : semicolon ∉ first_part header := by
    intro hmem
    have hne := List.mem_takeWhile_imp hmem
    simp at hne
  obtain ⟨hname, hvalue⟩ := CookieCollection.plain_of_sides hsides hpart
  -- The attributes are those of the entries behind it.
  have hattributes : ∀ e ∈ c.attributes_.entries, CookieCollection.Plain e := by
    have hequal : equal_sign ∈ header := by
      by_contra hno
      rw [cookie_of, parse_set_header, show find header equal_sign 0 = none from
        find_of_notMem hno] at hc
      cases hc
    obtain ⟨name, value, rfl, hno⟩ := List.eq_append_cons_of_mem hequal
    have hstart : name.length + 1 ≤ (name ++ equal_sign :: value).length := by simp
    obtain ⟨part, hpart⟩ := substring_ok hstart (find (name ++ equal_sign :: value) semicolon 0)
    have hread := hparse.symm.trans (parse_set_header_eq rfl hno hpart)
    have hc' := Option.some.inj (Except.ok.inj hread)
    rw [hc']
    show ∀ e ∈ (attributes_from _ _).entries, CookieCollection.Plain e
    unfold attributes_from
    split
    · exact plain_attributes (fun entry hentry => (mem_splitOn hentry).1)
        (fun e he => absurd he List.not_mem_nil)
    · exact fun e he => absurd he List.not_mem_nil
  exact ⟨hname, hvalue, fun e he => (hattributes e he).name, fun e he => (hattributes e he).value⟩

end Cookie

/-! ## Collections -/

namespace CookieCollection

/-- The collection of some cookies, of which the last of a name counts. -/
def gathered (cookies : List Cookie) : CookieCollection := cookies.foldl set empty

theorem keyed_gathered (found : List Cookie) : (gathered found).Keyed := by
  induction found using List.reverseRecOn with
  | nil => exact fun e he => absurd he List.not_mem_nil
  | append_singleton found cook ih =>
    rw [gathered, List.foldl_append]
    exact ih.set cook

theorem get_gathered (found : List Cookie) (name : Text) :
    (gathered found).get name = found.reverse.find? (fun cook => decide (cook.name = name)) := by
  induction found using List.reverseRecOn with
  | nil => rfl
  | append_singleton found cook ih =>
    rw [gathered, List.foldl_append]
    show ((gathered found).set cook).get name = _
    rw [get_set, ih, List.reverse_append, List.reverse_singleton, List.singleton_append,
      List.find?_cons]
    by_cases hname : cook.name = name
    · simp [hname]
    · simp [hname]

/-- The cookies of a collection, in the order of their names. -/
def cookies (c : CookieCollection) : List Cookie := c.cookies_.entries.map Prod.snd

theorem Keyed.gathered_cookies {c : CookieCollection} (h : c.Keyed) : gathered c.cookies = c := by
  have hrefill := c.cookies_.refill_insert_or_assign
  have hfold : ∀ (entries : List (Text × Cookie)) (m : OrderedMap less Cookie),
      (∀ e ∈ entries, e.1 = e.2.name) →
      (entries.map Prod.snd).foldl CookieCollection.set ⟨m⟩ =
        ⟨entries.foldl (fun m e => m.insert_or_assign e.1 e.2) m⟩ := by
    intro entries
    induction entries with
    | nil => exact fun _ _ => rfl
    | cons e entries ih =>
      intro m he
      rw [List.map_cons, List.foldl_cons, List.foldl_cons, he e List.mem_cons_self]
      exact ih _ fun f hf => he f (List.mem_cons_of_mem _ hf)
  rw [gathered, cookies, empty, hfold _ _ h, hrefill]

/-- Collections that find the same cookies are the same. -/
theorem ext_of_get {c d : CookieCollection} (h : ∀ name, c.get name = d.get name) : c = d :=
  congrArg CookieCollection.mk (OrderedMap.ext_of_find same_less.mp h)

theorem Keyed.get_of_mem {c : CookieCollection} (h : c.Keyed) {cook : Cookie}
    (hcook : cook ∈ c.cookies) : c.get cook.name = some cook := by
  obtain ⟨e, he, rfl⟩ := List.mem_map.mp hcook
  exact OrderedMap.find_eq_some_iff.mpr ⟨e, he, same_less.mpr (h e he), rfl⟩

theorem mem_of_gathered {found : List Cookie} {cook : Cookie}
    (h : cook ∈ (gathered found).cookies) : cook ∈ found := by
  have hget := (keyed_gathered found).get_of_mem h
  rw [get_gathered] at hget
  exact List.mem_reverse.mp (List.mem_of_find?_eq_some hget)

theorem get_gathered_of_mem {found : List Cookie} {cook : Cookie} (h : cook ∈ found) :
    ∃ own, (gathered found).get cook.name = some own := by
  rw [get_gathered]
  exact Option.isSome_iff_exists.mp
    (List.find?_isSome.mpr ⟨cook, List.mem_reverse.mpr h, decide_eq_true rfl⟩)

/-- A collection takes the cookies of other headers as they are, if it has none of their names. -/
theorem gathered_append_iff {c : CookieCollection} (h : c.Keyed) (found : List Cookie) :
    gathered (found ++ c.cookies) = c ↔ ∀ cook ∈ found, ∃ own, c.get cook.name = some own := by
  have hget (name : Text) : (gathered (found ++ c.cookies)).get name =
      (c.get name).or ((gathered found).get name) := by
    have hown := congrArg (fun c => c.get name) h.gathered_cookies
    simp only [get_gathered] at hown
    rw [get_gathered, get_gathered, List.reverse_append, List.find?_append, hown]
  constructor
  · intro heq cook hcook
    have hfound := congrArg (fun c => c.get cook.name) heq
    simp only [hget] at hfound
    cases hown : c.get cook.name with
    | some own => exact ⟨own, rfl⟩
    | none =>
      rw [hown, Option.none_or, get_gathered, List.find?_eq_none] at hfound
      have hnot := hfound cook (List.mem_reverse.mpr hcook)
      simp at hnot
  · intro hall
    apply ext_of_get
    intro name
    rw [hget]
    cases hown : c.get name with
    | some own => rfl
    | none =>
      rw [Option.none_or, get_gathered, List.find?_eq_none]
      intro cook hcook hname
      obtain ⟨own, hown'⟩ := hall cook (List.mem_reverse.mp hcook)
      rw [of_decide_eq_true hname, hown] at hown'
      cases hown'

end CookieCollection

/-! ## Responses -/

namespace Response

open CookieCollection

theorem get_cookies_eq (res : Response) : res.get_cookies =
    .ok (gathered ((res.get_all_of_header (text "Set-Cookie")).filterMap Cookie.cookie_of)) := by
  have hfold : ∀ (headers : List Text) (cookies : CookieCollection),
      headers.foldlM add_cookie cookies =
        .ok ((headers.filterMap Cookie.cookie_of).foldl set cookies) := by
    intro headers
    induction headers with
    | nil => exact fun _ => rfl
    | cons header headers ih =>
      intro cookies
      rw [List.foldlM_cons, add_cookie, Cookie.parse_set_header_cookie_of]
      cases hcookie : Cookie.cookie_of header with
      | none =>
        rw [List.filterMap_cons_none hcookie]
        exact ih cookies
      | some cook =>
        rw [List.filterMap_cons_some hcookie]
        exact ih (cookies.set cook)
  exact hfold _ _

theorem get_all_of_added_all (name : Text) (values : List Text) (msg : Message) :
    (values.foldl (fun msg value => msg.add_header name value) msg).get_all_of_header name =
      msg.get_all_of_header name ++ values := by
  induction values generalizing msg with
  | nil => exact (List.append_nil _).symm
  | cons value values ih =>
    rw [List.foldl_cons, ih, msg.get_all_of_added, List.append_assoc, List.singleton_append]

/-- The first header with a cookie is taken away, and the new ones are behind the others. -/
theorem get_all_of_set_cookies (res : Response) (cookies : CookieCollection) :
    (res.set_cookies cookies).get_all_of_header (text "Set-Cookie") =
      (res.get_all_of_header (text "Set-Cookie")).tail ++
        cookies.cookies.map Cookie.response_string := by
  have hall := get_all_of_added_all (text "Set-Cookie")
    (cookies.cookies.map Cookie.response_string) (res.remove_header (text "Set-Cookie"))
  rw [res.get_all_of_removed, List.foldl_map] at hall
  rw [← hall, CookieCollection.cookies, List.foldl_map]
  rfl

theorem cookies_of_response_strings {cookies : List Cookie}
    (h : ∀ cook ∈ cookies, cook.Printable) :
    (cookies.map Cookie.response_string).filterMap Cookie.cookie_of = cookies := by
  rw [List.filterMap_map]
  refine (List.filterMap_congr fun cook hcook => ?_).trans List.filterMap_some
  exact Cookie.cookie_of_response_string (h cook hcook)

/-- A collection that is set is read as it was exactly if it has a cookie of each name that is in
the headers behind the first, which stay. -/
theorem set_cookies_are_read_iff (res : Response) {cookies : CookieCollection}
    (hkeyed : cookies.Keyed) (hprintable : ∀ cook ∈ cookies.cookies, cook.Printable) :
    (res.set_cookies cookies).get_cookies = .ok cookies ↔
      ∀ header ∈ (res.get_all_of_header (text "Set-Cookie")).tail, ∀ cook,
        Cookie.cookie_of header = some cook → ∃ own, cookies.get cook.name = some own := by
  rw [get_cookies_eq, get_all_of_set_cookies, List.filterMap_append,
    cookies_of_response_strings hprintable, Except.ok.injEq, gathered_append_iff hkeyed]
  constructor
  · intro h header hheader cook hcook
    exact h cook (List.mem_filterMap.mpr ⟨header, hheader, hcook⟩)
  · intro h cook hcook
    obtain ⟨header, hheader, hread⟩ := List.mem_filterMap.mp hcook
    exact h header hheader cook hread

/-- A response with two cookies. -/
def two_set_cookies : Response :=
  { Response.new with
    toMessage := (Message.new.add_header (text "Set-Cookie") (text "id=1; Path=/")).add_header
      (text "Set-Cookie") (text "lang=en; Secure") }

/-- One cookie that is set, in place of those of a response with two. -/
def one_cookie : CookieCollection := CookieCollection.empty.set Cookie.a_secure_cookie

theorem the_second_cookie_is_not_taken_away :
    one_cookie.cookies = [Cookie.a_secure_cookie] ∧
      ¬ (two_set_cookies.set_cookies one_cookie).get_cookies = .ok one_cookie := by
  have hcookies : one_cookie.cookies = [Cookie.a_secure_cookie] := by decide
  have hkeyed : one_cookie.Keyed :=
    Keyed.set (fun e he => absurd he List.not_mem_nil) Cookie.a_secure_cookie
  have hprintable : ∀ cook ∈ one_cookie.cookies, cook.Printable := by
    rw [hcookies]
    intro cook hcook
    obtain rfl := List.mem_singleton.mp hcook
    exact ⟨by decide, by decide, by decide, by decide⟩
  refine ⟨hcookies, fun h => ?_⟩
  have hread := (set_cookies_are_read_iff two_set_cookies hkeyed hprintable).mp h
  obtain ⟨own, hown⟩ := hread (text "lang=en; Secure") (by decide)
    ⟨text "lang", text "en", OrderedMap.empty.emplace (text "Secure") []⟩ (by decide +kernel)
  have hnone : one_cookie.get (text "lang") = none := by decide
  rw [hnone] at hown
  cases hown

theorem others_set_cookies (res : Response) (cookies : CookieCollection) :
    (res.set_cookies cookies).headers_.others (text "Set-Cookie") =
      res.headers_.others (text "Set-Cookie") := by
  have hfold : ∀ (entries : List (Text × Cookie)) (msg : Message),
      (entries.foldl (fun msg e => msg.add_header (text "Set-Cookie") e.2.response_string)
        msg).headers_.others (text "Set-Cookie") = msg.headers_.others (text "Set-Cookie") := by
    intro entries
    induction entries with
    | nil => exact fun _ => rfl
    | cons e entries ih =>
      intro msg
      rw [List.foldl_cons, ih, msg.others_added]
  exact (hfold _ _).trans (res.others_removed _)

/-- A response keeps the cookies that are taken from it and set again, and its other headers, if in
each header with a cookie no semicolon is before the first equal sign. -/
theorem cookies_of_a_response_stay (res : Response)
    (h : ∀ header ∈ res.get_all_of_header (text "Set-Cookie"), Cookie.SignFirst header) :
    ∃ held, res.get_cookies = .ok held ∧ (res.set_cookies held).get_cookies = .ok held ∧
      (res.set_cookies held).headers_.others (text "Set-Cookie") =
        res.headers_.others (text "Set-Cookie") := by
  refine ⟨_, res.get_cookies_eq, ?_, res.others_set_cookies _⟩
  generalize hheaders : res.get_all_of_header (text "Set-Cookie") = headers at h
  have hprintable : ∀ cook ∈ (gathered (headers.filterMap Cookie.cookie_of)).cookies,
      cook.Printable := by
    intro cook hcook
    obtain ⟨header, hheader, hread⟩ := List.mem_filterMap.mp (mem_of_gathered hcook)
    exact Cookie.printable_cookie_of (h header hheader) hread
  rw [get_cookies_eq, get_all_of_set_cookies, hheaders, List.filterMap_append,
    cookies_of_response_strings hprintable]
  refine congrArg Except.ok ((gathered_append_iff (keyed_gathered _) _).mpr ?_)
  intro cook hcook
  obtain ⟨header, hheader, hread⟩ := List.mem_filterMap.mp hcook
  exact get_gathered_of_mem
    (List.mem_filterMap.mpr ⟨header, List.mem_of_mem_tail hheader, hread⟩)

theorem two_cookies_of_a_response_stay :
    ∃ held, two_set_cookies.get_cookies = .ok held ∧
      (two_set_cookies.set_cookies held).get_cookies = .ok held ∧
      (two_set_cookies.set_cookies held).headers_.others (text "Set-Cookie") =
        two_set_cookies.headers_.others (text "Set-Cookie") := by
  refine cookies_of_a_response_stay two_set_cookies ?_
  have hheaders : two_set_cookies.get_all_of_header (text "Set-Cookie") =
      [text "id=1; Path=/", text "lang=en; Secure"] := by decide
  rw [hheaders]
  unfold Cookie.SignFirst
  decide

end Response

end proxy.http
