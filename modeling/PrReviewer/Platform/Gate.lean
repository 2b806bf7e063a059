import PrReviewer.Js.Cut
import PrReviewer.Js.Except
import PrReviewer.Platform.SafeFetch

/-!
# The gate of the fetch

Every request that `fetchSource` makes is one that its checks let through (`Gated`), on every hop, whatever the
resolver and the exchanges answer.

The allowlist is checked with the host of one parser and the connection is made with the host of the other, on a
URL without its fragment. `AuthorityUrl` is the form of a URL that both agree on: the scheme, the authority and the
rest. Neither the host (`pyRequestTarget_fullUrl`) nor the netloc (`pyUrlsplit_fullUrl`) sees whether the fragment
is there.
-/

open Js List

namespace PrReviewer.Platform

/-! ## Cutting at a character -/

section Cut

variable {sep : Char} {cs before after : List Char}

theorem partition_append (h : sep ∉ before) (after : List Char) :
    partition sep (before ++ sep :: after) = (before, some after) := by
  rw [partition, takeWhile_ne_append h, dropWhile_ne_append h]
  rfl

theorem rpartition_append (before : List Char) (h : sep ∉ after) :
    rpartition sep (before ++ sep :: after) = (some before, after) :=
  cutAtLast_append before h

theorem rpartition_of_not_mem (h : sep ∉ cs) : rpartition sep cs = (none, cs) :=
  cutAtLast_of_not_mem h

/-- A text with the character is cut at its last one. -/
theorem exists_rpartition (h : sep ∈ cs) :
    ∃ before after, cs = before ++ sep :: after ∧ sep ∉ after ∧
      rpartition sep cs = (some before, after) :=
  exists_cutAtLast h

end Cut

/-! ## A URL and its authority -/

/-- `type://authority` and the rest. -/
def authorityUrl (type authority rest : List Char) : List Char :=
  type ++ ':' :: '/' :: '/' :: (authority ++ rest)

/-- What the pattern of a URL asks of its parts. -/
structure IsAuthorityUrl (type authority rest : List Char) : Prop where
  nonempty : type ≠ []
  type : ∀ c ∈ type, c ≠ '/' ∧ c ≠ ':'
  authority : ∀ c ∈ authority, isDelim c = false
  rest : ∀ c ∈ rest.head?, isDelim c = true

section AuthorityUrl

variable {type authority rest rest' : List Char} {t : UrlText}

theorem takeWhile_authority (h : IsAuthorityUrl type authority rest) :
    (authority ++ rest).takeWhile (!isDelim ·) = authority ∧
      (authority ++ rest).dropWhile (!isDelim ·) = rest := by
  have hall : ∀ c ∈ authority, (!isDelim c) = true := fun c hc => by rw [h.authority c hc]; rfl
  rw [takeWhile_append_of_pos hall, dropWhile_append_of_pos hall]
  cases rest with
  | nil => simp
  | cons c cs =>
    have hc := h.rest c rfl
    rw [takeWhile_cons_of_neg (by simpa using hc), dropWhile_cons_of_neg (by simpa using hc)]
    simp

theorem splitType_authorityUrl (h : IsAuthorityUrl type authority rest) :
    splitType (authorityUrl type authority rest) = some (type, '/' :: '/' :: (authority ++ rest)) := by
  have hall : ∀ c ∈ type, (c != '/' && c != ':') = true := fun c hc => by simp [h.type c hc]
  obtain ⟨c, cs, rfl⟩ := exists_cons_of_ne_nil h.nonempty
  rw [splitType, authorityUrl, takeWhile_append_of_pos hall, dropWhile_append_of_pos hall]
  simp

theorem splitHost_authorityUrl (h : IsAuthorityUrl type authority rest) :
    splitHost ('/' :: '/' :: (authority ++ rest)) = some (authority, rest) := by
  obtain ⟨htake, hdrop⟩ := takeWhile_authority h
  rw [splitHost, htake, hdrop]

/-- A URL that `splitType` and `splitHost` take apart has the form. -/
theorem exists_authorityUrl {cs rest' : List Char} (htype : splitType cs = some (type, rest'))
    (hhost : splitHost rest' = some (authority, rest)) :
    cs = authorityUrl type authority rest ∧ IsAuthorityUrl type authority rest := by
  unfold splitType at htype
  split at htype
  · next s ss rest'' htake hdrop =>
    cases htype
    unfold splitHost at hhost
    split at hhost
    · next after =>
      cases hhost
      have hcs := takeWhile_append_dropWhile (p := fun c => c != '/' && c != ':') (l := cs)
      rw [htake, hdrop] at hcs
      refine ⟨?_, cons_ne_nil _ _, fun c hc => ?_, fun c hc => ?_, fun c hc => ?_⟩
      · rw [authorityUrl, takeWhile_append_dropWhile, hcs]
      · rw [← htake] at hc
        simpa using mem_takeWhile_imp hc
      · simpa using mem_takeWhile_imp hc
      · have hnot := List.head?_dropWhile_not (fun c => !isDelim c) after
        cases hhead : (after.dropWhile (!isDelim ·)).head? with
        | none => rw [hhead] at hc; cases hc
        | some d =>
          rw [hhead] at hc hnot
          cases hc
          simpa using hnot
    · cases hhost
  · cases htype

theorem mem_authorityUrl (c : Char) : c ∈ authorityUrl type authority rest ↔
    c ∈ type ∨ c = ':' ∨ c = '/' ∨ c ∈ authority ∨ c ∈ rest := by
  simp only [authorityUrl, mem_append, mem_cons]
  tauto

/-- Without the `#` that begins the last fragment, and what follows it. -/
def fullUrlOf (cs : List Char) : List Char := ((rpartition '#' cs).1).getD cs

/-- A URL without its last fragment has the same scheme and authority. -/
theorem exists_fullUrlOf (h : IsAuthorityUrl type authority rest) (hhash : '#' ∉ type) :
    ∃ rest', fullUrlOf (authorityUrl type authority rest) = authorityUrl type authority rest' ∧
      IsAuthorityUrl type authority rest' ∧ rest' <+: rest := by
  have hauthority : '#' ∉ authority := fun hmem => by
    have := h.authority _ hmem
    exact absurd this (by decide)
  by_cases hrest : '#' ∈ rest
  · obtain ⟨before, after, hcut, hafter, -⟩ := exists_rpartition hrest
    have hurl : authorityUrl type authority rest =
        authorityUrl type authority before ++ '#' :: after := by simp [authorityUrl, hcut]
    refine ⟨before, ?_, ⟨h.nonempty, h.type, h.authority, fun c hc => ?_⟩, ?_⟩
    · rw [fullUrlOf, hurl, rpartition_append _ hafter]
      rfl
    · refine h.rest c ?_
      rw [hcut]
      cases before with
      | nil => cases hc
      | cons d ds => exact hc
    · exact ⟨'#' :: after, hcut.symm⟩
  · refine ⟨rest, ?_, h, prefix_refl rest⟩
    have hnot : '#' ∉ authorityUrl type authority rest := by
      rw [mem_authorityUrl]
      rintro (hmem | hmem | hmem | hmem | hmem)
      · exact hhash hmem
      · exact absurd hmem (by decide)
      · exact absurd hmem (by decide)
      · exact hauthority hmem
      · exact hrest hmem
    rw [fullUrlOf, rpartition_of_not_mem hnot]
    rfl

/-! ### The target of the connection -/

/-- The text is the target's URL: of the form, with a decoded authority that is a host and a port. -/
structure Targets (t : UrlText) (type authority rest : List Char) (target : PyRequestTarget) : Prop where
  form : IsAuthorityUrl type authority rest
  fullUrl : target.fullUrl = String.ofList (authorityUrl type authority rest)
  scheme : target.scheme = t.toLowerCase (String.ofList type)
  decoded : ∃ decoded, decodeURIComponent (String.ofList authority) = some decoded ∧
    '@' ∉ decoded.toList ∧ hostPort decoded.toList = some (target.host.toList, target.port)
  host : target.host.toList ≠ []
  path : target.path = String.ofList (if rest = [] then ['/'] else rest) ∧
    ∀ c ∈ rest, 0x21 ≤ c.toNat ∧ c.toNat ≤ 0x7E

variable {url : String} {target : PyRequestTarget} {protocol : Protocol}

theorem exists_targets
    (h : pyRequestTarget t url = some target) :
    ∃ type authority rest, fullUrlOf url.toList = authorityUrl type authority rest ∧
      Targets t type authority rest target := by
  rw [pyRequestTarget, Option.bind_eq_bind, Option.bind_eq_some_iff] at h
  obtain ⟨⟨type, rest'⟩, htype, h⟩ := h
  dsimp only at h
  rw [Option.bind_eq_bind, Option.bind_eq_some_iff] at h
  obtain ⟨⟨authority, rest⟩, hsplit, h⟩ := h
  dsimp only at h
  rw [Option.bind_eq_bind, Option.bind_eq_some_iff] at h
  obtain ⟨decoded, hdecoded, h⟩ := h
  obtain ⟨hurl, hform⟩ := exists_authorityUrl htype hsplit
  split at h
  · cases h
  · next hat =>
    rw [Option.bind_eq_some_iff] at h
    obtain ⟨⟨host, port⟩, hhost, h⟩ := h
    dsimp only at h
    split at h
    · cases h
    · next hne =>
      by_cases hpath : (if rest = [] then ['/'] else rest).all
          (fun c => decide (0x21 ≤ c.toNat) && decide (c.toNat ≤ 0x7E)) = true
      · rw [if_pos hpath] at h
        cases h
        refine ⟨type, authority, rest, hurl, hform, by rw [← hurl], rfl,
          ⟨decoded, hdecoded, by simpa using hat, by simpa using hhost⟩, by simpa using hne, rfl,
          fun c hc => ?_⟩
        rw [all_eq_true] at hpath
        have hmem : c ∈ if rest = [] then ['/'] else rest := by
          rw [if_neg (ne_nil_of_mem hc)]
          exact hc
        simpa using hpath c hmem
      · rw [if_neg hpath] at h
        cases h

theorem pyRequestTarget_of_targets
    (hurl : fullUrlOf url.toList = authorityUrl type authority rest)
    (h : Targets t type authority rest target) : pyRequestTarget t url = some target := by
  obtain ⟨decoded, hdecoded, hat, hhost⟩ := h.decoded
  have hpath : (if rest = [] then ['/'] else rest).all
      (fun c => decide (0x21 ≤ c.toNat) && decide (c.toNat ≤ 0x7E)) = true := by
    split
    · decide
    · rw [all_eq_true]
      exact fun c hc => by simpa using h.path.2 c hc
  rw [pyRequestTarget, ← fullUrlOf, hurl, splitType_authorityUrl h.form]
  simp only [Option.bind_eq_bind, Option.bind_some, splitHost_authorityUrl h.form, hdecoded]
  rw [if_neg (by simpa using hat), hhost]
  simp only [Option.bind_some]
  rw [if_neg h.host, if_pos hpath, String.ofList_toList, ← h.path.1, ← h.scheme, ← h.fullUrl]

/-- The target of a URL is the target of the URL that it is asked for with: the same host and port. -/
theorem pyRequestTarget_fullUrl
    (h : Targets t type authority rest target) (hhash : '#' ∉ type) :
    ∃ target', pyRequestTarget t target.fullUrl = some target' ∧ target'.scheme = target.scheme ∧
      target'.host = target.host ∧ target'.port = target.port := by
  obtain ⟨rest', hurl, hform, hfront⟩ := exists_fullUrlOf h.form hhash
  let target' : PyRequestTarget :=
    { target with
      fullUrl := String.ofList (authorityUrl type authority rest')
      path := String.ofList (if rest' = [] then ['/'] else rest') }
  have htarget : Targets t type authority rest' target' :=
    ⟨hform, rfl, h.scheme, h.decoded, h.host, rfl, fun c hc => h.path.2 c (hfront.subset hc)⟩
  refine ⟨target', pyRequestTarget_of_targets ?_ htarget, rfl, rfl, rfl⟩
  rw [h.fullUrl, String.toList_ofList, hurl]

/-! ### The netloc -/

/-- The characters that `cleaned` keeps behind the front of a text. -/
def withoutBreaks (cs : List Char) : List Char := cs.filter fun c => !(['\t', '\r', '\n'].contains c)

theorem cleaned_append (type rest : List Char) :
    cleaned (type ++ ':' :: rest) = cleaned type ++ ':' :: withoutBreaks rest := by
  have hcolon : (':' :: rest).dropWhile (fun c => decide (c.toNat ≤ 0x20)) = ':' :: rest :=
    dropWhile_cons_of_neg (by decide)
  rw [cleaned, cleaned, dropWhile_append]
  split
  · next hempty =>
    rw [hcolon, List.isEmpty_iff.mp hempty]
    rfl
  · rw [filter_append]
    rfl

theorem mem_of_mem_cleaned {c : Char} {cs : List Char} (h : c ∈ cleaned cs) : c ∈ cs :=
  (dropWhile_sublist _).subset (mem_filter.mp h).1

/-- A `#` is not cleaned away. -/
theorem hash_mem_cleaned {cs : List Char} (h : '#' ∈ cs) : '#' ∈ cleaned cs := by
  rw [cleaned, mem_filter]
  refine ⟨?_, by decide⟩
  rw [← takeWhile_append_dropWhile (p := fun c : Char => decide (c.toNat ≤ 0x20)) (l := cs),
    mem_append] at h
  refine h.resolve_left fun hmem => ?_
  exact absurd (mem_takeWhile_imp hmem) (by decide)

/-- The text before the colon is a scheme. -/
def IsScheme (type : List Char) : Prop :=
  ∃ c cs, cleaned type = c :: cs ∧ isLetter c = true ∧ (c :: cs).all isSchemeChar = true

theorem splitScheme_authorityUrl (h : IsAuthorityUrl type authority rest) (hscheme : IsScheme type) :
    splitScheme t (cleaned (authorityUrl type authority rest)) =
      (t.toLowerCase (String.ofList (cleaned type)),
        '/' :: '/' :: (withoutBreaks authority ++ withoutBreaks rest)) := by
  obtain ⟨c, cs, htype, hletter, hchars⟩ := hscheme
  have hcolon : ':' ∉ c :: cs := fun hmem => by
    rw [← htype] at hmem
    exact (h.type _ (mem_of_mem_cleaned hmem)).2 rfl
  have hrest : withoutBreaks ('/' :: '/' :: (authority ++ rest)) =
      '/' :: '/' :: (withoutBreaks authority ++ withoutBreaks rest) := by simp [withoutBreaks]
  rw [authorityUrl, cleaned_append, htype, splitScheme, partition_append hcolon, hrest]
  simp only [hletter, hchars]
  rfl

theorem isScheme_of_splitScheme (h : IsAuthorityUrl type authority rest)
    (hne : (splitScheme t (cleaned (authorityUrl type authority rest))).1 ≠ "") : IsScheme type := by
  have hcolon : ':' ∉ cleaned type := fun hmem => (h.type _ (mem_of_mem_cleaned hmem)).2 rfl
  rw [authorityUrl, cleaned_append, splitScheme, partition_append hcolon] at hne
  cases htype : cleaned type with
  | nil =>
    rw [htype] at hne
    exact absurd rfl hne
  | cons c cs =>
    rw [htype] at hne
    dsimp only at hne
    split at hne
    · next hvalid =>
      rw [Bool.and_eq_true] at hvalid
      exact ⟨c, cs, htype, hvalid.1, hvalid.2⟩
    · exact absurd rfl hne

/-- The rest of a URL does not show in its scheme and netloc. -/
theorem pyUrlsplit_authorityUrl (h : IsAuthorityUrl type authority rest) (hscheme : IsScheme type) :
    pyUrlsplit t (String.ofList (authorityUrl type authority rest)) =
      (checkAuthority t (withoutBreaks authority)).map fun _ =>
        ⟨t.toLowerCase (String.ofList (cleaned type)), withoutBreaks authority⟩ := by
  have hauthority : ∀ c ∈ withoutBreaks authority, isDelim c = false :=
    fun c hc => h.authority c (mem_filter.mp hc).1
  have hrest : ∀ c ∈ (withoutBreaks rest).head?, isDelim c = true := by
    cases rest with
    | nil => exact nofun
    | cons c cs =>
      have hc := h.rest c rfl
      have hkeep : withoutBreaks (c :: cs) = c :: withoutBreaks cs := by
        refine filter_cons_of_pos ?_
        simp only [isDelim, contains_iff_mem, mem_cons, not_mem_nil, or_false] at hc
        rcases hc with rfl | rfl | rfl <;> decide
      rw [hkeep]
      rintro d ⟨⟩
      exact hc
  obtain ⟨htake, -⟩ := takeWhile_authority ⟨h.nonempty, h.type, hauthority, hrest⟩
  rw [pyUrlsplit, String.toList_ofList, splitScheme_authorityUrl h hscheme]
  simp only [htake]

/-- The scheme that `pyUrlsplit` finds. -/
theorem pyUrlsplit_scheme {split : PySplitResult} (h : pyUrlsplit t url = .ok split) :
    split.scheme = (splitScheme t (cleaned url.toList)).1 := by
  rw [pyUrlsplit] at h
  split at h
  next scheme rest hsplit =>
    rw [hsplit]
    split at h
    · obtain ⟨_, -, rfl⟩ := Except.of_map_ok h
      rfl
    · cases h
      rfl

/-! ### Both parsers -/

/-- A URL without its fragment is the URL up to a rest. -/
theorem exists_rest_of_fullUrlOf {cs : List Char} (hurl : fullUrlOf cs = authorityUrl type authority rest)
    (h : IsAuthorityUrl type authority rest) :
    ∃ rest', cs = authorityUrl type authority rest' ∧ IsAuthorityUrl type authority rest' := by
  by_cases hhash : '#' ∈ cs
  · obtain ⟨before, after, hcut, -, hparts⟩ := exists_rpartition hhash
    rw [fullUrlOf, hparts] at hurl
    obtain rfl : before = authorityUrl type authority rest := hurl
    refine ⟨rest ++ '#' :: after, by simp [hcut, authorityUrl], h.nonempty, h.type, h.authority, ?_⟩
    cases rest with
    | nil =>
      rintro c ⟨⟩
      decide
    | cons c cs => exact h.rest
  · rw [fullUrlOf, rpartition_of_not_mem hhash] at hurl
    exact ⟨rest, hurl, h⟩

/-- Both parsers find the host in the URL, and there is no userinfo. -/
structure Connects (t : UrlText) (url : String) (protocol : Protocol) (host : String)
    (port : Option Nat) : Prop where
  split : ∃ netloc, pyUrlsplit t url = .ok ⟨protocol.scheme, netloc⟩ ∧ '@' ∉ netloc
  hostname : pyUrlHost t url = .ok (t.toLowerCase host)
  target : ∃ target, pyRequestTarget t url = some target ∧ target.scheme = protocol.scheme ∧
    target.host = host ∧ target.port = port

theorem protocol?_eq_some {scheme : String} (h : protocol? scheme = some protocol) :
    scheme = protocol.scheme := by
  have := List.find?_some h
  simpa using (of_decide_eq_true this).symm

theorem isPlain_at : IsPlain '@' := ⟨by decide, by decide⟩

/-- A URL that passes the checks leads to an allowed host, and so does what is asked for: the URL without its
fragment. -/
theorem connects_of_checkUrl {api : UrlApi} {allowed : List String} {host : String}
        (h : checkUrl api allowed url = some (host, protocol, target)) :
    host ≠ "" ∧ host ∈ allowed ∧ api.toLowerCase target.host = host ∧
      Connects api.toUrlText target.fullUrl protocol target.host target.port := by
  rw [checkUrl, Option.bind_eq_bind, Option.bind_eq_some_iff] at h
  obtain ⟨split, hsplit, h⟩ := h
  rw [Option.bind_eq_bind, Option.bind_eq_some_iff] at h
  obtain ⟨host', hhost, h⟩ := h
  rw [Option.bind_eq_bind, Option.bind_eq_some_iff] at h
  obtain ⟨protocol', hprotocol, h⟩ := h
  split at h
  · cases h
  · next hallowed =>
    rw [Option.bind_eq_bind, Option.bind_eq_some_iff] at h
    obtain ⟨target', htarget, h⟩ := h
    split at h
    · cases h
    · next hsame =>
      cases h
      rw [not_or, not_not] at hallowed
      rw [not_or, not_not, not_not] at hsame
      refine ⟨hallowed.1, hallowed.2, hsame.2, ?_⟩
      have hsplit := Except.of_toOption hsplit
      have hhost := Except.of_toOption hhost
      have hscheme := protocol?_eq_some hprotocol
      obtain ⟨type, authority, rest, hfull, htargets⟩ := exists_targets htarget
      obtain ⟨rest', hurl, hform⟩ := exists_rest_of_fullUrlOf hfull htargets.form
      have hurl' : url = String.ofList (authorityUrl type authority rest') := by
        rw [← hurl, String.ofList_toList]
      have hisScheme : IsScheme type := by
        refine isScheme_of_splitScheme (t := api.toUrlText) hform fun hempty => ?_
        rw [← hurl, ← pyUrlsplit_scheme hsplit, hscheme] at hempty
        revert hempty
        cases protocol <;> decide
      have hhash : '#' ∉ type := fun hmem => by
        obtain ⟨c, cs, hcleaned, -, hchars⟩ := hisScheme
        have hmem := hash_mem_cleaned hmem
        rw [hcleaned] at hmem
        exact absurd (all_eq_true.mp hchars _ hmem) (by decide)
      -- the URL that is asked for is split as the one that was checked
      have hsame_split : pyUrlsplit api.toUrlText target.fullUrl = pyUrlsplit api.toUrlText url := by
        rw [htargets.fullUrl, hurl', pyUrlsplit_authorityUrl htargets.form hisScheme,
          pyUrlsplit_authorityUrl hform hisScheme]
      obtain ⟨target'', htarget'', hscheme'', hhost'', hport''⟩ := pyRequestTarget_fullUrl htargets hhash
      refine ⟨⟨split.netloc, ?_, ?_⟩, ?_, target'', htarget'', ?_, hhost'', hport''⟩
      · rw [hsame_split, hsplit, ← hscheme]
      · intro hat
        rw [hurl', pyUrlsplit_authorityUrl hform hisScheme] at hsplit
        obtain ⟨_, -, rfl⟩ := Except.of_map_ok hsplit
        obtain ⟨decoded, hdecoded, hnot, -⟩ := htargets.decoded
        refine hnot (mem_of_decodeURIComponent isPlain_at hdecoded ?_)
        rw [String.toList_ofList]
        exact (mem_filter.mp hat).1
      · rw [pyUrlHost, pyUrlHostname, hsame_split, ← pyUrlHostname, ← pyUrlHost, hhost, hsame.2]
      · rw [hscheme'', hsame.1, hscheme]

end AuthorityUrl

/-! ## Hops -/

section Runs

variable {E : Type}

/-- The calls of a run so far. -/
abbrev Calls (E : Type) := List (Entry Call Call.Reply E)

/-- The addresses of a host: itself when it is a literal, or the whole answer, each address once, of a resolution
that has just been made. -/
def Resolved (host : String) (addresses : List String) (h : Calls E) : Prop :=
  ((parseIpLiteral host).isSome = true ∧ addresses = [host]) ∨
  ∃ (h' : Calls E) (answers : List String) (e : E),
    h = h' ++ [⟨.resolver host, .ok answers, e⟩] ∧ addresses = answers.eraseDups

/-- Whether the entry is a request. -/
def isExchange (entry : Entry Call Call.Reply E) : Bool :=
  match entry.call with
  | .exchange _ => true
  | .resolver _ => false

def exchanges (h : Calls E) : Nat := h.countP isExchange

variable {api : UrlApi} {options : FetchSourceOptions}

/-- A request that the checks let through, after the calls `h`. -/
structure Gated (api : UrlApi) (options : FetchSourceOptions) (h : Calls E) (request : ExchangeRequest) :
    Prop where
  allowed : api.toLowerCase request.host ∈ options.allowed api.toUrlText
  connects : Connects api.toUrlText request.url request.protocol request.host request.port
  nonempty : request.addresses ≠ []
  policy : ∀ address ∈ request.addresses, options.policy address = true
  resolved : Resolved (api.toLowerCase request.host) request.addresses h

/-- The calls that the fetch may make after the calls `h`. -/
def Allows (api : UrlApi) (options : FetchSourceOptions) (h : Calls E) : Call → Prop
  | .resolver _ => True
  | .exchange request => Gated api options h request ∧ exchanges h ≤ maxRedirects

variable {h : Calls E}

theorem resolvePublicAddresses_meets {G : Calls E → Call → Prop} {host : String} {policy : AddressPolicy}
    (hne : host ≠ "") (hG : ∀ h hostname, G h (.resolver hostname)) :
    (resolvePublicAddresses host policy).Meets G
      (fun h' result => exchanges h' = exchanges h ∧ ∀ addresses, result = some addresses →
        addresses ≠ [] ∧ (∀ address ∈ addresses, policy address = true) ∧
          Resolved host addresses h') h := by
  have hips : (resolveHostIps host).Meets G
      (fun h' ips => exchanges h' = exchanges h ∧ (ips ≠ [] → Resolved host ips h')) h := by
    unfold resolveHostIps
    rw [if_neg hne]
    split
    · next hliteral => exact ⟨rfl, fun _ => .inl ⟨hliteral, rfl⟩⟩
    · refine ⟨hG h host, fun reply e => ?_⟩
      have hcount : exchanges (h ++ [⟨.resolver host, reply, e⟩]) = exchanges h := by
        simp [exchanges, isExchange]
      cases reply with
      | error _ => exact ⟨hcount, fun hnil => absurd rfl hnil⟩
      | ok answers => exact ⟨hcount, fun _ => .inr ⟨h, answers, e, rfl, rfl⟩⟩
  refine hips.bind ?_
  rintro ips h' ⟨hcount, hresolved⟩
  refine ⟨hcount, fun addresses hsome => ?_⟩
  split at hsome
  · cases hsome
  · next hnil =>
    split at hsome
    · next hall =>
      cases hsome
      exact ⟨hnil, all_eq_true.mp hall, hresolved hnil⟩
    · cases hsome

theorem checkHop_meets {G : Calls E → Call → Prop} (url : String)
    (hG : ∀ h hostname, G h (.resolver hostname)) :
    (checkHop api (options.allowed api.toUrlText) options.policy url).Meets G
      (fun h' result => exchanges h' = exchanges h ∧
        ∀ hop, result = some hop → Gated api options h' (hop.request options)) h := by
  unfold checkHop
  split
  · exact ⟨rfl, nofun⟩
  · next host protocol target hcheck =>
    obtain ⟨hne, hallowed, hhost, hconnects⟩ := connects_of_checkUrl hcheck
    refine (resolvePublicAddresses_meets hne hG).bind ?_
    rintro result h' ⟨hcount, hresult⟩
    refine ⟨hcount, fun hop hsome => ?_⟩
    rw [Option.map_eq_some_iff] at hsome
    obtain ⟨addresses, rfl, rfl⟩ := hsome
    obtain ⟨hnil, hpolicy, hresolved⟩ := hresult addresses rfl
    exact ⟨by rw [Hop.request, hhost]; exact hallowed, hconnects, hnil, hpolicy,
      by rw [Hop.request, hhost]; exact hresolved⟩

/-! ## Runs -/

/-- What the fetch ends with after the calls `h`: nothing, or the body of a success within the cap. -/
def Fetched (options : FetchSourceOptions) (h : Calls E) (result : Option Bytes) : Prop :=
  result = none ∨
  ∃ (request : ExchangeRequest) (response : ExchangeResponse) (e : E),
    ⟨.exchange request, .ok response, e⟩ ∈ h ∧ 200 ≤ response.status ∧ response.status < 300 ∧
      Number.ofNat response.body.length ≤ options.cap.1 ∧ result = some response.body

theorem follow_meets {left : Nat} {visited : Map String Nat} {hop : Hop}
    (hgated : Gated api options h (hop.request options)) (hcount : exchanges h + left ≤ maxRedirects) :
    (follow api options left visited hop).Meets (Allows api options)
      (fun h' result => exchanges h' ≤ maxRedirects + 1 ∧ Fetched options h' result) h := by
  induction left using Nat.strongRecOn generalizing visited hop h with
  | ind left ih =>
    rw [follow.eq_def]
    refine ⟨⟨hgated, by omega⟩, fun reply e => ?_⟩
    have hafter : exchanges (h ++ [⟨.exchange (hop.request options), reply, e⟩]) = exchanges h + 1 := by
      simp [exchanges, isExchange]
    have hnone : ∀ h' : Calls E, exchanges h' ≤ exchanges h + 1 →
        exchanges h' ≤ maxRedirects + 1 ∧ Fetched options h' none :=
      fun h' hle => ⟨by omega, .inl rfl⟩
    cases reply with
    | error _ => exact hnone _ hafter.le
    | ok response =>
      dsimp only
      split
      · exact hnone _ hafter.le
      · next hsize =>
        split
        · next hsuccess =>
          refine ⟨by omega, .inr ⟨hop.request options, response, e,
            mem_append_right _ mem_cons_self, ?_⟩⟩
          simp only [ExchangeResponse.isSuccess, Bool.and_eq_true, decide_eq_true_eq] at hsuccess
          simp only [ExchangeResponse.isOversize, decide_eq_true_eq] at hsize
          refine ⟨hsuccess.1, hsuccess.2, ?_, rfl⟩
          have hlength := Number.not_isNaN_of_zero_le (Number.zero_le_ofNat response.body.length)
          exact (Number.le_iff_not_lt hlength options.cap.2).mpr hsize
        · split
          · exact hnone _ hafter.le
          · split
            · exact hnone _ hafter.le
            · next next hnext =>
              split
              · exact hnone _ hafter.le
              · next left =>
                refine (checkHop_meets next fun _ _ => trivial).bind ?_
                rintro result h' ⟨hcount', hresult⟩
                cases result with
                | none => exact hnone _ (by omega)
                | some hop' =>
                  dsimp only
                  split
                  · exact hnone _ (by omega)
                  · exact ih left (by omega) (hresult hop' rfl) (by omega)

theorem fetchSource_meets (api : UrlApi) (options : FetchSourceOptions) (url : String) :
    (fetchSource api options url).Meets (E := E) (Allows api options)
      (fun h result => exchanges h ≤ maxRedirects + 1 ∧ Fetched options h result) [] := by
  refine (checkHop_meets url fun _ _ => trivial).bind ?_
  rintro result h ⟨hcount, hresult⟩
  have hzero : exchanges h = 0 := hcount
  cases result with
  | none => exact ⟨by omega, .inl rfl⟩
  | some hop => exact follow_meets (hresult hop rfl) (by omega)

/-- The lookup hook answers for the expected host only, and with pinned addresses only. -/
theorem pinnedLookup_spec (t : UrlText) (expectedHost : String) (addresses : List String)
    (isAllowed : AddressPolicy) (hostname : String) (family : FamilyOption) (all : Bool) :
    let answer := pinnedLookup t expectedHost addresses isAllowed hostname family all
    (∃ message, answer = .failed message) ∨
      (t.toLowerCase hostname = t.toLowerCase expectedHost ∧
        ∀ address ∈ answer.addresses, address ∈ addresses ∧ isAllowed address = true) := by
  dsimp only
  unfold pinnedLookup
  split
  · exact .inl ⟨_, rfl⟩
  · next hhost =>
    dsimp only
    have hmem : ∀ address,
        address ∈ (((addresses.filter isAllowed).filter fun a =>
          family.wanted == 0 || familyOf a == family.wanted).map
            fun a => (a, familyOf a)).map Prod.fst → address ∈ addresses ∧ isAllowed address = true := by
      intro address hmem
      simp only [map_map, mem_map, mem_filter, Function.comp_apply] at hmem
      obtain ⟨a, ⟨⟨ha, hallowed⟩, -⟩, rfl⟩ := hmem
      exact ⟨ha, hallowed⟩
    split
    · exact .inl ⟨_, rfl⟩
    · next candidate rest hcandidates =>
      split
      · exact .inl ⟨_, rfl⟩
      · refine .inr ⟨not_not.mp hhost, fun address haddress => hmem address ?_⟩
        cases all with
        | true => exact haddress
        | false =>
          obtain rfl : address = candidate.1 := mem_singleton.mp haddress
          rw [hcandidates]
          exact mem_cons_self

/-- For every URL, allowlist, policy, resolver and exchange (the service `w` answers each call as it likes): every
request is gated by the resolution just before it; a lookup hook built from it answers for its host only, and
with its addresses only; there are at most `maxRedirects + 1` requests; and the result is nothing or the body of
a success within the cap. -/
theorem fetchSource_gated (api : UrlApi) (options : FetchSourceOptions) (url : String)
    (w : Service Call Call.Reply E) :
    let run := (fetchSource api options url).trace w []
    (∀ pre request reply e post, run = pre ++ ⟨.exchange request, reply, e⟩ :: post →
      Gated api options pre request ∧
      ∀ hostname family all,
        let answer := pinnedLookup api.toUrlText request.host request.addresses options.policy hostname
          family all
        (∃ message, answer = .failed message) ∨
          (api.toLowerCase hostname = api.toLowerCase request.host ∧
            ∀ address ∈ answer.addresses, address ∈ request.addresses)) ∧
    exchanges run ≤ maxRedirects + 1 ∧
    Fetched options run ((fetchSource api options url).result w []) := by
  have hmeets := fetchSource_meets (E := E) api options url
  have hresult := hmeets.result w
  rw [nil_append] at hresult
  refine ⟨fun pre request reply e post hrun => ⟨?_, fun hostname family all => ?_⟩, hresult.1, hresult.2⟩
  · have hallowed := hmeets.obeys.allowed_of_trace hrun
    rw [nil_append] at hallowed
    exact hallowed.1
  · exact (pinnedLookup_spec api.toUrlText request.host request.addresses options.policy hostname family
      all).imp_right fun h => ⟨h.1, fun address haddress => (h.2 address haddress).1⟩

end Runs

/-! ## Letter case -/

/-- Lower case of ASCII letters, and no other Unicode. -/
def asciiApi : UrlApi where
  toLowerCase s := String.ofList (s.toList.map Char.toLower)
  normalize := id
  join _ _ := none

/-- Every name resolves to one public address, and every exchange fails. -/
def oneAddress : Service Call Call.Reply Unit
  | _, .resolver _ => (.ok ["104.16.1.1"], ())
  | _, .exchange _ => (.error (error "closed"), ())

/-- The host of a request is the one that the URL writes: its lower-cased form is in the allowlist, itself it is
not. -/
theorem host_not_allowed :
    ∃ pre request reply post,
      (fetchSource asciiApi ⟨some ["artifacthub.io"], none, none, none⟩ "https://ArtifactHub.io/x").trace
        oneAddress [] = pre ++ ⟨.exchange request, reply, ()⟩ :: post ∧
      request.host ∉ (⟨some ["artifacthub.io"], none, none, none⟩ : FetchSourceOptions).allowed
        asciiApi.toUrlText := by
  have hallowed : (⟨some ["artifacthub.io"], none, none, none⟩ : FetchSourceOptions).allowed
      asciiApi.toUrlText = ["artifacthub.io"] := by decide +kernel
  have hcheck : checkUrl asciiApi ["artifacthub.io"] "https://ArtifactHub.io/x" =
      some ("artifacthub.io", .https,
        ⟨"https://ArtifactHub.io/x", "https", "ArtifactHub.io", none, "/x"⟩) := by
    decide +kernel
  have hliteral : parseIpLiteral "artifacthub.io" = none := by decide +kernel
  have hpublic : isPublicAddress "104.16.1.1" = true := by decide +kernel
  simp only [hallowed, fetchSource, checkHop, hcheck]
  refine ⟨[⟨.resolver "artifacthub.io", .ok ["104.16.1.1"], ()⟩],
    Hop.request ⟨some ["artifacthub.io"], none, none, none⟩
      ⟨⟨"https://ArtifactHub.io/x", "https", "ArtifactHub.io", none, "/x"⟩, .https, ["104.16.1.1"]⟩,
    .error (error "closed"), [], ?_, by decide⟩
  have hips : ["104.16.1.1"].eraseDups = ["104.16.1.1"] := by decide
  simp only [resolvePublicAddresses, resolveHostIps, hliteral, Pending.bind, Pending.trace, oneAddress,
    FetchSourceOptions.policy, hips, hpublic, String.reduceEq, Option.isSome_none, Bool.false_eq_true,
    reduceIte, reduceCtorEq, Option.getD_none, all_cons, all_nil, Bool.and_true,
    Option.map_some]
  rw [follow.eq_def]
  rfl

end PrReviewer.Platform
