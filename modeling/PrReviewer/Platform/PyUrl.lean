import PrReviewer.Js.Uri
import PrReviewer.Platform.IpPolicy

/-!
# URLs as CPython takes them apart

`src/platform/py-url.ts`. The fetch asks two parsers for the host of a URL: `pyUrlsplit` (`urllib.parse`), which
the allowlist is checked with, and `pyRequestTarget` (`urllib.request`), which the connection is made with.

`toLowerCase` and `normalize("NFKC")` are parameters (`UrlText`): nothing is asked of them.
-/

open Js

namespace PrReviewer.Platform

/-- The Unicode operations of strings. -/
structure UrlText where
  toLowerCase : String → String
  /-- `normalize("NFKC")`. -/
  normalize : String → String

/-! ## Cutting -/

/-- `partition`: the text before the first `sep`, and the text after it if there is one. -/
def partition (sep : Char) (cs : List Char) : List Char × Option (List Char) :=
  (cs.takeWhile (· != sep), (cs.dropWhile (· != sep)).tail?)

/-- `rpartition`: the text before the last `sep` if there is one, and the text after it. -/
def rpartition (sep : Char) (cs : List Char) : Option (List Char) × List Char :=
  ((cs.reverse.dropWhile (· != sep)).tail?.map List.reverse, (cs.reverse.takeWhile (· != sep)).reverse)

/-- `text.lastIndexOf(c)`, which is `-1` where there is none. -/
def lastIndexOf (c : Char) (cs : List Char) : Int :=
  match (rpartition c cs).1 with
  | some before => before.length
  | none => -1

/-! ## `urllib.parse` -/

/-- `/^v[a-fA-F0-9]+\.[\s\S]+$/`. -/
def isIpFuture : List Char → Bool
  | 'v' :: cs =>
    !(cs.takeWhile fun c => (Json.hexValue c).isSome).isEmpty &&
      match cs.dropWhile fun c => (Json.hexValue c).isSome with
      | '.' :: _ :: _ => true
      | _ => false
  | _ => false

/-- A `PyUrlValueError`. -/
def valueError {α : Type} (message : String) : Except String α := .error ("ValueError: " ++ message)

def checkBracketedHost (hostname : List Char) : Except String Unit :=
  if hostname.head? = some 'v' then
    if isIpFuture hostname then .ok () else valueError "IPvFuture address is invalid"
  else
    match parseIpLiteral (String.ofList hostname) with
    | none => valueError
        ("'" ++ String.ofList hostname ++ "' does not appear to be an IPv4 or IPv6 address")
    | some (.v4, _) => valueError "An IPv4 address cannot be in brackets"
    | some (.v6, _) => .ok ()

def checkBracketedNetloc (netloc : List Char) : Except String Unit :=
  let hostAndPort := (rpartition '@' netloc).2
  match partition '[' hostAndPort with
  | (before, some bracketed) =>
    if before ≠ [] then valueError "Invalid IPv6 URL"
    else
      let (host, port) := partition ']' bracketed
      if (port.getD []) ≠ [] ∧ (port.getD []).head? ≠ some ':' then valueError "Invalid IPv6 URL"
      else checkBracketedHost host
  | (_, none) => checkBracketedHost (partition ':' hostAndPort).1

def checkNetloc (t : UrlText) (netloc : List Char) : Except String Unit :=
  if netloc.all (fun c => decide (c.toNat ≤ 0x7F)) then .ok ()
  else
    let n := String.ofList (netloc.filter fun c => !(['@', ':', '#', '?'].contains c))
    let normalized := t.normalize n
    if n = normalized then .ok ()
    else if ['/', '?', '#', '@', ':'].any normalized.toList.contains then
      valueError ("netloc '" ++ String.ofList netloc ++
        "' contains invalid characters under NFKC normalization")
    else .ok ()

structure PySplitResult where
  scheme : String
  netloc : List Char

/-- `url.replace(/^[\x00-\x20]+/, "").replace(/[\t\r\n]/g, "")`. -/
def cleaned (cs : List Char) : List Char :=
  (cs.dropWhile fun c => decide (c.toNat ≤ 0x20)).filter fun c => !(['\t', '\r', '\n'].contains c)

def isLetter (c : Char) : Bool := ('a' ≤ c && c ≤ 'z') || ('A' ≤ c && c ≤ 'Z')

/-- `SCHEME_CHARS`, one character. -/
def isSchemeChar (c : Char) : Bool := isLetter c || isDigit c || ['+', '-', '.'].contains c

/-- The scheme of a URL, and the rest behind its colon; no scheme where the text before the colon is none. -/
def splitScheme (t : UrlText) (url : List Char) : String × List Char :=
  match partition ':' url with
  | (c :: cs, some rest) =>
    if isLetter c && (c :: cs).all isSchemeChar then (t.toLowerCase (String.ofList (c :: cs)), rest)
    else ("", url)
  | _ => ("", url)

/-- What ends an authority. -/
def isDelim (c : Char) : Bool := ['/', '?', '#'].contains c

/-- The checks on a netloc. -/
def checkAuthority (t : UrlText) (netloc : List Char) : Except String Unit :=
  if netloc.contains '[' != netloc.contains ']' then valueError "Invalid IPv6 URL"
  else
    (if netloc.contains '[' then checkBracketedNetloc netloc else .ok ()).bind fun _ =>
      checkNetloc t netloc

/-- `urllib.parse.urlsplit`, its scheme and netloc. -/
def pyUrlsplit (t : UrlText) (input : String) : Except String PySplitResult :=
  let (scheme, rest) := splitScheme t (cleaned input.toList)
  match rest with
  | '/' :: '/' :: cs =>
    let netloc := cs.takeWhile (!isDelim ·)
    (checkAuthority t netloc).map fun _ => ⟨scheme, netloc⟩
  | _ => .ok ⟨scheme, []⟩

/-- `urlparse(url).hostname`: lowercased, but for the zone id. -/
def hostnameOf (t : UrlText) (netloc : List Char) : Option String :=
  let hostinfo := (rpartition '@' netloc).2
  let hostname := match (partition '[' hostinfo).2 with
    | some bracketed => (partition ']' bracketed).1
    | none => (partition ':' hostinfo).1
  if hostname = [] then none
  else
    let (host, zone) := partition '%' hostname
    some (t.toLowerCase (String.ofList host) ++
      match zone with
      | some zone => "%" ++ String.ofList zone
      | none => "")

def pyUrlHostname (t : UrlText) (url : String) : Except String (Option String) :=
  (pyUrlsplit t url).map fun r => hostnameOf t r.netloc

/-- `_url_host(url)`: `""` where there is no host. -/
def pyUrlHost (t : UrlText) (url : String) : Except String String :=
  (pyUrlHostname t url).map fun hostname => t.toLowerCase (hostname.getD "")

/-! ## `urllib.request` -/

structure PyRequestTarget where
  /-- The URL without its last `#fragment`. -/
  fullUrl : String
  scheme : String
  /-- The host of the connection, without brackets. -/
  host : String
  port : Option Nat
  /-- The target of the request line. -/
  path : String
  deriving DecidableEq

/-- `/^([^/:]+):([\s\S]*)$/`. -/
def splitType (cs : List Char) : Option (List Char × List Char) :=
  match cs.takeWhile (fun c => c != '/' && c != ':'), cs.dropWhile (fun c => c != '/' && c != ':') with
  | s :: ss, ':' :: rest => some (s :: ss, rest)
  | _, _ => none

/-- `/^\/\/([^/#?]*)([\s\S]*)$/`. -/
def splitHost : List Char → Option (List Char × List Char)
  | '/' :: '/' :: cs => some (cs.takeWhile (!isDelim ·), cs.dropWhile (!isDelim ·))
  | _ => none

/-- The host and port of a decoded authority. -/
def hostPort (host : List Char) : Option (List Char × Option Nat) :=
  let unbracketed (host : List Char) : List Char :=
    if host.head? = some '[' ∧ host.getLast? = some ']' then (host.drop 1).dropLast else host
  if lastIndexOf ']' host < lastIndexOf ':' host then
    let portText := (rpartition ':' host).2
    let host := unbracketed ((rpartition ':' host).1.getD [])
    if portText = [] then some (host, none)
    else if portText.all isDigit ∧ decimal portText ≤ 65535 then some (host, some (decimal portText))
    else none
  else some (unbracketed host, none)

def pyRequestTarget (t : UrlText) (url : String) : Option PyRequestTarget := do
  let fullUrl := ((rpartition '#' url.toList).1).getD url.toList
  let (type, rest) ← splitType fullUrl
  let (authority, selector) ← splitHost rest
  let decoded ← decodeURIComponent (String.ofList authority)
  if decoded.toList.contains '@' then none
  else
    let (host, port) ← hostPort decoded.toList
    if host = [] then none
    else
      let path := if selector = [] then ['/'] else selector
      if path.all (fun c => decide (0x21 ≤ c.toNat) && decide (c.toNat ≤ 0x7E)) then
        some ⟨String.ofList fullUrl, t.toLowerCase (String.ofList type), String.ofList host, port,
          String.ofList path⟩
      else none

end PrReviewer.Platform
