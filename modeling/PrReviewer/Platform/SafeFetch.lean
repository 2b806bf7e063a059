import PrReviewer.Js.Async
import PrReviewer.Js.Bytes
import PrReviewer.Platform.PyUrl

/-!
# The fetch of linked sources

`src/platform/safe-fetch.ts`: `fetchSource` and its gate (`checkHop`), and the lookup hook of the real transport
(`pinnedLookup`). The resolver and the exchange are calls of an outside service: each may answer anything, or
throw, every time.

`new URL(url, base)` is a parameter (`UrlApi.join`). The bytes that a caller allows are a number (`ByteCap`). The
abort signal is left out.
-/

open Js

namespace PrReviewer.Platform

structure UrlApi extends UrlText where
  /-- `new URL(url, base).href`, or `none` where it throws. -/
  join : String → String → Option String

def userAgent : String := "ai-pr-reviewer/1.0"

def defaultFetchHosts : List String :=
  ["github.com", "gitlab.com", "registry.terraform.io", "artifacthub.io"]

def sourceFetchTimeoutMs : Number := 25000

abbrev ByteCap := { cap : Number // cap.isNaN = false }

def maxSourceBytes : ByteCap := ⟨5242880, by decide⟩

def maxRedirects : Nat := 10

def maxRepeats : Nat := 4

abbrev AddressPolicy := String → Bool

inductive Protocol where
  | http
  | https
  deriving DecidableEq

/-- The scheme of a URL with this protocol. -/
def Protocol.scheme : Protocol → String
  | .http => "http"
  | .https => "https"

structure ExchangeRequest where
  url : String
  protocol : Protocol
  /-- The host of the connection. -/
  host : String
  port : Option Nat
  /-- The target of the request line. -/
  path : String
  /-- What the connection is pinned to. -/
  addresses : List String
  headers : List (String × String)
  timeoutMs : Number
  maxBytes : ByteCap

structure ExchangeResponse where
  status : Number
  location : Option String
  uri : Option String
  body : Bytes

inductive Call where
  | resolver (hostname : String)
  | exchange (request : ExchangeRequest)

def Call.Reply : Call → Type
  | .resolver _ => List String
  | .exchange _ => ExchangeResponse

/-! ## Addresses -/

/-- A literal stands for itself; otherwise the answers of the resolver, each once, and none where it throws. -/
def resolveHostIps (host : String) : Pending Call Call.Reply (List String) :=
  if host = "" then .done []
  else if (parseIpLiteral host).isSome then .done [host]
  else .await (.resolver host) fun
    | .ok (answers : List String) => .done answers.eraseDups
    | .error _ => .done []

/-- The addresses to pin, when there are some and all are allowed. -/
def resolvePublicAddresses (host : String) (isAllowed : AddressPolicy) :
    Pending Call Call.Reply (Option (List String)) :=
  (resolveHostIps host).bind fun ips =>
    .done (if ips = [] then none else if ips.all isAllowed then some ips else none)

/-- The family of an address: 4 or 6. -/
def familyOf (address : String) : Nat :=
  match parseIpLiteral address with
  | some (.v6, _) => 6
  | _ => 4

inductive FamilyOption where
  | unset
  | number (n : Nat)
  | ipv4
  | ipv6

/-- The wanted family, `0` for any. -/
def FamilyOption.wanted : FamilyOption → Nat
  | .unset => 0
  | .number n => n
  | .ipv4 => 4
  | .ipv6 => 6

inductive LookupAnswer where
  | failed (message : String)
  | all (candidates : List (String × Nat))
  | one (address : String) (family : Nat)

/-- The addresses of an answer. -/
def LookupAnswer.addresses : LookupAnswer → List String
  | .failed _ => []
  | .all candidates => candidates.map Prod.fst
  | .one address _ => [address]

/-- The `lookup` hook of the socket. -/
def pinnedLookup (t : UrlText) (expectedHost : String) (addresses : List String)
    (isAllowed : AddressPolicy) (hostname : String) (family : FamilyOption) (all : Bool) :
    LookupAnswer :=
  if t.toLowerCase hostname ≠ t.toLowerCase expectedHost then
    .failed ("lookup for unexpected host " ++ hostname)
  else
    let isWanted (address : String) : Bool := family.wanted == 0 || familyOf address == family.wanted
    let candidates := ((addresses.filter isAllowed).filter isWanted).map fun address =>
      (address, familyOf address)
    match candidates with
    | [] => .failed ("no validated address for " ++ hostname)
    | candidate :: _ =>
      if candidates.length ≠ (addresses.filter isWanted).length then
        .failed ("no validated address for " ++ hostname)
      else if all then .all candidates
      else .one candidate.1 candidate.2

/-! ## Hops -/

/-- `code.toString(16).toUpperCase().padStart(2, "0")`. -/
def hexByte (code : Nat) : List Char :=
  let digits := (Nat.toDigits 16 code).map Char.toUpper
  List.replicate (2 - digits.length) '0' ++ digits

/-- `urllib.parse.quote` of a latin-1 header value; `none` beyond latin-1. -/
def pyQuoteLatin1 (text : List Char) : Option String :=
  if text.all (fun c => decide (c.toNat ≤ 0xFF)) then
    some (String.ofList (text.flatMap fun c =>
      if 0x21 ≤ c.toNat && c.toNat ≤ 0x7E then [c] else '%' :: hexByte c.toNat))
  else none

structure Hop where
  target : PyRequestTarget
  protocol : Protocol
  addresses : List String

/-- `scheme === "http" || scheme === "https"`, with the protocol. -/
def protocol? (scheme : String) : Option Protocol :=
  [Protocol.http, .https].find? (·.scheme = scheme)

/-- The checks of a hop before its resolution: the host to resolve and the target. -/
def checkUrl (api : UrlApi) (allowed : List String) (url : String) :
    Option (String × Protocol × PyRequestTarget) := do
  let split ← (pyUrlsplit api.toUrlText url).toOption
  let host ← (pyUrlHost api.toUrlText url).toOption
  let protocol ← protocol? split.scheme
  if host = "" ∨ host ∉ allowed then none
  else
    let target ← pyRequestTarget api.toUrlText url
    if target.scheme ≠ split.scheme ∨ api.toLowerCase target.host ≠ host then none
    else some (host, protocol, target)

/-- Scheme, host, allowlist and addresses of one hop. -/
def checkHop (api : UrlApi) (allowed : List String) (policy : AddressPolicy) (url : String) :
    Pending Call Call.Reply (Option Hop) :=
  match checkUrl api allowed url with
  | none => .done none
  | some (host, protocol, target) =>
    (resolvePublicAddresses host policy).bind fun addresses =>
      .done (addresses.map fun addresses => ⟨target, protocol, addresses⟩)

/-! ## The fetch -/

structure FetchSourceOptions where
  allowedHosts : Option (List String)
  timeoutMs : Option Number
  maxBytes : Option ByteCap
  addressPolicy : Option AddressPolicy

namespace FetchSourceOptions

variable (options : FetchSourceOptions)

/-- The lower-cased allowlist. -/
def allowed (t : UrlText) : List String := (options.allowedHosts.getD defaultFetchHosts).map t.toLowerCase

def policy : AddressPolicy := options.addressPolicy.getD isPublicAddress

def cap : ByteCap := options.maxBytes.getD maxSourceBytes

end FetchSourceOptions

/-- The request of a hop. -/
def Hop.request (options : FetchSourceOptions) (hop : Hop) : ExchangeRequest where
  url := hop.target.fullUrl
  protocol := hop.protocol
  host := hop.target.host
  port := hop.target.port
  path := hop.target.path
  addresses := hop.addresses
  headers := [("User-Agent", userAgent), ("Accept-Encoding", "identity"), ("Connection", "close")]
  timeoutMs := options.timeoutMs.getD sourceFetchTimeoutMs
  maxBytes := options.cap

namespace ExchangeResponse

def isOversize (response : ExchangeResponse) (cap : ByteCap) : Bool :=
  decide (cap.1 < Number.ofNat response.body.length)

def isSuccess (response : ExchangeResponse) : Bool :=
  decide (200 ≤ response.status) && decide (response.status < 300)

def isRedirect (response : ExchangeResponse) : Bool :=
  [301, 302, 303, 307, 308].any (response.status == ·)

end ExchangeResponse

/-- The URL that a redirect leads to from `base`. -/
def redirectTarget (api : UrlApi) (base : String) (response : ExchangeResponse) : Option String := do
  let location ← response.location.or response.uri
  let split ← (pyUrlsplit api.toUrlText location).toOption
  if split.scheme ∈ ["http", "https", ""] then
    let quoted ← pyQuoteLatin1 (cleaned location.toList)
    api.join quoted base
  else none

/-- The loop: `left` redirects may still be followed, `visited` counts those that were, by their URL. -/
def follow (api : UrlApi) (options : FetchSourceOptions) (left : Nat) (visited : Map String Nat)
    (hop : Hop) : Pending Call Call.Reply (Option Bytes) :=
  .await (.exchange (hop.request options)) fun
    | .error _ => .done none
    | .ok (response : ExchangeResponse) =>
      if response.isOversize options.cap then .done none
      else if response.isSuccess then .done (some response.body)
      else if !response.isRedirect then .done none
      else
        match redirectTarget api hop.target.fullUrl response with
        | none => .done none
        | some next =>
          match left with
          | 0 => .done none
          | left + 1 =>
            (checkHop api (options.allowed api.toUrlText) options.policy next).bind fun
              | none => .done none
              | some hop =>
                let seen := (visited.get? next).getD 0
                if maxRepeats ≤ seen then .done none
                else follow api options left (visited.set next (seen + 1)) hop

/-- The body of a source, or `none` on any failure. -/
def fetchSource (api : UrlApi) (options : FetchSourceOptions) (url : String) :
    Pending Call Call.Reply (Option Bytes) :=
  (checkHop api (options.allowed api.toUrlText) options.policy url).bind fun
    | none => .done none
    | some hop => follow api options maxRedirects .empty hop

end PrReviewer.Platform
