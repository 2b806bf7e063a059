import PrReviewer.Js.Except
import PrReviewer.Js.Map
import PrReviewer.Js.Value

/-!
# The secret vault

`src/credentials/vault.ts`. An entry is checked and copied when the vault is built
(`validateVaultEntry`, `InMemorySecretVault.new`). A record is never taken out of the map and never replaced
by another, so the record that a resolution holds across its `await` is the one the map has at its reference.

`resolve` runs in one step up to its answer or up to the refresh that it awaits (`resolve`); what it does when
the refresh has settled is `refreshed`. Between the two, anything may happen to the vault. An answer is given
in the step that runs the `return` statement.

A clock reading is a number (`Instant`), any one: nothing is asked of two readings.

What a stored secret is bound to (`SecretScope`), what a resolution asks for (`ResolutionRequest`), the
material that is handed out (`SecretMaterial`), and the grammars of references and profile names are those of
`src/credentials/types.ts`. Worker credential plans are not modelled here.
-/

open Js

namespace PrReviewer.Credentials

/-! ## References, scopes and material -/

inductive SecretPurpose where
  | forgeClone
  | forgePublish
  | model
  | evidence
  | resultChannel
  deriving DecidableEq

def SecretPurpose.text : SecretPurpose → String
  | .forgeClone => "forge_clone"
  | .forgePublish => "forge_publish"
  | .model => "model"
  | .evidence => "evidence"
  | .resultChannel => "result_channel"

/-- `isSecretPurpose`, with the purpose. -/
def isSecretPurpose : Value → Option SecretPurpose
  | .string s =>
    [SecretPurpose.forgeClone, .forgePublish, .model, .evidence, .resultChannel].find? (·.text = s)
  | _ => none

/-- `"" | "github" | "forgejo"`. -/
inductive PlatformName where
  | blank
  | github
  | forgejo
  deriving DecidableEq

def PlatformName.text : PlatformName → String
  | .blank => ""
  | .github => "github"
  | .forgejo => "forgejo"

/-- `isPlatformName`, with the platform. -/
def isPlatformName : Value → Option PlatformName
  | .string s => [PlatformName.blank, .github, .forgejo].find? (·.text = s)
  | _ => none

/-- The dimensions a stored credential is bound to or declared unscoped on. -/
inductive ScopeDimension where
  | platform
  | installationId
  | repoFullName
  | profileName
  deriving DecidableEq

def ScopeDimension.text : ScopeDimension → String
  | .platform => "platform"
  | .installationId => "installationId"
  | .repoFullName => "repoFullName"
  | .profileName => "profileName"

/-- `isScopeDimension`, with the dimension. -/
def isScopeDimension : Value → Option ScopeDimension
  | .string s =>
    [ScopeDimension.platform, .installationId, .repoFullName, .profileName].find? (·.text = s)
  | _ => none

structure SecretMaterial where
  value : String
  /-- Epoch milliseconds; `0` when the material does not expire. -/
  expiresAtMs : Number

structure SecretScope where
  platform : PlatformName
  installationId : String
  repoFullName : String
  profileName : String
  purpose : SecretPurpose
  unscopedDimensions : List ScopeDimension

/-- The field of a dimension. -/
def SecretScope.field (scope : SecretScope) : ScopeDimension → String
  | .platform => scope.platform.text
  | .installationId => scope.installationId
  | .repoFullName => scope.repoFullName
  | .profileName => scope.profileName

structure ResolutionRequest where
  purpose : SecretPurpose
  platform : PlatformName
  installationId : String
  repoFullName : String
  profileName : String

def ResolutionRequest.field (request : ResolutionRequest) : ScopeDimension → String
  | .platform => request.platform.text
  | .installationId => request.installationId
  | .repoFullName => request.repoFullName
  | .profileName => request.profileName

inductive ResolutionRefusalCode where
  | unknownReference
  | expired
  | revoked
  | scopeMismatch
  | invalidRequest
  deriving DecidableEq

inductive ResolveResult where
  | ok (material : SecretMaterial)
  | refused (code : ResolutionRefusalCode) (reason : String)

/-! ## Grammars -/

/-- `[A-Za-z0-9]`. -/
def isAlnum (c : Char) : Bool := isDigit c || ('a' ≤ c && c ≤ 'z') || ('A' ≤ c && c ≤ 'Z')

/-- `/^[A-Za-z0-9][p]{0,n}$/` for a character class `p`. -/
def isName (p : Char → Bool) (n : Nat) (s : String) : Bool :=
  match s.toList with
  | [] => false
  | c :: cs => isAlnum c && decide (cs.length ≤ n) && cs.all p

/-- `CREDENTIAL_REF_RE`. -/
def matchesCredentialRef (s : String) : Bool := isName (fun c => isTokenChar c || c == ':') 127 s

/-- `PROFILE_NAME_RE`. -/
def matchesProfileName (s : String) : Bool := isName isTokenChar 63 s

def isValidProfileName (value : String) : Bool := value == "" || matchesProfileName value

/-- `/^head[p]{n,}/` for a text `head` and a character class `p`. -/
def startsLike (head : String) (p : Char → Bool) (n : Nat) (s : String) : Bool :=
  head.toList.isPrefixOf s.toList &&
    decide (n ≤ ((s.toList.drop head.toList.length).takeWhile p).length)

def isSecretShapedValue (value : String) : Bool :=
  startsLike "ghp_" isAlnum 10 value ||
  startsLike "github_pat_" (fun c => isAlnum c || c == '_') 10 value ||
  startsLike "sk-" (fun c => isAlnum c || c == '_' || c == '-') 10 value ||
  ["xoxb-", "xoxa-", "xoxp-", "xoxr-", "xoxs-"].any (fun head => startsLike head isAlnum 0 value) ||
  startsLike "glpat-" isAlnum 0 value ||
  startsLike "Bearer" isSpace 1 value ||
  startsLike "Basic" isSpace 1 value

def isValidCredentialRef (value : String) : Bool :=
  matchesCredentialRef value && !isSecretShapedValue value

/-! ## Options -/

def maxVaultEntries : Nat := 1024

/-- `DEFAULT_MIN_REMAINING_MS`. -/
def defaultMinRemainingMs : Number := 60000

/-- What the clock answers. -/
abbrev Instant := { now : Number // now.isNaN = false }

structure VaultOptions where
  /-- Whether a refresh source is configured. -/
  refresh : Bool
  minRemainingMs : Value

/-- The margin of the vault. -/
def VaultOptions.margin (options : VaultOptions) : Number :=
  Number.mathMax 0 (match options.minRemainingMs with
    | .number x => if x.isFinite then x else defaultMinRemainingMs
    | _ => defaultMinRemainingMs)

/-! ## Entries -/

/-- `isValidSecretMaterial`, with the material. -/
def isValidSecretMaterial (material : Value) : Option SecretMaterial :=
  match material.get "value", material.get "expiresAtMs" with
  | .string value, .number expiresAtMs =>
    if value != "" && !value.toList.contains '\n' && !value.toList.contains '\r' && expiresAtMs.isFinite &&
        decide (0 ≤ expiresAtMs) then
      some ⟨value, expiresAtMs⟩
    else none
  | _, _ => none

/-- An entry as the operator gives it. Its reference is a string by its type. -/
structure EntryInput where
  reference : String
  scope : Value
  material : Value
  /-- The other keys of the object. -/
  others : List String

structure VaultEntry where
  reference : String
  scope : SecretScope
  material : SecretMaterial

def scopeKeys : List String :=
  ["platform", "installationId", "repoFullName", "profileName", "purpose", "unscopedDimensions"]

def materialKeys : List String := ["value", "expiresAtMs"]

/-- The fields of a value that is an object and not an array. -/
def mapping (what : String) : Value → Except String (List (String × Value))
  | .object fields => .ok fields
  | _ => .error ("credential vault: " ++ what ++ " must be a mapping")

/-- No key outside `allowed`. -/
def checkKeys (what : String) (allowed keys : List String) : Except String Unit :=
  match keys.find? (!allowed.contains ·) with
  | some key => .error ("credential vault: " ++ what ++ " has unsupported field '" ++ key ++ "'")
  | none => .ok ()

/-- The declared dimensions, each one once. -/
def readUnscoped (declared : List ScopeDimension) : List Value → Except String (List ScopeDimension)
  | [] => .ok declared
  | v :: vs =>
    match isScopeDimension v with
    | none => .error
        "credential vault: entry scope.unscopedDimensions entries must be scope dimensions"
    | some dimension =>
      if declared.contains dimension then
        .error ("credential vault: entry scope declares '" ++ dimension.text ++
          "' unscoped more than once")
      else readUnscoped (declared ++ [dimension]) vs

/-- A dimension of an entry: a string that is blank exactly when the dimension is declared unscoped. -/
def checkDimension (declared : List ScopeDimension) (dimension : ScopeDimension) (value : Value) :
    Except String String :=
  match value with
  | .string s =>
    if declared.contains dimension then
      if s ≠ "" then
        .error ("credential vault: entry scope " ++ dimension.text ++
          " is declared unscoped but carries a value")
      else .ok s
    else if s = "" then
      .error ("credential vault: entry scope " ++ dimension.text ++
        " is blank — bind it or declare it unscoped")
    else .ok s
  | _ => .error ("credential vault: entry scope " ++ dimension.text ++ " must be a string")

/-- `value`, or an error where there is none. -/
def require {α : Type} (value : Option α) (error : String) : Except String α :=
  match value with
  | some a => .ok a
  | none => .error error

/-- The elements of a value that is an array. -/
def elements : Value → Option (List Value)
  | .array vs => some vs
  | _ => none

/-- The checks on the scope of an entry. -/
def validateScope (scope : Value) : Except String SecretScope := do
  let fields ← mapping "entry scope" scope
  checkKeys "entry scope" scopeKeys (fields.map Prod.fst)
  let dimensions ← require (elements (scope.get "unscopedDimensions"))
    "credential vault: entry scope.unscopedDimensions must be a list"
  let declared ← readUnscoped [] dimensions
  let platform ← require (isPlatformName (scope.get "platform"))
    "credential vault: entry scope platform is malformed"
  let _ ← checkDimension declared .platform (scope.get "platform")
  let installationId ← checkDimension declared .installationId (scope.get "installationId")
  let repoFullName ← checkDimension declared .repoFullName (scope.get "repoFullName")
  let profileName ← checkDimension declared .profileName (scope.get "profileName")
  let purpose ← require (isSecretPurpose (scope.get "purpose"))
    "credential vault: entry scope purpose is malformed"
  if profileName ≠ "" ∧ isValidProfileName profileName = false then
    .error "credential vault: entry scope profileName is malformed"
  else .ok ⟨platform, installationId, repoFullName, profileName, purpose, declared⟩

def validateVaultEntry (entry : EntryInput) : Except String VaultEntry := do
  checkKeys "entry" [] entry.others
  if isValidCredentialRef entry.reference = false then
    .error "credential vault: entry reference is malformed"
  else
    let scope ← validateScope entry.scope
    let fields ← mapping "entry material" entry.material
    checkKeys "entry material" materialKeys (fields.map Prod.fst)
    let material ← require (isValidSecretMaterial entry.material)
      "credential vault: entry material is malformed"
    .ok ⟨entry.reference, scope, material⟩

/-! ## The vault -/

structure VaultRecord where
  scope : SecretScope
  material : SecretMaterial
  revoked : Bool

structure InMemorySecretVault where
  secrets : Map String VaultRecord
  /-- Whether there is a refresh source. -/
  refresh : Bool
  minRemainingMs : Number

namespace InMemorySecretVault

/-- One entry of the constructor's loop. -/
def addEntry (secrets : Map String VaultRecord) (entry : EntryInput) :
    Except String (Map String VaultRecord) := do
  let checked ← validateVaultEntry entry
  if secrets.has checked.reference then
    .error ("credential vault: reference '" ++ checked.reference ++ "' provided more than once")
  else .ok (secrets.set checked.reference ⟨checked.scope, checked.material, false⟩)

/-- The constructor. -/
def new (entries : List EntryInput) (options : VaultOptions) : Except String InMemorySecretVault :=
  if maxVaultEntries < entries.length then
    .error ("credential vault accepts at most " ++ toString maxVaultEntries ++ " entries")
  else do
    let secrets ← entries.foldlM addEntry .empty
    .ok ⟨secrets, options.refresh, options.margin⟩

end InMemorySecretVault

def isExpiring (material : SecretMaterial) (now minRemainingMs : Number) : Bool :=
  material.expiresAtMs != 0 && decide (material.expiresAtMs ≤ now + minRemainingMs)

/-- `validateResolutionRequest`, with the request. -/
def validateResolutionRequest (request : Value) : Option ResolutionRequest := do
  let purpose ← isSecretPurpose (request.get "purpose")
  let platform ← isPlatformName (request.get "platform")
  let installationId ← (request.get "installationId").string?
  let repoFullName ← (request.get "repoFullName").string?
  let profileName ← (request.get "profileName").string?
  some ⟨purpose, platform, installationId, repoFullName, profileName⟩

def scopeMismatch (stored : SecretScope) (request : ResolutionRequest) : String :=
  if stored.purpose ≠ request.purpose then "credential is bound to a different purpose"
  else if .platform ∉ stored.unscopedDimensions ∧ stored.platform ≠ request.platform then
    "credential is bound to a different platform"
  else if .installationId ∉ stored.unscopedDimensions ∧
      stored.installationId ≠ request.installationId then
    "credential is bound to a different installation"
  else if .repoFullName ∉ stored.unscopedDimensions ∧ stored.repoFullName ≠ request.repoFullName then
    "credential is bound to a different repository"
  else if .profileName ∉ stored.unscopedDimensions ∧ stored.profileName ≠ request.profileName then
    "credential is bound to a different profile"
  else ""

namespace InMemorySecretVault

/-- How far the first part of `resolve` gets. -/
inductive Progress where
  | answered (result : ResolveResult)
  /-- The refresh source has been called. -/
  | refreshing

/-- `resolve` up to its answer or its `await`. -/
def resolve (vault : InMemorySecretVault) (reference : String) (request : Value) (now : Instant) :
    Progress :=
  if isValidCredentialRef reference = false then
    .answered (.refused .invalidRequest "credential reference is malformed")
  else
    match validateResolutionRequest request with
    | none => .answered (.refused .invalidRequest "resolution request is malformed")
    | some request =>
      match vault.secrets.get? reference with
      | none => .answered
          (.refused .unknownReference "credential reference is not held by this broker")
      | some record =>
        if record.revoked then .answered (.refused .revoked "credential reference has been revoked")
        else if scopeMismatch record.scope request ≠ "" then
          .answered (.refused .scopeMismatch (scopeMismatch record.scope request))
        else if isExpiring record.material now.1 vault.minRemainingMs then
          if vault.refresh then .refreshing
          else .answered (.refused .expired
            "credential material is at or past its refresh margin and no refresh source is configured")
        else .answered (.ok record.material)

/-- `#refreshExpiring` after its `await`: the refresh has answered `fresh`, which is `null` where it threw. -/
def refreshed (vault : InMemorySecretVault) (reference : String) (fresh : Value) (now : Instant) :
    ResolveResult × InMemorySecretVault :=
  match vault.secrets.get? reference with
  -- not reached: the record was there when the call began
  | none => (.refused .unknownReference "credential reference is not held by this broker", vault)
  | some record =>
    if record.revoked then (.refused .revoked "credential reference has been revoked", vault)
    else
      match isValidSecretMaterial fresh with
      | none =>
        (.refused .expired "credential material is expiring and could not be refreshed", vault)
      | some material =>
        if isExpiring material now.1 vault.minRemainingMs then
          (.refused .expired "credential material is expiring and could not be refreshed", vault)
        else
          (.ok material,
            { vault with secrets := vault.secrets.set reference { record with material } })

def revoke (vault : InMemorySecretVault) (reference : String) : Bool × InMemorySecretVault :=
  match vault.secrets.get? reference with
  | none => (false, vault)
  | some record =>
    if record.revoked then (false, vault)
    else
      (true, { vault with
        secrets := vault.secrets.set reference { record with material := ⟨"", 0⟩, revoked := true } })

end InMemorySecretVault

end PrReviewer.Credentials
