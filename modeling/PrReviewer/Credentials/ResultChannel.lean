import Mathlib.Data.Option.Basic
import PrReviewer.Gateway.Call
import PrReviewer.Js.Cut
import PrReviewer.Js.Digits
import PrReviewer.Js.ToText

/-!
# Result-channel tokens

`src/credentials/result-channel.ts`: a token is `v1.<expiry>.<mac>`, and the MAC is over the four texts of an identity
and the expiry as it is spelled in the token. The identity is any value; what reads the text of a field that has none
throws (`none`). HMAC-SHA256 under the signing key is a parameter, and a reading of the clock is an integer.

- The text under the MAC determines the identity and the spelling of the expiry (`hmacText_inj`), although the name of
  the repository may hold line breaks: it is the only field that may, and it is neither first nor last.
-/

open Js List

namespace PrReviewer.Credentials

open Gateway (runIdRe isAlphanumeric)

namespace ResultChannel

def MAX_TOKEN_CHARS : Nat := 256

def MAX_TTL_MS : Nat := 7 * 24 * 3600000

def RESULT_CHANNEL_DEFAULT_TTL_MS : Number := 3600000

/-- HMAC-SHA256 of a text under the signing key, as 64 lower-case hexadecimal digits. -/
structure Hmac where
  hex : String → String
  length_hex : ∀ text, (hex text).toList.length = 64
  isLowerHex_hex : ∀ text, (hex text).toList.all isLowerHex = true

/-- The texts that an identity is read as. -/
structure ResultChannelIdentity where
  runId : String
  jobId : String
  installationId : String
  repoFullName : String
  deriving DecidableEq

/-- The texts of the four fields, nothing where one has none. -/
def readIdentity (identity : Value) : Option ResultChannelIdentity := do
  let runId ← toText (identity.get "runId")
  let jobId ← toText (identity.get "jobId")
  let installationId ← toText (identity.get "installationId")
  let repoFullName ← toText (identity.get "repoFullName")
  return ⟨runId, jobId, installationId, repoFullName⟩

/-- What the MAC is over. -/
def hmacText (i : ResultChannelIdentity) (expiryHex : List Char) : String :=
  String.ofList (i.runId.toList ++ '\n' :: (i.jobId.toList ++ '\n' :: (i.installationId.toList ++ '\n' ::
    (i.repoFullName.toList ++ '\n' :: expiryHex))))

def hmacFor (hmac : Hmac) (identity : Value) (expiryHex : List Char) : Option String :=
  (readIdentity identity).map fun i => hmac.hex (hmacText i expiryHex)

/-- `typeof identity === "object" && identity !== null`. -/
def isObject : Value → Bool
  | .object _ | .array _ => true
  | _ => false

/-- The checks of `installationId` and `repoFullName`, which are made of texts only. -/
def validScope (identity : Value) : Bool :=
  match identity.get "installationId", identity.get "repoFullName" with
  | .string installationId, .string repoFullName =>
    decide (repoFullName ≠ "") && Gateway.isValidProfileName installationId
  | _, _ => false

/-- `validIdentity`: the patterns of `runId` and `jobId` read the text of any value. -/
def validIdentity (identity : Value) : Option Bool :=
  if !isObject identity then some false
  else (toText (identity.get "runId")).bind fun runId =>
    if !runIdRe runId then some false
    else (toText (identity.get "jobId")).bind fun jobId =>
      if !runIdRe jobId then some false else some (validScope identity)

/-- `expiresAtMs.toString(16)`. -/
def expiryText (expiresAtMs : Int) : List Char :=
  if expiresAtMs < 0 then '-' :: Nat.toDigits 16 expiresAtMs.natAbs else Nat.toDigits 16 expiresAtMs.toNat

structure MintedResultChannelToken where
  token : String
  expiresAtMs : Int
  deriving DecidableEq

/-- `v1.<expiry>.<mac>`. -/
def tokenText (expiryHex mac : List Char) : String := String.ofList ('v' :: '1' :: '.' :: (expiryHex ++ '.' :: mac))

/-- `ttlMs`, when it is an integer in the allowed range. -/
def acceptedTtl (ttlMs : Option Number) : Option Nat := do
  let ttl ← (ttlMs.getD RESULT_CHANNEL_DEFAULT_TTL_MS).safeNat?
  guard (0 < ttl ∧ ttl ≤ MAX_TTL_MS)
  return ttl

/-- `mint`, at the reading `now` of the clock; nothing where it throws. -/
def mint (hmac : Hmac) (now : Int) (identity : Value) (ttlMs : Option Number) : Option MintedResultChannelToken := do
  let valid ← validIdentity identity
  guard valid
  let ttl ← acceptedTtl ttlMs
  let expiryHex := expiryText (now + ttl)
  let mac ← hmacFor hmac identity expiryHex
  return ⟨tokenText expiryHex mac.toList, now + ttl⟩

/-- The parts of a token that `RESULT_CHANNEL_TOKEN_RE`, which is `/^v1\.[0-9a-f]{1,16}\.[0-9a-f]{64}$/`, accepts. -/
def resultChannelTokenRe (token : String) : Bool :=
  match token.toList with
  | 'v' :: '1' :: '.' :: rest =>
    match rest.dropWhile isLowerHex with
    | '.' :: mac =>
      decide (1 ≤ (rest.takeWhile isLowerHex).length) && decide ((rest.takeWhile isLowerHex).length ≤ 16) &&
        decide (mac.length = 64) && mac.all isLowerHex
    | _ => false
  | _ => false

/-- `token.slice("v1.".length, token.indexOf(".", "v1.".length))`. -/
def expiryOf (token : String) : List Char := (token.toList.drop 3).takeWhile (· != '.')

/-- What follows the point behind the expiry. -/
def macOf (token : String) : List Char := token.toList.drop (3 + (expiryOf token).length + 1)

/-- `verify`, at the reading `now` of the clock; nothing where it throws. -/
def verify (hmac : Hmac) (now : Int) (token : String) (identity : Value) : Option Bool :=
  if MAX_TOKEN_CHARS < strLength token ∨ resultChannelTokenRe token = false then some false
  else (validIdentity identity).bind fun valid =>
    if !valid then some false
    else
      -- `Number.parseInt` rounds what has more than 53 bits
      let expiresAtMs := nearest (ofHexDigits (expiryOf token))
      if maxSafe < expiresAtMs ∨ (expiresAtMs : Int) ≤ now then some false
      else (hmacFor hmac identity (expiryOf token)).map fun expected => expected.toList == macOf token

/-! ## The grammar of tokens -/

theorem isLowerHex_hexDigit {n : Nat} (h : n < 16) : isLowerHex (Json.hexDigit n) = true := by
  revert n
  decide

theorem isLowerHex_toDigits (n : Nat) : (Nat.toDigits 16 n).all isLowerHex = true := by
  induction n using Nat.strongRecOn with
  | ind n ih =>
    rw [Nat.toDigits_eq_if (by decide)]
    split
    · next hlt =>
      rw [all_cons, all_nil, ← Json.hexDigit, isLowerHex_hexDigit hlt]
      rfl
    · rw [all_append, ih (n / 16) (by omega), all_cons, all_nil, ← Json.hexDigit,
        isLowerHex_hexDigit (Nat.mod_lt _ (by decide))]
      rfl

variable {cs : List Char} {expiresAtMs : Int} {s : String} {ttlMs : Option Number}

theorem point_not_mem (h : cs.all isLowerHex = true) : '.' ∉ cs := fun hmem =>
  absurd (all_eq_true.mp h '.' hmem) (by decide)

theorem newline_not_mem (h : cs.all isLowerHex = true) : '\n' ∉ cs := fun hmem =>
  absurd (all_eq_true.mp h '\n' hmem) (by decide)

/-- An expiry and a MAC as the grammar of tokens has them. -/
structure Spelled (expiryHex mac : List Char) : Prop where
  nonempty : 1 ≤ expiryHex.length
  short : expiryHex.length ≤ 16
  digits : expiryHex.all isLowerHex = true
  length_mac : mac.length = 64
  mac : mac.all isLowerHex = true

variable {expiryHex mac : List Char} {token : String}

theorem Spelled.resultChannelTokenRe (h : Spelled expiryHex mac) :
    resultChannelTokenRe (tokenText expiryHex mac) = true := by
  have hall := all_eq_true.mp h.digits
  have hpoint : ¬isLowerHex '.' = true := by decide
  have hfirst : (expiryHex ++ '.' :: mac).takeWhile isLowerHex = expiryHex := by
    rw [takeWhile_append_of_pos hall, takeWhile_cons_of_neg hpoint, append_nil]
  have hrest : (expiryHex ++ '.' :: mac).dropWhile isLowerHex = '.' :: mac := by
    rw [dropWhile_append_of_pos hall, dropWhile_cons_of_neg hpoint]
  simp only [ResultChannel.resultChannelTokenRe, tokenText, String.toList_ofList, hfirst, hrest, h.nonempty, h.short,
    h.length_mac, h.mac, decide_true, Bool.and_self]

/-- What the pattern accepts is the text of an expiry and a MAC. -/
theorem exists_spelled (h : resultChannelTokenRe token = true) :
    ∃ expiryHex mac, Spelled expiryHex mac ∧ token = tokenText expiryHex mac := by
  unfold resultChannelTokenRe at h
  split at h
  · next rest htoken =>
    split at h
    · next mac hmac =>
      simp only [Bool.and_eq_true, decide_eq_true_eq] at h
      obtain ⟨⟨⟨hnonempty, hshort⟩, hlength⟩, hall⟩ := h
      refine ⟨rest.takeWhile isLowerHex, mac, ⟨hnonempty, hshort, ?_, hlength, hall⟩, ?_⟩
      · exact all_eq_true.mpr fun c hc => mem_takeWhile_imp hc
      · rw [tokenText, ← hmac, takeWhile_append_dropWhile, ← htoken, String.ofList_toList]
    · cases h
  · cases h

theorem expiryOf_tokenText (h : Spelled expiryHex mac) : expiryOf (tokenText expiryHex mac) = expiryHex := by
  rw [expiryOf, tokenText, String.toList_ofList]
  exact takeWhile_ne_append (point_not_mem h.digits) mac

theorem macOf_tokenText (h : Spelled expiryHex mac) : macOf (tokenText expiryHex mac) = mac := by
  rw [macOf, expiryOf_tokenText h, tokenText, String.toList_ofList]
  have hcut : 'v' :: '1' :: '.' :: (expiryHex ++ '.' :: mac) = ('v' :: '1' :: '.' :: (expiryHex ++ ['.'])) ++ mac := by
    simp
  rw [hcut, drop_append_of_le_length (by simp; omega), drop_of_length_le (by simp; omega), nil_append]

theorem length_flatMap_charUnits_le (cs : List Char) : (cs.flatMap charUnits).length ≤ 2 * cs.length := by
  induction cs with
  | nil => simp
  | cons c cs ih =>
    have hc : (charUnits c).length ≤ 2 := by
      unfold charUnits
      split <;> simp
    rw [flatMap_cons, length_append, length_cons]
    omega

theorem strLength_tokenText_le (h : Spelled expiryHex mac) :
    strLength (tokenText expiryHex mac) ≤ MAX_TOKEN_CHARS := by
  have hle := length_flatMap_charUnits_le (tokenText expiryHex mac).toList
  have hlength : (tokenText expiryHex mac).toList.length = 3 + expiryHex.length + 1 + mac.length := by
    rw [tokenText, String.toList_ofList]
    simp
    omega
  have hshort := h.short
  have hmac := h.length_mac
  rw [strLength, utf16, MAX_TOKEN_CHARS]
  omega

/-- A token of the grammar is neither too long nor malformed. -/
theorem Spelled.not_refused (h : Spelled expiryHex mac) :
    ¬(MAX_TOKEN_CHARS < strLength (tokenText expiryHex mac) ∨
      ResultChannel.resultChannelTokenRe (tokenText expiryHex mac) = false) := by
  rw [h.resultChannelTokenRe, not_or]
  exact ⟨Nat.not_lt.mpr (strLength_tokenText_le h), by simp⟩

/-! ## Expiries -/

theorem spelled_expiryText (h : 0 ≤ expiresAtMs) (hsafe : expiresAtMs ≤ maxSafe) (hmac : Hmac)
    (text : String) : Spelled (expiryText expiresAtMs) (hmac.hex text).toList := by
  have hlt : ¬expiresAtMs < 0 := by omega
  rw [expiryText, if_neg hlt]
  refine ⟨Nat.length_toDigits_pos, ?_, isLowerHex_toDigits _, hmac.length_hex text, hmac.isLowerHex_hex text⟩
  rw [Nat.length_toDigits_le_iff (by decide) (by decide)]
  have hmax : maxSafe < 16 ^ 16 := by decide
  omega

/-- A safe expiry is read back. -/
theorem nearest_expiryText (h : 0 ≤ expiresAtMs) (hsafe : expiresAtMs ≤ maxSafe) :
    (nearest (ofHexDigits (expiryText expiresAtMs)) : Int) = expiresAtMs := by
  have hlt : ¬expiresAtMs < 0 := by omega
  have hmax : maxSafe < 2 ^ 53 := by decide
  rw [expiryText, if_neg hlt, ofHexDigits_toDigits, nearest_of_lt (by omega), Int.toNat_of_nonneg h]

/-- The pattern refuses the token of a negative expiry. -/
theorem resultChannelTokenRe_of_neg (h : expiresAtMs < 0) :
    resultChannelTokenRe (tokenText (expiryText expiresAtMs) mac) = false := by
  have hminus : ¬isLowerHex '-' = true := by decide
  rw [resultChannelTokenRe, tokenText, String.toList_ofList, expiryText, if_pos h]
  simp only [cons_append, dropWhile_cons_of_neg hminus]
  rfl

/-! ## What the MAC is over -/

/-- The fields of an identity that may not hold a line break, and are checked for it. -/
structure ResultChannelIdentity.Lined (i : ResultChannelIdentity) : Prop where
  runId : '\n' ∉ i.runId.toList
  jobId : '\n' ∉ i.jobId.toList
  installationId : '\n' ∉ i.installationId.toList

/-- The text determines the identity and the spelling of the expiry: the name of the repository is what is left between
the third line break and the last. -/
theorem hmacText_inj {i j : ResultChannelIdentity} {d e : List Char} (hi : i.Lined) (hj : j.Lined) (hd : '\n' ∉ d)
    (he : '\n' ∉ e) (h : hmacText i d = hmacText j e) : i = j ∧ d = e := by
  obtain ⟨hrun, h⟩ := append_sep_inj hi.runId hj.runId (String.ofList_injective h)
  obtain ⟨hjob, h⟩ := append_sep_inj hi.jobId hj.jobId h
  obtain ⟨hinstallation, h⟩ := append_sep_inj hi.installationId hj.installationId h
  have hcut := cutAtLast_append i.repoFullName.toList hd
  rw [h, cutAtLast_append j.repoFullName.toList he, Prod.mk.injEq, Option.some.injEq] at hcut
  cases i
  cases j
  rw [ResultChannelIdentity.mk.injEq]
  exact ⟨⟨String.toList_injective hrun, String.toList_injective hjob, String.toList_injective hinstallation,
    String.toList_injective hcut.1.symm⟩, hcut.2.symm⟩

/-! ## The calls -/

/-- The ids that `validIdentity` gets to read have texts. -/
def HasIdTexts (identity : Value) : Prop :=
  ∃ runId, toText (identity.get "runId") = some runId ∧
    (runIdRe runId = true → (toText (identity.get "jobId")).isSome = true)

theorem validIdentity_eq_none_iff {identity : Value} :
    validIdentity identity = none ↔ isObject identity = true ∧ ¬HasIdTexts identity := by
  unfold validIdentity HasIdTexts
  cases isObject identity with
  | false => simp
  | true =>
    cases hrun : toText (identity.get "runId") with
    | none => simp
    | some runId =>
      cases hmatch : runIdRe runId with
      | false => simp [hmatch]
      | true =>
        cases hjob : toText (identity.get "jobId") with
        | none => simp [hmatch]
        | some jobId => cases hmatch' : runIdRe jobId <;> simp [hmatch, hmatch']

theorem newline_not_mem_runId (h : runIdRe s = true) : '\n' ∉ s.toList := by
  unfold runIdRe at h
  split at h
  · cases h
  · next c cs hs =>
    simp only [Bool.and_eq_true, all_eq_true] at h
    rw [hs, mem_cons, not_or]
    refine ⟨?_, fun hmem => absurd (h.2 _ hmem) (by decide)⟩
    rintro rfl
    exact absurd h.1.1 (by decide)

theorem newline_not_mem_profileName (h : Gateway.isValidProfileName s = true) : '\n' ∉ s.toList := by
  unfold Gateway.isValidProfileName at h
  split at h
  · next hs =>
    rw [hs]
    exact not_mem_nil
  · next c cs hs =>
    simp only [Bool.and_eq_true, all_eq_true] at h
    rw [hs, mem_cons, not_or]
    refine ⟨?_, fun hmem => absurd (h.2 _ hmem) (by decide)⟩
    rintro rfl
    exact absurd h.1.1 (by decide)

theorem exists_scope {identity : Value} (h : validScope identity = true) :
    ∃ installationId repoFullName, identity.get "installationId" = .string installationId ∧
      identity.get "repoFullName" = .string repoFullName ∧ Gateway.isValidProfileName installationId = true := by
  unfold validScope at h
  split at h
  · next installationId repoFullName hinstallation hrepo =>
    rw [Bool.and_eq_true] at h
    exact ⟨installationId, repoFullName, hinstallation, hrepo, h.2⟩
  · cases h

/-- A valid identity has four texts, and only the name of the repository may hold a line break. -/
theorem exists_identity {identity : Value} (h : validIdentity identity = some true) :
    ∃ i, readIdentity identity = some i ∧ i.Lined := by
  unfold validIdentity at h
  split at h
  · cases h
  obtain ⟨runId, hrun, h⟩ := Option.bind_eq_some_iff.mp h
  split at h
  · cases h
  next hrunId =>
  obtain ⟨jobId, hjob, h⟩ := Option.bind_eq_some_iff.mp h
  split at h
  · cases h
  next hjobId =>
  obtain ⟨installationId, repoFullName, hinstallation, hrepo, hprofile⟩ := exists_scope (Option.some.inj h)
  refine ⟨⟨runId, jobId, installationId, repoFullName⟩, ?_, ?_, ?_, ?_⟩
  · simp [readIdentity, hrun, hjob, hinstallation, hrepo, toText]
  · exact newline_not_mem_runId (by simpa using hrunId)
  · exact newline_not_mem_runId (by simpa using hjobId)
  · exact newline_not_mem_profileName hprofile

variable {hmac : Hmac} {now : Int} {identity : Value} {i : ResultChannelIdentity}

theorem acceptedTtl_le {ttl : Nat} (h : acceptedTtl ttlMs = some ttl) : ttl ≤ MAX_TTL_MS := by
  simp only [acceptedTtl, Option.bind_eq_bind, Option.bind_eq_some_iff, Option.guard_eq_some', Option.pure_def,
    Option.some.injEq] at h
  obtain ⟨ttl', -, -, hle, rfl⟩ := h
  exact hle.2

/-- What `mint` does when it does not throw. -/
theorem mint_eq_some_iff {minted : MintedResultChannelToken} :
    mint hmac now identity ttlMs = some minted ↔
      validIdentity identity = some true ∧ ∃ ttl, acceptedTtl ttlMs = some ttl ∧
        ∃ i, readIdentity identity = some i ∧
          minted = ⟨tokenText (expiryText (now + ttl)) (hmac.hex (hmacText i (expiryText (now + ttl)))).toList,
            now + ttl⟩ := by
  simp only [mint, hmacFor, Option.bind_eq_bind, Option.bind_eq_some_iff, Option.guard_eq_some', Option.pure_def,
    Option.some.injEq, Option.map_eq_some_iff]
  constructor
  · rintro ⟨valid, hvalid, -, rfl, ttl, httl, mac, ⟨i, hi, rfl⟩, rfl⟩
    exact ⟨hvalid, ttl, httl, i, hi, rfl⟩
  · rintro ⟨hvalid, ttl, httl, i, hi, rfl⟩
    exact ⟨true, hvalid, ⟨⟩, rfl, ttl, httl, _, ⟨i, hi, rfl⟩, rfl⟩

/-- What `verify` answers on a token of the grammar. -/
theorem verify_eq (h : Spelled expiryHex mac) (hvalid : validIdentity identity = some true)
    (hi : readIdentity identity = some i) :
    verify hmac now (tokenText expiryHex mac) identity =
      some (decide (nearest (ofHexDigits expiryHex) ≤ maxSafe ∧ now < nearest (ofHexDigits expiryHex)) &&
        (hmac.hex (hmacText i expiryHex)).toList == mac) := by
  rw [verify, if_neg h.not_refused, hvalid, Option.bind_some, expiryOf_tokenText h, macOf_tokenText h, hmacFor, hi]
  simp only [Bool.not_true, Bool.false_eq_true, if_false, Option.map_some]
  split
  · next hlate =>
    rw [decide_eq_false (by omega), Bool.false_and]
  · next hearly =>
    rw [decide_eq_true (by omega), Bool.true_and]

/-- Only a token of the grammar and a valid identity are accepted. -/
theorem exists_of_verify {token : String} (h : verify hmac now token identity = some true) :
    ∃ expiryHex mac, Spelled expiryHex mac ∧ token = tokenText expiryHex mac ∧ validIdentity identity = some true := by
  unfold verify at h
  split at h
  · cases h
  next hgrammar =>
  rw [not_or, Bool.not_eq_false] at hgrammar
  obtain ⟨valid, hvalid, h⟩ := Option.bind_eq_some_iff.mp h
  cases valid with
  | false => cases h
  | true =>
    obtain ⟨expiryHex, mac, hspelled, rfl⟩ := exists_spelled hgrammar.2
    exact ⟨expiryHex, mac, hspelled, rfl, hvalid⟩

/-- The verifier throws at an object whose ids have no text, when it gets to read them. -/
theorem verify_eq_none_iff {token : String} :
    verify hmac now token identity = none ↔
      ¬(MAX_TOKEN_CHARS < strLength token ∨ resultChannelTokenRe token = false) ∧
        isObject identity = true ∧ ¬HasIdTexts identity := by
  rw [← validIdentity_eq_none_iff]
  unfold verify
  split
  · next hrefused => simp [hrefused]
  · next hgrammar =>
    cases hvalid : validIdentity identity with
    | none => simpa using hgrammar
    | some valid =>
      cases valid with
      | false => simp
      | true =>
        obtain ⟨i, hi, -⟩ := exists_identity hvalid
        simp only [hmacFor, hi, Option.bind_some, Option.map_some, Bool.not_true, Bool.false_eq_true, if_false]
        split <;> simp

end ResultChannel

end PrReviewer.Credentials
