import PrReviewer.Credentials.ResultChannel

/-!
# What a result-channel token binds

`Binds` is what a token promises: one that was minted is of the grammar and lives until its expiry, one that is accepted
was minted for the identity it is presented with and carries the expiry it was minted with, and the verifier does not
throw. It holds exactly when the expiry is not negative and the ids of the presented value have texts
(`token_binds_iff`).
-/

open Js List

namespace PrReviewer.Credentials.ResultChannel

/-- A call of `mint`, at a reading of the clock. -/
structure MintCall where
  now : Int
  identity : Value
  ttlMs : Option Number

def MintCall.answer (hmac : Hmac) (c : MintCall) : Option MintedResultChannelToken := mint hmac c.now c.identity c.ttlMs

/-- The clock's reading plus the longest lifetime is a safe integer. -/
def MintCall.Safe (c : MintCall) : Prop := c.now + MAX_TTL_MS ≤ maxSafe

instance (c : MintCall) : Decidable c.Safe := inferInstanceAs (Decidable (_ ≤ _))

/-- The text that an accepted call puts under the MAC. -/
def MintCall.signed (c : MintCall) : Option String := do
  let ttl ← acceptedTtl c.ttlMs
  let i ← readIdentity c.identity
  return hmacText i (expiryText (c.now + ttl))

/-- What is assumed of the MAC: no text that was signed shares its digest with `text`, and who presents the digest of
`text` presents the digest of a text that was signed. -/
structure Secure (hmac : Hmac) (signed : List String) (text : String) (mac : List Char) : Prop where
  injective : ∀ t ∈ signed, hmac.hex t = hmac.hex text → t = text
  unforgeable : (hmac.hex text).toList = mac → ∃ t ∈ signed, (hmac.hex t).toList = mac

/-- What a token promises: `minted` is the answer of `call`, and `token` is presented with the value `presented` after
the accepted calls `calls`. -/
structure Binds (hmac : Hmac) (call : MintCall) (minted : MintedResultChannelToken) (calls : List MintCall) (now : Int)
    (token : String) (presented : Value) : Prop where
  grammar : resultChannelTokenRe minted.token = true
  lives : ∀ later, verify hmac later minted.token call.identity = some (decide (later < minted.expiresAtMs))
  bound : verify hmac now token presented = some true →
    ∃ c ∈ calls, ∃ m, c.answer hmac = some m ∧ m.token = token ∧ m.expiresAtMs = ofHexDigits (expiryOf token) ∧
      readIdentity c.identity = readIdentity presented ∧ (readIdentity presented).isSome
  total : verify hmac now token presented ≠ none

/-- The expiry is not negative, and the verifier gets to read no id without a text. -/
structure BindsWhen (call : MintCall) (token : String) (presented : Value) : Prop where
  expiry : ∀ ttl, acceptedTtl call.ttlMs = some ttl → 0 ≤ call.now + ttl
  texts : resultChannelTokenRe token = true → isObject presented = true → HasIdTexts presented

variable {hmac : Hmac} {call : MintCall} {minted : MintedResultChannelToken} {calls : List MintCall} {now : Int}
  {token : String} {presented : Value}

/-- The token of an accepted call with a safe expiry that is not negative is one of the grammar. -/
theorem spelled_of_answer (h : call.answer hmac = some minted) (hsafe : call.Safe) (hexpiry : 0 ≤ minted.expiresAtMs) :
    minted.expiresAtMs ≤ maxSafe ∧ ∃ i, readIdentity call.identity = some i ∧
      Spelled (expiryText minted.expiresAtMs) (hmac.hex (hmacText i (expiryText minted.expiresAtMs))).toList ∧
      minted.token =
        tokenText (expiryText minted.expiresAtMs) (hmac.hex (hmacText i (expiryText minted.expiresAtMs))).toList := by
  obtain ⟨-, ttl, httl, i, hi, rfl⟩ := mint_eq_some_iff.mp h
  have hle := acceptedTtl_le httl
  have hmax : call.now + ttl ≤ maxSafe := by
    unfold MintCall.Safe at hsafe
    omega
  exact ⟨hmax, i, hi, spelled_expiryText hexpiry hmax hmac _, rfl⟩

theorem lives_of_answer (h : call.answer hmac = some minted) (hsafe : call.Safe) (hexpiry : 0 ≤ minted.expiresAtMs)
    (later : Int) : verify hmac later minted.token call.identity = some (decide (later < minted.expiresAtMs)) := by
  obtain ⟨hmax, i, hi, hspelled, htoken⟩ := spelled_of_answer h hsafe hexpiry
  obtain ⟨hvalid, -⟩ := mint_eq_some_iff.mp h
  have hread := nearest_expiryText hexpiry hmax
  rw [htoken, verify_eq hspelled hvalid hi, beq_self_eq_true, Bool.and_true, Option.some.injEq, decide_eq_decide, hread]
  omega

/-- An accepted token was minted for the identity it is presented with. -/
theorem bound_of_secure (hsafe : ∀ c ∈ calls, c.Safe) (haccepted : ∀ c ∈ calls, (c.answer hmac).isSome = true)
    (hsecure : ∀ i, readIdentity presented = some i →
      Secure hmac (calls.filterMap MintCall.signed) (hmacText i (expiryOf token)) (macOf token))
    (h : verify hmac now token presented = some true) :
    ∃ c ∈ calls, ∃ m, c.answer hmac = some m ∧ m.token = token ∧ m.expiresAtMs = ofHexDigits (expiryOf token) ∧
      readIdentity c.identity = readIdentity presented ∧ (readIdentity presented).isSome := by
  obtain ⟨expiryHex, mac, hspelled, rfl, hvalid⟩ := exists_of_verify h
  obtain ⟨i, hi, hlined⟩ := exists_identity hvalid
  have hsecure := hsecure i hi
  rw [expiryOf_tokenText hspelled, macOf_tokenText hspelled] at hsecure
  rw [verify_eq hspelled hvalid hi, Option.some.injEq, Bool.and_eq_true, beq_iff_eq] at h
  obtain ⟨text, hsigned, hdigest⟩ := hsecure.unforgeable h.2
  -- the MAC was computed by a call, over the same text
  have htext := hsecure.injective text hsigned (String.toList_injective (hdigest.trans h.2.symm))
  obtain ⟨c, hc, hsign⟩ := mem_filterMap.mp hsigned
  obtain ⟨m, hm⟩ := Option.isSome_iff_exists.mp (haccepted c hc)
  obtain ⟨hcvalid, ttl, httl, j, hj, rfl⟩ := mint_eq_some_iff.mp hm
  obtain ⟨j', hj', hjlined⟩ := exists_identity hcvalid
  rw [hj, Option.some.injEq] at hj'
  subst hj'
  simp only [MintCall.signed, httl, hj, Option.bind_eq_bind, Option.bind_some, Option.pure_def,
    Option.some.injEq] at hsign
  subst hsign
  have hline : '\n' ∉ expiryText (c.now + ttl) := by
    unfold expiryText
    split
    · rw [mem_cons, not_or]
      exact ⟨by decide, newline_not_mem (isLowerHex_toDigits _)⟩
    · exact newline_not_mem (isLowerHex_toDigits _)
  obtain ⟨rfl, rfl⟩ := hmacText_inj hjlined hlined hline (newline_not_mem hspelled.digits) htext
  have hexpiry : 0 ≤ c.now + ttl := by
    by_contra hneg
    have hre : resultChannelTokenRe (tokenText (expiryText (c.now + ttl)) mac) = false :=
      resultChannelTokenRe_of_neg (Int.not_le.mp hneg)
    rw [hspelled.resultChannelTokenRe] at hre
    cases hre
  obtain ⟨hmax, -⟩ := spelled_of_answer hm (hsafe c hc) hexpiry
  have hcarried : (ofHexDigits (expiryText (c.now + ttl)) : Int) = c.now + ttl := by
    rw [expiryText, if_neg (by omega), ofHexDigits_toDigits, Int.toNat_of_nonneg hexpiry]
  refine ⟨c, hc, _, hm, ?_, ?_, ?_, ?_⟩
  · rw [hdigest]
  · rw [expiryOf_tokenText hspelled, hcarried]
  · rw [hj, hi]
  · rw [hi]
    rfl

/-- A token binds one identity exactly when its expiry is not negative and the presented ids have texts. -/
theorem token_binds_iff (hcall : call.answer hmac = some minted) (hsafe : ∀ c ∈ call :: calls, c.Safe)
    (haccepted : ∀ c ∈ calls, (c.answer hmac).isSome = true)
    (hsecure : ∀ i, readIdentity presented = some i →
      Secure hmac (calls.filterMap MintCall.signed) (hmacText i (expiryOf token)) (macOf token)) :
    Binds hmac call minted calls now token presented ↔ BindsWhen call token presented := by
  have hminted := hcall
  rw [MintCall.answer, mint_eq_some_iff] at hminted
  obtain ⟨-, ttl, httl, i, -, hminted⟩ := hminted
  have hat : minted.expiresAtMs = call.now + ttl := by rw [hminted]
  constructor
  · intro h
    constructor
    · intro ttl' httl'
      obtain rfl := Option.some.inj (httl'.symm.trans httl)
      by_contra hneg
      have hgrammar := h.grammar
      rw [hminted, resultChannelTokenRe_of_neg (Int.not_le.mp hneg)] at hgrammar
      cases hgrammar
    · intro hgrammar hobject
      by_contra htexts
      refine h.total (verify_eq_none_iff.mpr ⟨?_, hobject, htexts⟩)
      obtain ⟨expiryHex, mac, hspelled, rfl⟩ := exists_spelled hgrammar
      exact hspelled.not_refused
  · intro h
    have hexpiry : 0 ≤ minted.expiresAtMs := hat ▸ h.expiry ttl httl
    have hcallSafe := hsafe call mem_cons_self
    obtain ⟨-, i, -, hspelled, htoken⟩ := spelled_of_answer hcall hcallSafe hexpiry
    refine ⟨htoken ▸ hspelled.resultChannelTokenRe, lives_of_answer hcall hcallSafe hexpiry,
      bound_of_secure (fun c hc => hsafe c (mem_cons_of_mem _ hc)) haccepted hsecure, ?_⟩
    rw [Ne, verify_eq_none_iff]
    rintro ⟨hgrammar, hobject, htexts⟩
    rw [not_or, Bool.not_eq_false] at hgrammar
    exact htexts (h.texts hgrammar.2 hobject)

/-! ## One token -/

/-- The digest under one key of the text that `sampleCall` signs. -/
def sampleHmac : Hmac where
  hex _ := "4423fbcd2441edf80e50620e143d25f116c619e30d6d001fcdfc75b643aafe7f"
  length_hex _ := by decide +kernel
  isLowerHex_hex _ := by decide +kernel

def sampleCall : MintCall where
  now := 1000000
  identity := .object [("runId", .string "run-20261028-aaaa"), ("jobId", .string "job-20261028-aaaa"),
    ("installationId", .string "1001"), ("repoFullName", .string "owner/repo-a")]
  ttlMs := none

def sampleToken : String := "v1.4630c0.4423fbcd2441edf80e50620e143d25f116c619e30d6d001fcdfc75b643aafe7f"

instance sampleCall_answer : Fact (sampleCall.answer sampleHmac = some ⟨sampleToken, 4600000⟩) :=
  ⟨by decide +kernel⟩

theorem token_binds_iff_sample :
    Binds sampleHmac sampleCall ⟨sampleToken, 4600000⟩ [sampleCall] 2000000 sampleToken sampleCall.identity ↔
      BindsWhen sampleCall sampleToken sampleCall.identity := by
  refine token_binds_iff sampleCall_answer.out ?_ ?_ ?_
  · simp only [forall_mem_cons, not_mem_nil, false_implies, implies_true, and_true]
    exact ⟨by decide, by decide⟩
  · rw [forall_mem_singleton, sampleCall_answer.out]
    rfl
  · intro i hi
    have hsigned : [sampleCall].filterMap MintCall.signed = [hmacText i (expiryOf sampleToken)] := by
      have hread : readIdentity sampleCall.identity =
          some ⟨"run-20261028-aaaa", "job-20261028-aaaa", "1001", "owner/repo-a"⟩ := by decide +kernel
      obtain rfl := Option.some.inj (hread.symm.trans hi)
      decide +kernel
    rw [hsigned]
    constructor
    · intro t ht _
      exact mem_singleton.mp ht
    · intro h
      exact ⟨_, mem_singleton_self _, h⟩

/-- The verifier throws at an id that has no text, and the token of a call long before 1970 is malformed. -/
theorem unread_id_throws :
    verify sampleHmac 0 sampleToken (.object [("runId", .object [("toString", .bool true)])]) = none ∧
      ((mint sampleHmac (-3600001) sampleCall.identity none).map fun m => resultChannelTokenRe m.token) = some false :=
  ⟨by decide +kernel, by decide +kernel⟩

end PrReviewer.Credentials.ResultChannel
