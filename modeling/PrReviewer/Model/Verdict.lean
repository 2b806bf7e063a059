import PrReviewer.Enforcement.Artifact
import PrReviewer.Js.Collapse
import PrReviewer.Js.Trunc

/-!
# Normalisation of the model's answer

`src/model/verdict.ts`: the structured fields of a decoded answer, as the parser reads them.

- An alias table is an object literal: a key that it does not list but `Object.prototype` has is answered
  with what the literal inherits (`Member.inherited`).
- The entries are read in a loop that stops at the cap of the field, here `List.take`.
- `toLowerCase` is a parameter.
-/

open Js

namespace PrReviewer.Model

/-! ## Alias tables -/

/-- What an object literal answers a key with: an entry of its own, or the inherited member of that name. -/
inductive Member (α : Type) where
  | own (a : α)
  | inherited (name : String)
  deriving DecidableEq, Repr

/-- The names that every object literal inherits. -/
def objectPrototype : List String :=
  ["constructor", "__proto__", "__defineGetter__", "__defineSetter__", "__lookupGetter__",
    "__lookupSetter__", "hasOwnProperty", "isPrototypeOf", "propertyIsEnumerable", "toLocaleString",
    "toString", "valueOf"]

/-- `table[key]`, `none` where it is `undefined`. -/
def memberOf {α : Type} (table : List (String × α)) (key : String) : Option (Member α) :=
  match table.lookup key with
  | some a => some (.own a)
  | none => if objectPrototype.contains key then some (.inherited key) else none

inductive RequiredCheckStatus where
  | satisfied
  | notApplicable
  | unresolved
  | unmet
  deriving DecidableEq, Repr

def RequiredCheckStatus.text : RequiredCheckStatus → String
  | .satisfied => "satisfied"
  | .notApplicable => "not_applicable"
  | .unresolved => "unresolved"
  | .unmet => "unmet"

/-- `REQUIRED_CHECK_STATUS_ALIASES`. -/
def requiredCheckStatusAliases : List (String × RequiredCheckStatus) :=
  [("satisfied", .satisfied), ("not_applicable", .notApplicable), ("unresolved", .unresolved),
    ("unmet", .unmet), ("failed", .unmet)]

inductive ThreadDisposition where
  | fixed
  | open
  | disputed
  | withdrawn
  deriving DecidableEq, Repr

/-- `THREAD_DISPOSITION_ALIASES`. -/
def threadDispositionAliases : List (String × ThreadDisposition) :=
  [("fixed", .fixed), ("resolved", .fixed), ("addressed", .fixed), ("open", .open),
    ("still_open", .open), ("still-open", .open), ("unresolved", .open), ("disputed", .disputed),
    ("disagree", .disputed), ("rejected", .disputed), ("withdrawn", .withdrawn),
    ("answered", .withdrawn)]

/-- `HUMAN_REVIEW_DISPOSITION_VALUES`. -/
def humanReviewDispositionValues : List String := ["addressed", "not_addressed"]

/-- `SEVERITY_ALIASES`. -/
def severityAliases : List (String × Enforcement.Severity) :=
  [("blocker", .blocker), ("critical", .blocker), ("major", .major), ("high", .major),
    ("error", .major), ("minor", .minor), ("medium", .minor), ("low", .minor), ("warning", .minor),
    ("info", .info), ("note", .info), ("nit", .info), ("suggestion", .info)]

/-! ## Caps -/

def maxFindings : Nat := 50
def maxFindingMessageChars : Nat := 2000
def maxFindingSuggestionChars : Nat := 4000
def maxFindingAgentPromptChars : Nat := 1200
def maxRequiredChecks : Nat := 50
def maxRequiredCheckChars : Nat := 400
def maxRationaleChars : Nat := 500
def maxThreadDispositions : Nat := 100
def maxThreadIdChars : Nat := 200
def maxThreadEvidenceChars : Nat := 1000
def maxHumanReviewDispositions : Nat := 100
def maxHumanReviewIdChars : Nat := 200
def maxHumanReviewEvidenceChars : Nat := 1000

/-! ## Text -/

/-- `isRecord`. -/
def isRecord : Value → Bool
  | .object _ => true
  | _ => false

/-- A character of `SMART_REVIEW_REASON_CONTROL`: everything up to the blank, and DEL. -/
def isReasonControl (c : Char) : Bool := c.toNat ≤ 0x20 || c.toNat == 0x7F

/-- `text.replace(SMART_REVIEW_REASON_CONTROL, " ").trim()`. -/
def reasonLine (text : String) : String := oneLine isReasonControl text

/-- `text || null`. -/
def orNull (text : String) : Option String := if text == "" then none else some text

/-- `a ?? b`. -/
def nullish (a b : Value) : Value :=
  match a with
  | .undefined | .null => b
  | a => a

/-- The word of a status field, `""` where it holds no string. -/
def wordOf (toLowerCase : String → String) (value : Value) : String :=
  (value.string?.map fun s => toLowerCase (trim s)).getD ""

/-- `pyCodepointSlice`. -/
def codepointSlice (text : String) (limit : Nat) : String := String.ofList (text.toList.take limit)

/-! ## Dispositions -/

/-- The status of a disposition: a word of its table, an inherited member, or a word it does not know. -/
inductive Stated (α : Type) where
  | known (a : α)
  | inherited (name : String)
  | invalid
  deriving DecidableEq, Repr

/-- The answer of a table as a status. -/
def Stated.ofMember {α : Type} : Option (Member α) → Stated α
  | some (.own a) => .known a
  | some (.inherited name) => .inherited name
  | none => .invalid

structure NormalizedRequiredCheckDisposition where
  check : String
  status : Stated RequiredCheckStatus
  rationale : Option String
  deriving DecidableEq

/-- The rationale of an entry, bounded. -/
def entryRationale (item : Value) : Option String :=
  (item.get "rationale").string?.bind fun raw => orNull (sliceTo maxRationaleChars (reasonLine raw))

/-- The disposition of a check from what the table answers the stated status with. -/
def dispositionFor (check : String) (status : Option (Member RequiredCheckStatus))
    (rationale : Option String) : NormalizedRequiredCheckDisposition :=
  match status with
  | none => ⟨check, .invalid, none⟩
  | some status =>
    if (status = .own .notApplicable ∨ status = .own .unmet) ∧ rationale = none then
      ⟨check, .invalid, none⟩
    else ⟨check, .ofMember (some status), rationale⟩

/-- One entry; `none` where no check can be told from it. -/
def requiredCheckDisposition (toLowerCase : String → String) (item : Value) :
    Option NormalizedRequiredCheckDisposition :=
  if !isRecord item then none
  else
    (item.get "check").string?.bind fun rawCheck =>
      let check := reasonLine rawCheck
      if check == "" || strLength check > maxRequiredCheckChars then none
      else some (dispositionFor check
        (memberOf requiredCheckStatusAliases (wordOf toLowerCase (item.get "status")))
        (entryRationale item))

/-- What a field of dispositions is read as: whether the key is there, and the entries of an array. -/
def normalizeEntries {α : Type} (one : Value → Option α) (cap : Nat) (value : Value) (present : Bool) :
    Bool × Option (List α) :=
  if !present then (false, none)
  else
    match value with
    | .array items => (true, some ((items.filterMap one).take cap))
    | _ => (true, none)

def normalizeRequiredCheckDispositions (toLowerCase : String → String) :
    Value → Bool → Bool × Option (List NormalizedRequiredCheckDisposition) :=
  normalizeEntries (requiredCheckDisposition toLowerCase) maxRequiredChecks

/-- The id of an entry as one line; `none` where it is blank or over its cap. -/
def entryId (key : String) (cap : Nat) (item : Value) : Option String :=
  if !isRecord item then none
  else
    (item.get key).string?.bind fun raw =>
      let id := reasonLine raw
      if id == "" || id.toList.length > cap then none else some id

/-- The evidence of an entry, bounded. -/
def entryEvidence (cap : Nat) (item : Value) : Option String :=
  (item.get "evidence").string?.bind fun raw => orNull (codepointSlice (reasonLine raw) cap)

structure NormalizedThreadDisposition where
  threadId : String
  disposition : Stated ThreadDisposition
  evidence : Option String
  deriving DecidableEq

def threadDisposition (toLowerCase : String → String) (item : Value) :
    Option NormalizedThreadDisposition :=
  (entryId "thread_id" maxThreadIdChars item).map fun threadId =>
    { threadId
      disposition := .ofMember
        (memberOf threadDispositionAliases (wordOf toLowerCase (item.get "disposition")))
      evidence := entryEvidence maxThreadEvidenceChars item }

def normalizeThreadDispositions (toLowerCase : String → String) :
    Value → Bool → Bool × Option (List NormalizedThreadDisposition) :=
  normalizeEntries (threadDisposition toLowerCase) maxThreadDispositions

structure NormalizedHumanReviewDisposition where
  reviewId : String
  disposition : Stated String
  evidence : Option String
  deriving DecidableEq

def humanReviewDisposition (toLowerCase : String → String) (item : Value) :
    Option NormalizedHumanReviewDisposition :=
  (entryId "review_id" maxHumanReviewIdChars item).map fun reviewId =>
    let key := wordOf toLowerCase (item.get "disposition")
    { reviewId
      -- a `Set`, not an object literal: nothing is inherited
      disposition := if humanReviewDispositionValues.contains key then .known key else .invalid
      evidence := entryEvidence maxHumanReviewEvidenceChars item }

def normalizeHumanReviewDispositions (toLowerCase : String → String) :
    Value → Bool → Bool × Option (List NormalizedHumanReviewDisposition) :=
  normalizeEntries (humanReviewDisposition toLowerCase) maxHumanReviewDispositions

end PrReviewer.Model
