import PrReviewer.Js.Integer
import PrReviewer.Js.Json
import PrReviewer.Js.Lines
import PrReviewer.Js.Rounding

/-!
# The follow-up rate-limit ledger

`src/followup/durable-rate-limit.ts`, the functions on the ledger: a map from scope keys to the charges
recorded there. `parseLedger` and `serializeLedger` are its file form, `insertCharge`, `pruneLedger` and
`evictToCap` the parts of a commit.

An instant is a natural number, since `parseLedger` and the commits check that it is a safe non-negative
integer. A horizon is a difference of numbers and rounded like one (`minus`).
-/

open Js

namespace PrReviewer.Followup

/-- One recorded charge: the instant `at` and the digest of the request's identity, if it carried one. -/
structure LedgerEvent where
  instant : Nat
  id : Option String
  deriving DecidableEq

/-- The charges of each scope. -/
abbrev Ledger := Map String (List LedgerEvent)

def ledgerVersion : Nat := 2

/-- The version whose events are bare instants. -/
def ledgerVersionLegacy : Nat := 1

def isKeyChar (c : Char) : Bool := isTokenChar c || c = ':' || c = '/' || c = '#'

/-- `KEY_PATTERN`: `/^[A-Za-z0-9:._/#-]{1,256}$/`. -/
def isKey (s : String) : Bool := isRun isKeyChar 1 256 s

/-- `ID_PATTERN`: `/^[0-9a-f]{64}$/`. -/
def isDigest (s : String) : Bool := isRun isLowerHex 64 64 s

def snapshotKeys : List String := ["version", "scopes"]

def scopeKeys : List String := ["key", "events"]

/-! ## Charges -/

/-- The canonical order: by instant, and for equal instants by identity, a missing one first. -/
def compareCharges (a b : LedgerEvent) : Ordering :=
  if a.instant ≠ b.instant then compare a.instant b.instant
  else
    let left := a.id.getD ""
    let right := b.id.getD ""
    if strLt left right then .lt else if strLt right left then .gt else .eq

/-- Insert one charge; `none` when exactly this charge is there already. -/
def insertCharge (charges : List LedgerEvent) (charge : LedgerEvent) : Option (List LedgerEvent) :=
  let before := charges.takeWhile fun c => (compareCharges c charge).isLE
  if before.getLast?.any fun previous => compareCharges previous charge == .eq then none
  else some (before ++ charge :: charges.drop before.length)

/-! ## Reading -/

/-- `Number.isSafeInteger(x) && x >= 0`, with the number. -/
def safeNatural? : Value → Option Nat
  | .count n => if n ≤ maxSafe then some n else none
  | .number x => x.safeNat?
  | _ => none

/-- One persisted charge. -/
def parseEvent (raw : Value) (version : Nat) : Except String LedgerEvent :=
  if version = ledgerVersionLegacy then
    match safeNatural? raw with
    | some n => .ok ⟨n, none⟩
    | none => .error "rate-limit ledger: malformed event instant"
  else
    match raw with
    | .object fields =>
      if fields.any fun f => f.1 ≠ "at" && f.1 ≠ "id" then .error "rate-limit ledger: malformed event"
      else
        match safeNatural? (raw.get "at") with
        | none => .error "rate-limit ledger: malformed event instant"
        | some n =>
          match raw.get "id" with
          | .undefined => .ok ⟨n, none⟩
          | .string id =>
            if isDigest id then .ok ⟨n, some id⟩ else .error "rate-limit ledger: malformed event identity"
          | _ => .error "rate-limit ledger: malformed event identity"
    | _ => .error "rate-limit ledger: malformed event"

/-- The next charge of a scope, which has to be above the last one. -/
def parseNext (version : Nat) (charges : List LedgerEvent) (raw : Value) :
    Except String (List LedgerEvent) := do
  let event ← parseEvent raw version
  if charges.getLast?.any fun last => compareCharges last event != .lt then
    .error "rate-limit ledger: events must be ascending and unique"
  else .ok (charges ++ [event])

/-- One entry of `scopes`. -/
def parseScope (version : Nat) (ledger : Ledger) (element : Value) : Except String Ledger :=
  match element with
  | .object fields =>
    if fields.length ≠ scopeKeys.length || !scopeKeys.all fun k => (fields.map Prod.fst).contains k then
      .error "rate-limit ledger: malformed scope entry"
    else
      match element.get "key" with
      | .string key =>
        if isKey key = false then .error "rate-limit ledger: malformed scope key"
        else if ledger.has key then .error "rate-limit ledger: duplicate scope key"
        else
          match element.get "events" with
          | .array (event :: events) => do
            let charges ← (event :: events).foldlM (parseNext version) []
            .ok (ledger.set key charges)
          | _ => .error "rate-limit ledger: events must be a non-empty array"
      | _ => .error "rate-limit ledger: malformed scope key"
  | _ => .error "rate-limit ledger: malformed scope entry"

def parseLedger (raw : String) (maxKeys : Nat) : Except String Ledger :=
  match Json.parse raw with
  | none => .error "rate-limit ledger: corrupt (unparseable JSON)"
  | some parsed =>
    match parsed with
    | .object fields =>
      if fields.any fun f => !snapshotKeys.contains f.1 then
        .error "rate-limit ledger: unknown top-level key present"
      else
        match safeNatural? (parsed.get "version") with
        | none => .error "rate-limit ledger: unsupported version"
        | some version =>
          if version ≠ ledgerVersion && version ≠ ledgerVersionLegacy then
            .error "rate-limit ledger: unsupported version"
          else
            match parsed.get "scopes" with
            | .array scopes =>
              if scopes.length > maxKeys then
                .error "rate-limit ledger: scope count exceeds the configured cap"
              else scopes.foldlM (parseScope version) .empty
            | _ => .error "rate-limit ledger: scopes must be an array"
    | _ => .error "rate-limit ledger: top-level value must be a plain object"

/-! ## Writing -/

def eventValue (charge : LedgerEvent) : Value :=
  match charge.id with
  | none => .object [("at", .count charge.instant)]
  | some id => .object [("at", .count charge.instant), ("id", .string id)]

def scopeValue (entry : String × List LedgerEvent) : Value :=
  .object [("key", .string entry.1), ("events", .array (entry.2.map eventValue))]

/-- The scopes with charges, sorted by key. -/
def sortedScopes (ledger : Ledger) : List (String × List LedgerEvent) :=
  (ledger.entries.filter fun e => e.2 ≠ []).insertionSort fun a b => !strLt b.1 a.1

def ledgerValue (ledger : Ledger) : Value :=
  .object [("version", .count ledgerVersion), ("scopes", .array ((sortedScopes ledger).map scopeValue))]

def serializeLedger (ledger : Ledger) : String := Json.stringify (ledgerValue ledger) ++ "\n"

/-! ## Horizons and the cap -/

/-- Is the charge above the horizon of its kind? -/
def isKept (nowMs retentionMs idempotencyRetentionMs : Nat) (charge : LedgerEvent) : Bool :=
  if charge.id = none then decide (minus nowMs retentionMs < charge.instant)
  else decide (minus nowMs idempotencyRetentionMs < charge.instant)

/-- One pass of the loop of `pruneLedger`. -/
def pruneScope (nowMs retentionMs idempotencyRetentionMs : Nat) (ledger : Ledger)
    (entry : String × List LedgerEvent) : Ledger :=
  let kept := entry.2.filter (isKept nowMs retentionMs idempotencyRetentionMs)
  if kept = [] then ledger.delete entry.1
  else if kept.length ≠ entry.2.length then ledger.set entry.1 kept
  else ledger

/-- Drop the charges below their horizon, and any scope thereby emptied. -/
def pruneLedger (ledger : Ledger) (nowMs retentionMs idempotencyRetentionMs : Nat) : Ledger :=
  ledger.entries.foldl (pruneScope nowMs retentionMs idempotencyRetentionMs) ledger

def hasIdentity (charges : List LedgerEvent) : Bool := charges.any fun c => c.id ≠ none

def lastAt (charges : List LedgerEvent) : Nat := (charges.getLast?.map LedgerEvent.instant).getD 0

/-- The order in which scopes are evicted: those without an identity first, then by last activity, then by
key. -/
def evictedBefore (a b : String × List LedgerEvent) : Bool :=
  if hasIdentity a.2 ≠ hasIdentity b.2 then !hasIdentity a.2
  else if lastAt a.2 ≠ lastAt b.2 then decide (lastAt a.2 ≤ lastAt b.2)
  else !strLt b.1 a.1

/-- One pass of the loop of `evictToCap`. -/
def evictScope (maxKeys : Nat) (ledger : Ledger) (entry : String × List LedgerEvent) : Ledger :=
  if ledger.size ≤ maxKeys then ledger else ledger.delete entry.1

/-- Evict scopes until the ledger fits; those in `protectedKeys` stay. -/
def evictToCap (ledger : Ledger) (maxKeys : Nat) (protectedKeys : List String) : Ledger :=
  if ledger.size ≤ maxKeys then ledger
  else
    ((ledger.entries.filter fun e => !protectedKeys.contains e.1).insertionSort
      fun a b => evictedBefore a b).foldl (evictScope maxKeys) ledger

end PrReviewer.Followup
