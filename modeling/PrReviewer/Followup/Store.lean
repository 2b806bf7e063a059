import PrReviewer.Followup.Ledger

/-!
# The durable rate-limit store

`DurableRateLimitStore` of `src/followup/durable-rate-limit.ts`, on the text of the ledger file (`none` for a
missing file). A call reads the file under the exclusive lock and says what it answers and which ledger it
saves, if any.

Controllers that share a file are one after the other under the lock, so a run is a list of attempts. An
attempt that fails before the rename (no lock, an input or output error, a crash) leaves the file as it is;
`lands` says that it does not fail.

The digest of an identity is sha-256 of the Node library; here it is a parameter.
-/

open Js

namespace PrReviewer.Followup

/-- The options that the budget depends on, as the constructor checks them. -/
structure RateLimitOptions where
  retentionMs : Nat
  idempotencyRetentionMs : Nat
  maxKeys : Nat
  retentionMs_pos : 0 < retentionMs
  retentionMs_le : retentionMs ≤ idempotencyRetentionMs
  maxKeys_pos : 0 < maxKeys

/-- A validated scope of a request. -/
structure RequestScope where
  key : String
  windowMs : ℚ
  limit : Nat
  deriving DecidableEq

/-- The outcome of an atomic consume, with the reason that a refusal records. -/
inductive AtomicOutcome where
  | committed
  | denied (reason : Option String)
  deriving DecidableEq

/-- `DENY`. -/
def deny : Nat := maxSafe

/-! ## Numbers -/

/-- The exact value of a finite number. -/
def finite? : Value → Option ℚ
  | .count n => some n
  | .number x =>
    match x.toModel.unpack with
    | .zero _ => some 0
    | .finite .positive m e _ => some (m * 2 ^ e)
    | .finite .negative m e _ => some (-(m * 2 ^ e))
    | .infinity _ | .notANumber => none
  | _ => none

/-! ## One request -/

variable (options : RateLimitOptions)

/-- Is the charge in `(nowMs - windowMs, nowMs]`? -/
def inWindow (windowMs : ℚ) (nowMs : Nat) (charge : LedgerEvent) : Bool :=
  decide (minus nowMs windowMs < charge.instant) && decide (charge.instant ≤ nowMs)

/-- The charges of a scope, none for a missing one. -/
def chargesOf (ledger : Ledger) (key : String) : List LedgerEvent := (ledger.get? key).getD []

def countCharges (ledger : Ledger) (key : String) (windowMs : ℚ) (nowMs : Nat) : Nat :=
  (chargesOf ledger key).countP (inWindow windowMs nowMs)

/-- The checks of one scope; the error is the reason of the refusal. -/
def validateScope (scope : Value) : Except (Option String) RequestScope :=
  match scope with
  | .object _ =>
    match scope.get "key" with
    | .string key =>
      if isKey key = false then .error "rate-limit ledger: scope key outside the identifier grammar"
      else
        match scope.get "rule" with
        | .object rule =>
          match finite? ((Value.object rule).get "windowMs") with
          | none => .error "rate-limit ledger: malformed count query"
          | some windowMs =>
            if windowMs ≤ 0 then .error "rate-limit ledger: malformed count query"
            else if windowMs > options.retentionMs then
              .error "rate-limit ledger: window exceeds the ledger retention"
            else
              match finite? ((Value.object rule).get "limit") with
              | none => .error none
              | some limit => if ⌊limit⌋ ≤ 0 then .error none else .ok ⟨key, windowMs, ⌊limit⌋.toNat⟩
        | _ => .error "rate-limit ledger: scope key outside the identifier grammar"
    | _ => .error "rate-limit ledger: scope key outside the identifier grammar"
  | _ => .error "rate-limit ledger: scope key outside the identifier grammar"

/-- Is the digest among the charges? -/
def carries (digest : String) (charges : List LedgerEvent) : Bool := charges.any fun c => c.id = some digest

/-- Insert the charge in one scope; the flag says that the ledger changed. -/
def insertScope (charge : LedgerEvent) (state : Ledger × Bool) (scope : RequestScope) : Ledger × Bool :=
  match state.1.get? scope.key with
  | none => (state.1.set scope.key [charge], true)
  | some existing =>
    match insertCharge existing charge with
    | none => state
    | some charges => (state.1.set scope.key charges, true)

def insertCharges (ledger : Ledger) (scopes : List RequestScope) (charge : LedgerEvent) : Ledger × Bool :=
  scopes.foldl (insertScope charge) (ledger, false)

/-- The commit phase: every scope allowed. -/
def commitCharges (ledger : Ledger) (scopes : List RequestScope) (nowMs : Nat) (digest : Option String) :
    AtomicOutcome × Option Ledger :=
  let (l, changed) := insertCharges ledger scopes ⟨nowMs, digest⟩
  if changed = false then (.committed, none)
  else
    let fitted := evictToCap l options.maxKeys (scopes.map RequestScope.key)
    if fitted.size > options.maxKeys then (.denied none, none)
    else
      (.committed, some (pruneLedger fitted nowMs options.retentionMs options.idempotencyRetentionMs))

/-- Is every scope below its limit? -/
def allAllowed (ledger : Ledger) (scopes : List RequestScope) (nowMs : Nat) : Bool :=
  scopes.all fun scope => countCharges ledger scope.key scope.windowMs nowMs < scope.limit

/-- The phase under the lock. -/
def consumeLocked (ledger : Ledger) (scopes : List RequestScope) (nowMs : Nat) (digest : Option String) :
    AtomicOutcome × Option Ledger :=
  let charged := digest.elim 0 fun d =>
    scopes.countP fun scope => (ledger.get? scope.key).any (carries d)
  let presentButMissing := digest.any fun d =>
    scopes.any fun scope => (ledger.get? scope.key).any fun charges => !carries d charges
  if digest ≠ none ∧ charged = scopes.length then (.committed, none)
  else if 0 < charged then
    (.denied (some (if presentButMissing then "rate-limit ledger: inconsistent request charge"
      else "rate-limit ledger: request charge partially evicted")), none)
  else if allAllowed ledger scopes nowMs then commitCharges options ledger scopes nowMs digest
  else (.denied none, none)

/-- Read the ledger file; a missing file is the fresh start. -/
def loadLedgerUnlocked (file : Option String) : Except String (Option Ledger) :=
  match file with
  | none => .ok none
  | some text => (parseLedger text options.maxKeys).map some

/-! ## The methods -/

/-- The identity that a request carries into the ledger; an empty one counts as missing. -/
def digestOf (requestDigest : String → String) (requestId : Option String) : Option String :=
  (requestId.filter (· ≠ "")).map requestDigest

/-- The answer of `consumeScopesAtomically`, and the ledger it saves; the error is a throw. -/
def consumeScopesAtomically (requestDigest : String → String) (file : Option String) (scopes : Value)
    (nowMs : Number) (requestId : Option String) : Except String (AtomicOutcome × Option Ledger) :=
  match nowMs.safeNat? with
  | none => .ok (.denied "rate-limit ledger: malformed count query", none)
  | some now =>
    match scopes with
    | .array elements =>
      match elements.mapM (validateScope options) with
      | .error reason => .ok (.denied reason, none)
      | .ok validated => do
        let loaded ← loadLedgerUnlocked options file
        .ok (consumeLocked options (loaded.getD .empty) validated now (digestOf requestDigest requestId))
    | _ => .ok (.denied "rate-limit ledger: malformed count query", none)

/-- The ledger that `record` saves; the error is a throw. -/
def record (file : Option String) (key : String) (nowMs : Number) : Except String (Option Ledger) :=
  if isKey key = false then .error "DurableRateLimitStore: scope key must match the identifier grammar"
  else
    match nowMs.safeNat? with
    | none =>
      .error ("DurableRateLimitStore: nowMs must be a non-negative safe integer, got " ++ numberToString nowMs)
    | some now => do
      let loaded ← loadLedgerUnlocked options file
      match loaded with
      | none => .ok (some ((Map.empty : Ledger).set key [⟨now, none⟩]))
      | some ledger =>
        let prune := fun l => pruneLedger l now options.retentionMs options.idempotencyRetentionMs
        match ledger.get? key with
        | none => .ok (some (prune (evictToCap (ledger.set key [⟨now, none⟩]) options.maxKeys [key])))
        | some existing =>
          match insertCharge existing ⟨now, none⟩ with
          | none => .ok none
          | some charges => .ok (some (prune (ledger.set key charges)))

/-- `countInWindow` of a store whose lock path is writable, or was never found not to be. -/
def countInWindow (file : Option String) (key : String) (windowMs nowMs : Number) : Nat :=
  if isKey key = false then deny
  else
    match finite? (.number windowMs), nowMs.safeNat? with
    | some window, some now =>
      if window ≤ 0 then deny
      else if window > options.retentionMs then deny
      else
        match loadLedgerUnlocked options file with
        | .error _ => deny
        | .ok none => 0
        | .ok (some ledger) => countCharges ledger key window now
    | _, _ => deny

/-! ## Runs -/

/-- A call of a controller. -/
inductive Call where
  | record (key : String) (nowMs : Number)
  | consume (scopes : Value) (nowMs : Number) (requestId : Option String)

/-- The ledger that a call saves. -/
def saved (requestDigest : String → String) (file : Option String) : Call → Option Ledger
  | .record key nowMs => ((record options file key nowMs).toOption).join
  | .consume scopes nowMs requestId =>
    (consumeScopesAtomically options requestDigest file scopes nowMs requestId).toOption.bind Prod.snd

/-- A call, and whether it gets as far as the rename. -/
structure Attempt where
  call : Call
  lands : Bool

/-- The file after an attempt. -/
def step (requestDigest : String → String) (file : Option String) (a : Attempt) : Option String :=
  match saved options requestDigest file a.call with
  | some ledger => if a.lands then some (serializeLedger ledger) else file
  | none => file

end PrReviewer.Followup
