import PrReviewer.Js.Async
import PrReviewer.Js.Value

/-!
# The platform publication seam (`platform/publish-api.ts`, `platform/owner-identity.ts`)

`Call` is the part of `PublishPlatformApi` that a publication calls, `Call.Reply` what each call
fulfils with. `createReview` stands apart from the other calls (`SideCall`): a function whose type is
over `SideCall` cannot create a review. Ids are the strings `String(id)`.

`PublishPlatformApi` itself is what is known of a platform before any call: its name, and which
optional members it has.
-/

namespace PrReviewer.Publish

open Js

inductive PublishPlatformName where
  | github
  | forgejo
  | tangled
  deriving DecidableEq, Repr

structure NativeReviewSurface where
  supported : Bool
  reason : Option String
  deriving DecidableEq, Repr

structure PublishPlatformApi where
  platform : PublishPlatformName
  nativeReviewSurface : Option NativeReviewSurface
  currentHeadUnavailableReason : Option String
  supersededReviewDeletion : Option NativeReviewSurface
  /-- Whether the optional methods are there. -/
  hasAuthenticatedIdentity : Bool
  hasResolveTrustedOwner : Bool
  hasDeleteSupersededReview : Bool
  deriving DecidableEq, Repr

/-! ## What the platform lists -/

/-- The `user` of a comment or a review. -/
structure User where
  id : Value
  login : Option String

structure PublishCommentRef where
  id : String
  updated_at : Option String
  body : Option String
  user : Option User

structure PublishReviewRef where
  id : String
  node_id : Option String
  state : Option String
  body : Option String
  user : Option User
  submitted_at : Option String
  updated_at : Option String
  official : Option Bool

structure ManagedInlineCommentRef where
  id : String
  reviewId : String
  user : Option User
  /-- `inReplyToId != null || in_reply_to_id != null`. -/
  isReply : Bool
  hasReplies : Option Bool

structure ManagedInlineComments where
  supported : Bool
  complete : Bool
  comments : List ManagedInlineCommentRef

structure ThreadQueryResult where
  ok : Bool
  threads : List String
  deriving DecidableEq, Repr

/-! ## What the platform is asked to write -/

inductive NativeReviewEvent where
  | APPROVE
  | REQUEST_CHANGES
  | COMMENT
  deriving DecidableEq, Repr

/-- An inline comment: its anchor and its text. -/
structure NativeReviewComment where
  path : String
  body : String
  line : Option Nat
  start_line : Option Nat
  new_position : Option Nat
  deriving DecidableEq, Repr

structure NativeReviewRequest where
  body : String
  event : NativeReviewEvent
  comments : List NativeReviewComment
  commit_id : Option String
  deriving DecidableEq, Repr

structure CreateReviewResult where
  ok : Bool
  error : Option String
  reviewId : Option String
  deriving DecidableEq, Repr

structure StickyResult where
  ok : Bool
  commentId : Option String
  updatedAt : Option String
  error : Option String
  deriving DecidableEq, Repr

structure ReviewDeletionResult where
  ok : Bool
  error : Option String
  deriving DecidableEq, Repr

/-! ## Owner identity -/

inductive TrustedOwnerIdentity where
  | login (login : String)
  | userId (userId : String)
  deriving DecidableEq, Repr

structure IdentityResolution where
  identity : Option TrustedOwnerIdentity
  reason : String
  deriving DecidableEq, Repr

/-- `/^[1-9]\d*$/`. -/
def isDecimalId (s : String) : Bool :=
  match s.toList with
  | [] => false
  | c :: cs => '1' ≤ c && c ≤ '9' && cs.all isDigit

/-- A positive safe integer or its decimal string. -/
def canonicalUserId (value : Value) : Option String :=
  match value with
  | .count n => if 0 < n ∧ n ≤ 2 ^ 53 - 1 then some (toString n) else none
  | .string s => if isDecimalId s then some s else none
  | _ => none

/-- A login as it is compared: trimmed and lowercased. -/
def loginKey (login : String) : String := (trim login).toLower

def hasUsableOwner (user : Option User) : Bool :=
  match user with
  | none => false
  | some u => u.login.any (fun l => trim l != "") || (canonicalUserId u.id).isSome

/-- Does a forge-reported user belong to the trusted owner identity? A user id is never compared with
a login. -/
def ownerMatchesIdentity (user : Option User) (identity : TrustedOwnerIdentity) : Bool :=
  match user, identity with
  | none, _ => false
  | some u, .userId id => canonicalUserId u.id == some id
  | some u, .login l =>
    u.login.any fun login => trim login != "" && trim l != "" && loginKey login == loginKey l

/-! ## Calls -/

/-- The calls other than `createReview`. -/
inductive SideCall where
  | getHeadSha
  | authenticatedIdentity
  | resolveTrustedOwner
  | listIssueComments
  | listIssueCommentsResult
  | listReviews
  | listManagedInlineComments (reviewIds : List String)
  | minimizedReviewIds
  | unresolvedSupersededThreads (managedIds : List String)
  | reviewCommentFeedback (commentIds : List String)
  | reviewThreadStates (reviewIds : List String)
  | collaboratorPermission (login : String)
  | upsertStickyComment (marker body : String)
  | retireInlineComment (reviewId commentId : String)
  | dismissReview (reviewId message : String)
  | minimizeReview (nodeId : String)
  | resolveThread (threadId : String)
  | deleteSupersededReview (reviewId : String)
  | removeLabel (label : String)
  | requestReviewers (users teams : List String)
  deriving DecidableEq, Repr

/-- What a call fulfils with. Of a reviewer request only its `ok` is used; what the feedback reads
(`readFeedbackState`) give is left as a value. -/
abbrev SideCall.Reply : SideCall → Type
  | .getHeadSha => Option String
  | .authenticatedIdentity => Option String
  | .resolveTrustedOwner => IdentityResolution
  | .listIssueComments => List PublishCommentRef
  | .listReviews => List PublishReviewRef
  | .listManagedInlineComments _ => ManagedInlineComments
  | .minimizedReviewIds => List String
  | .unresolvedSupersededThreads _ => ThreadQueryResult
  | .upsertStickyComment _ _ => StickyResult
  | .retireInlineComment _ _ => Bool
  | .dismissReview _ _ => Bool
  | .minimizeReview _ => Bool
  | .resolveThread _ => Bool
  | .deleteSupersededReview _ => ReviewDeletionResult
  | .removeLabel _ => Bool
  | .requestReviewers _ _ => Bool
  | .listIssueCommentsResult => Value
  | .reviewCommentFeedback _ => Value
  | .reviewThreadStates _ => Value
  | .collaboratorPermission _ => Value

inductive Call where
  | createReview (request : NativeReviewRequest)
  | side (c : SideCall)
  deriving DecidableEq, Repr

abbrev Call.Reply : Call → Type
  | .createReview _ => CreateReviewResult
  | .side c => c.Reply

/-- The calls that change nothing on the platform. A trusted-owner resolution is not one: on Forgejo
it probes with a reaction. -/
def Call.isRead : Call → Bool
  | .side .getHeadSha | .side .authenticatedIdentity | .side .listIssueComments
  | .side .listIssueCommentsResult | .side .listReviews | .side (.listManagedInlineComments _)
  | .side .minimizedReviewIds | .side (.unresolvedSupersededThreads _)
  | .side (.reviewCommentFeedback _) | .side (.reviewThreadStates _)
  | .side (.collaboratorPermission _) => true
  | _ => false

/-- What a trusted-owner resolution gave. -/
structure TrustedOwner where
  owner : Option TrustedOwnerIdentity
  reason : String
  deriving DecidableEq, Repr

/-- The local variable of a publication that its calls share: the memo of
`createRunTrustedOwnerResolver`. -/
abbrev Memo := Option TrustedOwner

/-- A function that cannot create a review. -/
abbrev Side (α : Type) := Async SideCall SideCall.Reply Memo α

/-- A function that may. -/
abbrev Publishing (α : Type) := Async Call Call.Reply Memo α

def Side.publishing {α : Type} (p : Side α) : Publishing α := p.via Call.side (fun _ r => r)

end PrReviewer.Publish
