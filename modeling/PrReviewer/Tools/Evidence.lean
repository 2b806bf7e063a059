import PrReviewer.Js.RegExp

/-!
# Required evidence

The rows of the required-evidence window and which call advances which row: `src/tools/loop.ts` with the path
classifiers of `src/requirements/trace-plan.ts`, `src/context/change-anchors.ts` and
`src/enforcement/requirement-trace.ts`.

- A dependency row (`obligation`) is advanced by the shape of a URL or a query, a prose row by its words, a
  trace row by a read that covers one of its open slots.
- `toLowerCase` maps what becomes an ASCII letter; what is outside ASCII is no part of a word here.
-/

open Js

namespace PrReviewer.Tools

/-- `s.toLowerCase()`, as far as ASCII letters come out of it. -/
def toLowerCase (s : String) : List Char :=
  s.toList.flatMap fun c =>
    if c.toNat = 0x212A then ['k']
    else if c.toNat = 0x130 then ['i', Char.ofNat 0x307]
    else [c.toLower]

/-- `[a-z0-9]`. -/
def isLowerWord (c : Char) : Bool := isDigit c || ('a' ≤ c && c ≤ 'z')

/-! ## Dependency evidence -/

/-- `DEPENDENCY_EVIDENCE_TOOLS`. -/
def dependencyEvidenceTools : List String := ["web_fetch", "web_search"]

inductive DependencyEvidenceObligation where
  | provenance
  | releaseDelta
  | securityAdvisory
  deriving DecidableEq, Repr

/-- `DEPENDENCY_EVIDENCE_OBLIGATIONS`. -/
def dependencyEvidenceObligations : List DependencyEvidenceObligation :=
  [.provenance, .releaseDelta, .securityAdvisory]

def securityAdvisoryTokens : List String :=
  ["advisor", "ghsa", "cve", "osv", "vulnerab", "security", "exploit", "bulletin"]

def releaseDeltaTokens : List String :=
  ["release", "changelog", "changes", "changeset", "compare", "diff", "commits", "commit", "tag", "news",
    "history", "migration", "upgrade", "notes"]

def provenanceTokens : List String :=
  ["registry", "repositor", "package", "artifact", "provenance", "sbom", "publisher", "vendor", "maintainer",
    "homepage", "readme", "chart", "helm", "mirror"]

def publisherRegistryHosts : List String :=
  ["hub.docker.com", "docker.io", "index.docker.io", "ghcr.io", "quay.io", "gcr.io", "mcr.microsoft.com",
    "registry.k8s.io", "k8s.gcr.io", "pypi.org", "pypi.python.org", "www.npmjs.com", "npmjs.com",
    "registry.npmjs.org", "crates.io", "pkg.go.dev", "artifacthub.io", "hub.helm.sh", "operatorhub.io",
    "rubygems.org", "repo1.maven.org", "search.maven.org", "mvnrepository.com", "maven.google.com",
    "packagist.org", "nuget.org", "pub.dev", "registry.terraform.io", "registry.nuget.org", "public.ecr.aws",
    "gallery.ecr.aws", "us.gcr.io", "eu.gcr.io", "asia.gcr.io"]

def sourceCodeHosts : List String := ["github.com", "gitlab.com", "bitbucket.org", "dev.azure.com"]

/-- `text.indexOf(token)`, with what is in front of it and from it on. -/
def splitAt? (token : List Char) : List Char → List Char → Option (List Char × List Char)
  | before, [] => if token = [] then some (before, []) else none
  | before, c :: cs =>
    if token.isPrefixOf (c :: cs) then some (before, c :: cs) else splitAt? token (before ++ [c]) cs

/-- `text.includes(token)`. -/
def includes (text : List Char) (token : String) : Bool := (splitAt? token.toList [] text).isSome

/-- The non-empty pieces between the characters of a class. -/
def pieces (separator : Char → Bool) (text : List Char) : List (List Char) :=
  (text.splitOnP separator).filter (· ≠ [])

/-- The path of a repository on its host. -/
def namesRepository (host : String) (segments : List (List Char)) : Bool :=
  if host = "dev.azure.com" then segments.length = 4 && segments[2]? = some "_git".toList
  else segments.length = 2

def dependencyEvidenceObligationsForCall (name : String) (args : List (String × Value)) :
    List DependencyEvidenceObligation :=
  if !dependencyEvidenceTools.contains name then []
  else
    match (Value.object args).get (if name = "web_fetch" then "url" else "query") with
    | .string target =>
      let lower := toLowerCase target
      let tokens := pieces (fun c => !(isLowerWord c || c = '.')) lower
      let mentions (keywords : List String) : Bool :=
        tokens.any fun token => keywords.any fun keyword => includes token keyword
      let hostToken := tokens.find? fun token => token.contains '.'
      let named := hostToken.any fun hostToken =>
        let host := String.ofList (if "www.".toList.isPrefixOf hostToken then hostToken.drop 4 else hostToken)
        if publisherRegistryHosts.contains host then true
        else if sourceCodeHosts.contains host then
          let afterHost := ((splitAt? hostToken [] lower).map fun p => p.2.drop hostToken.length).getD []
          let path := afterHost.takeWhile fun c => c ≠ '?' && c ≠ '#'
          namesRepository host (pieces (· = '/') path)
        else false
      dependencyEvidenceObligations.filter fun obligation =>
        match obligation with
        | .provenance => mentions provenanceTokens || named
        | .releaseDelta => mentions releaseDeltaTokens
        | .securityAdvisory => mentions securityAdvisoryTokens
    | _ => []

/-! ## Targets -/

mutual

/-- The strings in a value, at most three levels down. -/
def argumentStrings (depth : Nat) : Value → List String
  | .string s => [s]
  | .array xs => if 3 ≤ depth then [] else argumentStringsAll (depth + 1) xs
  | .object fields => if 3 ≤ depth then [] else argumentStringsOf (depth + 1) fields
  | _ => []

def argumentStringsAll (depth : Nat) : List Value → List String
  | [] => []
  | x :: xs => argumentStrings depth x ++ argumentStringsAll depth xs

def argumentStringsOf (depth : Nat) : List (String × Value) → List String
  | [] => []
  | (_, v) :: fields => argumentStrings depth v ++ argumentStringsOf depth fields

end

def argumentTargetText (args : List (String × Value)) : List Char :=
  toLowerCase (" ".intercalate (argumentStrings 0 (.object args)))

/-- The token stands in the text with no letter or digit next to it. -/
def targetMentionsFrom (token : List Char) : Option Char → List Char → Bool
  | before, cs =>
    (token.isPrefixOf cs && !before.any isLowerWord && !(cs.drop token.length).head?.any isLowerWord) ||
      match cs with
      | [] => false
      | c :: cs => targetMentionsFrom token (some c) cs

def targetMentions (target : List Char) (token : String) : Bool := targetMentionsFrom token.toList none target

/-- `[A-Za-z0-9_.\-]`. -/
def isPathChar (c : Char) : Bool := isDigit c || c.isAlpha || c = '_' || c = '.' || c = '-'

/-- `TRACE_PATH_TOKEN_RE`. -/
def tracePathTokenRe : RegExp :=
  let nameChar := RegExp.char fun c => isDigit c || c.isAlpha || c = '_' || c = '-'
  .alt
    (.seq (.plus (.char isPathChar)) (.plus (.seq (.char (· == '/')) (.plus (.char isPathChar)))))
    (.concat [nameChar, .plus nameChar, .char (· == '.'), .upTo (.char fun c => isDigit c || c.isAlpha) 8])

/-- `text.match(re)` under the flag `g`, for a pattern that matches no empty text. -/
def allMatches (re : RegExp) : Nat → List Char → List Char → List (List Char)
  | 0, _, _ => []
  | fuel + 1, before, after =>
    match re.matchAt ⟨before, after, []⟩, after with
    | some (m, c), _ => m.text.toList :: allMatches re fuel c.before c.after
    | none, [] => []
    | none, x :: xs => allMatches re fuel (x :: before) xs

/-- `MAX_TRACE_TARGET_PATHS`. -/
def maxTraceTargetPaths : Nat := 64

def traceReadTargetPaths (target : List Char) : List (List Char) :=
  let found := allMatches tracePathTokenRe (target.length + 1) [] target
  (found.foldl (fun paths path => if paths.contains path then paths else paths ++ [path]) []).take
    maxTraceTargetPaths

/-- `TEST_DIRS`. -/
def testDirs : List String := ["test", "tests", "spec", "specs", "testing", "__tests__"]

/-- `TEST_BASE_RE`, on a text in lower case. It follows Python, where `$` also matches before a last line
feed. -/
def testBaseRe : RegExp :=
  let any := RegExp.char (· != '\n')
  let dash := RegExp.char fun c => c == '-' || c == '_'
  let textEnd := RegExp.seq (.opt (.char (· == '\n'))) (.assert fun _ a => a.isNone)
  .concat [.textStart, .choice [
    .concat [.literal "test", dash, .plus any],
    .concat [.plus any, dash, .literal "test", .opt (.char (· == 's')), .char (· == '.'), .plus any],
    .concat [.plus any, .char (· == '.'), .choice [.literal "test", .literal "spec"],
      .opt (.seq (.char (· == '.')) (.plus (.char (· != '.'))))],
    .concat [.plus any, .literal "_test.go"]], textEnd]

def isTestPath (path : List Char) : Bool :=
  let parts := (path.splitOn '/').map fun part => toLowerCase (String.ofList part)
  let base := parts.getLast?.getD []
  parts.dropLast.any (fun part => testDirs.contains (String.ofList part)) || testBaseRe.test (String.ofList base)
    || "_test.go".toList.isSuffixOf base

def traceTargetIsTestRead (target : List Char) : Bool := (traceReadTargetPaths target).any isTestPath

/-- `ownerPatternRegex(pattern).test(path)`: `*` is a run without a slash, `?` one such character. -/
def ownerPatternRegex (pattern : String) : RegExp :=
  let one := RegExp.char (· != '/')
  .concat (.textStart :: pattern.toList.map (fun c =>
    if c = '*' then .star one else if c = '?' then one else .char (· == c))
      ++ [.assert fun _ a => a.isNone])

def tracePatternsMatchPath (patterns : List String) (paths : List (List Char)) : Bool :=
  patterns.any fun pattern => paths.any fun path => (ownerPatternRegex pattern).test (String.ofList path)

/-! ## Rows -/

structure TraceSeamHint where
  name : String
  owners : List String
  tests : List String
  deriving DecidableEq, Repr

inductive TraceProofShape where
  | runtime
  | structural
  | distributed
  | nonCode
  deriving DecidableEq, Repr

structure RequiredEvidenceRow where
  id : String
  tokens : List String
  obligation : Option DependencyEvidenceObligation := none
  /-- The tools that may discharge the row; all of them without the list. -/
  tools : Option (List String) := none
  trace : Bool := false
  requiredAttempts : Option Nat := none
  proofShape : Option TraceProofShape := none
  seams : List TraceSeamHint := []
  deriving DecidableEq, Repr

/-- `MAX_GROUPS_PER_RULE`. -/
def maxGroupsPerRule : Nat := 4

def RequiredEvidenceRow.allowsTool (row : RequiredEvidenceRow) (name : String) : Bool :=
  row.tools.all fun tools => tools.contains name

/-- Whether a call advances a row that is no trace row. -/
def rowAdmittedByCall (row : RequiredEvidenceRow) (name : String) (args : List (String × Value)) : Bool :=
  match row.obligation with
  | some obligation => (dependencyEvidenceObligationsForCall name args).contains obligation
  | none => row.allowsTool name && row.tokens.any fun token => targetMentions (argumentTargetText args) token

/-! ## Slots -/

inductive TraceSlotKind where
  | enforcement
  | test
  | any
  deriving DecidableEq, Repr

/-- A slot is its kind, and for a distributed row its seam. -/
structure TraceEvidenceSlot where
  seam : Option Nat
  kind : TraceSlotKind
  deriving DecidableEq, Repr

def RequiredEvidenceRow.isDistributed (row : RequiredEvidenceRow) : Bool :=
  row.proofShape = some .distributed && row.seams ≠ []

def traceRowSlots (row : RequiredEvidenceRow) : List TraceEvidenceSlot :=
  if !row.trace then []
  else if row.isDistributed then
    (List.range (min row.seams.length maxGroupsPerRule)).flatMap fun index =>
      [⟨some index, .enforcement⟩, ⟨some index, .test⟩]
  else if row.requiredAttempts = some 2 then [⟨none, .enforcement⟩, ⟨none, .test⟩]
  else [⟨none, .any⟩]

def traceUnmetSlots (row : RequiredEvidenceRow) (credited : List TraceEvidenceSlot) : List TraceEvidenceSlot :=
  (traceRowSlots row).filter fun slot => !credited.contains slot

def traceSeamSlotForTarget (seam : TraceSeamHint) (target : List Char) (targetIsTest : Bool) : Option TraceSlotKind :=
  let paths := traceReadTargetPaths target
  let named := seam.name ≠ "" && targetMentionsFrom (toLowerCase seam.name) none target
  if !targetIsTest then
    if tracePatternsMatchPath seam.owners paths || (seam.owners = [] && named) then some .enforcement else none
  else if tracePatternsMatchPath seam.tests paths || (seam.tests = [] && named) then some .test
  else none

/-- The open slot of a trace row that a call covers. -/
def traceSlotCreditForCall (row : RequiredEvidenceRow) (name : String) (args : List (String × Value))
    (unmet : List TraceEvidenceSlot) : Option TraceEvidenceSlot :=
  if !row.allowsTool name then none
  else
    let target := argumentTargetText args
    let targetIsTest := traceTargetIsTestRead target
    let vocabulary := row.tokens.any fun token => targetMentions target token
    if row.isDistributed then
      let covered := (row.seams.take maxGroupsPerRule).zipIdx.findSome? fun (seam, index) =>
        (traceSeamSlotForTarget seam target targetIsTest).bind fun kind =>
          unmet.find? (· = ⟨some index, kind⟩)
      covered.or
        (if vocabulary then unmet.find? (·.kind = if targetIsTest then .test else .enforcement) else none)
    else if row.requiredAttempts = some 2 then
      if targetIsTest then unmet.find? (· = ⟨none, .test⟩)
      else if vocabulary then unmet.find? (· = ⟨none, .enforcement⟩) else none
    else if vocabulary then unmet.find? (· = ⟨none, .any⟩) else none

end PrReviewer.Tools
