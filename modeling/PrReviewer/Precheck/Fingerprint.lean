import PrReviewer.Js.Lines
import PrReviewer.Js.Map

/-!
# The config fingerprint

`collectConfigLines` selects the configuration values of an environment and writes each as a line
`key=value`; `computeConfigHash` hashes the sorted lines. `configEntries` is the selection: a value that
is written as it is (`text`), or a secret of which a digest is written (`secret`).

- `sha256Hex` (of Node's crypto module), the version of the action (of a generated file) and the reading
  of a config file are parameters.
- `toLowerCase` is only compared with ASCII words, or applied to header names that are ASCII tokens.
- The texts of header errors are not modelled: `collectConfigLines` catches them.
-/

open Js

namespace PrReviewer.Precheck

/-! ## Constants -/

/-- `EXACT_CONFIG_KEYS`. -/
def exactConfigKeys : List String :=
  ["ANTHROPIC_VERSION", "AZURE_DEPLOYMENT_ID", "AZURE_OPENAI_API_VERSION", "AZURE_OPENAI_ENDPOINT",
    "OPENAI_BASE_URL", "ACTION_REF", "CONTEXT_LIMIT_MODE", "MODEL_CONTEXT_TOKENS",
    "PRIMARY_MODEL_CONTEXT_TOKENS", "SMART_MODEL_CONTEXT_TOKENS", "FALLBACK_MODEL_CONTEXT_TOKENS",
    "PRIMARY_REQUEST_SHAPE", "SMART_REQUEST_SHAPE", "REVIEW_ROUTING_MODE", "SYSTEM_PROMPT",
    "STANDARDS_FILE_CANDIDATES", "LINEAR_API_KEY_CONFIGURED", "LINEAR_ISSUE_PREFIXES",
    "LINEAR_ISSUE_TIMEOUT_SEC", "LINEAR_ENABLE_FOR_FORKS", "EVIDENCE_PROVIDER_TIMEOUT_SEC",
    "EVIDENCE_PROVIDER_MAX_OUTPUT_BYTES", "SARIF_FILES", "SARIF_MAX_FINDINGS",
    "EVIDENCE_BLOCKER_ENFORCEMENT", "EVIDENCE_ENABLE_FOR_FORKS", "TOOL_MODE", "REPOSITORY_SKILLS",
    "REPOSITORY_SKILL_PATH", "REPOSITORY_SKILLS_FINGERPRINT", "TOOL_MAX_REQUESTS",
    "PRIMARY_TOOL_MAX_REQUESTS", "SMART_TOOL_MAX_REQUESTS", "TOOL_MAX_ROUNDS",
    "SMART_TOOL_MAX_ROUNDS", "TOOL_LOOP_WALL_CLOCK_SEC", "SMART_TOOL_LOOP_WALL_CLOCK_SEC",
    "TOOL_TURN_TIMEOUT_SEC", "TOOL_CORPUS_MAX_BYTES", "TOOL_MAX_TOKENS_PER_TURN",
    "TOOL_MAX_RESPONSE_BYTES", "TOOL_ALLOWED_GH_API_REPOS", "TOOL_REQUEST_TIMEOUT_SEC",
    "TOOL_FAILURE_ENFORCEMENT", "TOOL_MIN_SUCCESSFUL_REQUESTS", "TOOL_ENABLE_FOR_FORKS",
    "RELATED_CODE_CONTEXT", "RELATED_CODE_MAX_BYTES", "SYNTAX_CONTEXT", "SYNTAX_CONTEXT_MAX_BYTES",
    "SYNTAX_CONTEXT_PROVIDER", "REPO_MAP_CONTEXT", "REPO_MAP_MAX_BYTES", "PR_THREAD_CONTEXT",
    "PR_THREAD_MAX_BYTES", "REVIEW_THREADS_CONTEXT", "REVIEW_THREADS_MAX_BYTES", "DEEP_REVIEW",
    "DEEP_REVIEW_TIMEOUT_SEC", "DEEP_REVIEW_MAX_TOKENS", "DEEP_REVIEW_CORPUS_MAX_BYTES",
    "PRECHECK_SELECTION_SIGNATURE"]

/-- `CONFIG_FILE_VARS`. -/
def configFileVars : List String :=
  ["AI_CONFIG_FILE", "AI_ADDITIONAL_INSTRUCTIONS_FILE", "AI_EXCLUDES_FILE", "AI_INCLUDES_FILE",
    "AI_PROMPT_FILE", "AI_RULES_FILE", "SYSTEM_PROMPT_FILE", "STANDARDS_FILE",
    "EVIDENCE_PROVIDERS_FILE"]

/-- `CONDITIONAL_AI_KEYS`. -/
def conditionalAiKeys : List String :=
  ["AI_REASONING_EFFORT", "AI_PRIMARY_REASONING_EFFORT", "AI_SMART_REASONING_EFFORT",
    "AI_FALLBACK_REASONING_EFFORT", "AI_SPECIALIST_REASONING_EFFORT", "AI_ANTHROPIC_EFFORT_SUPPORT",
    "AI_SMART_ANTHROPIC_EFFORT_SUPPORT", "AI_FALLBACK_ANTHROPIC_EFFORT_SUPPORT",
    "AI_SPECIALIST_ANTHROPIC_EFFORT_SUPPORT", "AI_ANTHROPIC_STRUCTURED_OUTPUT_SUPPORT",
    "AI_SMART_ANTHROPIC_STRUCTURED_OUTPUT_SUPPORT",
    "AI_FALLBACK_ANTHROPIC_STRUCTURED_OUTPUT_SUPPORT", "AI_EXTRA_HEADERS", "AI_CONFIDENCE_MODEL",
    "AI_CONFIDENCE_BASE_URL", "AI_CONFIDENCE_API_FORMAT", "AI_CONFIDENCE_REASONING_EFFORT",
    "AI_CONFIDENCE_TIMEOUT_SEC", "AI_CONFIDENCE_MAX_TOKENS", "AI_CONFIDENCE_PROMPT_TOKENS",
    "AI_CONFIDENCE_MODEL_CONTEXT_TOKENS", "AI_CONFIDENCE_ANTHROPIC_EFFORT_SUPPORT",
    "AI_CONFIDENCE_STRUCTURED_OUTPUT_SUPPORT", "AI_CONFIDENCE_API_KEY",
    "AI_CONFIDENCE_ENABLE_FOR_FORKS", "AI_CONFIDENCE_ISOLATION", "AI_CONFIDENCE_TOKENS_PARAM"]

/-- `CANONICALIZED_AI_KEYS`. -/
def canonicalizedAiKeys : List String := ["AI_EXTRA_HEADERS"]

/-- `ANTHROPIC_EFFORT_SUPPORT_KEYS`. -/
def anthropicEffortSupportKeys : List String :=
  ["AI_ANTHROPIC_EFFORT_SUPPORT", "AI_SMART_ANTHROPIC_EFFORT_SUPPORT",
    "AI_FALLBACK_ANTHROPIC_EFFORT_SUPPORT", "AI_SPECIALIST_ANTHROPIC_EFFORT_SUPPORT",
    "AI_ANTHROPIC_STRUCTURED_OUTPUT_SUPPORT", "AI_SMART_ANTHROPIC_STRUCTURED_OUTPUT_SUPPORT",
    "AI_FALLBACK_ANTHROPIC_STRUCTURED_OUTPUT_SUPPORT"]

/-- `CREDENTIAL_AI_KEYS`. -/
def credentialAiKeys : List String :=
  ["AI_API_KEY", "AI_PRIMARY_API_KEY", "AI_SMART_API_KEY", "AI_FALLBACK_API_KEY",
    "AI_SPECIALIST_API_KEY"]

/-- `CONFIDENCE_RUBRIC_VERSION`. -/
def confidenceRubricVersion : String := "merge-readiness-verifier-v1"

/-- `RESERVED_EXTRA_HEADER_NAMES`. -/
def reservedExtraHeaderNames : List String :=
  ["x-api-key", "authorization", "anthropic-version", "content-type", "accept", "accept-encoding",
    "host", "content-length", "connection", "keep-alive", "te", "trailer", "transfer-encoding",
    "upgrade", "__proto__"]

/-- `MAX_EXTRA_HEADERS`. -/
def maxExtraHeaders : Nat := 16

/-- `EPHEMERAL_HEADER_SUFFIXES`. -/
def ephemeralHeaderSuffixes : List String :=
  ["-session-id", "-request-id", "-correlation-id", "-trace-id", "-span-id", "-run-id"]

/-- `EPHEMERAL_HEADER_NAMES`. -/
def ephemeralHeaderNames : List String :=
  ["traceparent", "tracestate", "x-b3-traceid", "x-b3-spanid", "x-b3-parentspanid", "sentry-trace",
    "x-sentry-trace"]

/-- `s.startsWith(p)`. -/
def startsWith (s p : String) : Bool := p.toList.isPrefixOf s.toList

/-- `s.endsWith(p)`. -/
def endsWith (s p : String) : Bool := p.toList.isSuffixOf s.toList

/-! ## Extra headers -/

/-- `HEADER_NAME_TOKEN`, for one character. -/
def isHeaderNameChar (c : Char) : Bool :=
  isDigit c || ('a' ≤ c && c ≤ 'z') || ('A' ≤ c && c ≤ 'Z') ||
    "!#$%&'*+-.^_`|~".toList.contains c

/-- Neither `HEADER_VALUE_CONTROL_CHARS` nor `HEADER_VALUE_OUT_OF_LATIN1` matches. -/
def isHeaderValueChar (c : Char) : Bool :=
  c.toNat == 0x9 || (0x20 ≤ c.toNat && c.toNat ≤ 0x7E) || (0x80 ≤ c.toNat && c.toNat ≤ 0xFF)

/-- `assertExtraHeaderPair` does not throw; `seen` has the lowercased names before. -/
def assertExtraHeaderPair (name value : String) (seen : List String) : Bool :=
  name ≠ "" && name.toList.all isHeaderNameChar && !reservedExtraHeaderNames.contains name.toLower &&
    value.toList.all isHeaderValueChar && !seen.contains name.toLower

/-- The pairs of the remaining lines; `none` when the code throws. -/
def parseHeaderLines : List (List Char) → List String → Option (List (String × String))
  | [], _ => some []
  | line :: lines, seen =>
    let trimmed := trim (String.ofList line)
    if trimmed = "" then parseHeaderLines lines seen
    else if !trimmed.toList.contains ':' then none
    else
      let name := trim (String.ofList (trimmed.toList.takeWhile (· ≠ ':')))
      let value := trim (String.ofList (trimmed.toList.dropWhile (· ≠ ':')).tail)
      if assertExtraHeaderPair name value seen then
        (parseHeaderLines lines (name.toLower :: seen)).map ((name, value) :: ·)
      else none

def parseExtraHeaders (raw : String) : Option (List (String × String)) :=
  (parseHeaderLines (raw.toList.splitOn '\n') []).filter fun headers =>
    headers.length ≤ maxExtraHeaders

def isEphemeralHeaderName (lower : String) : Bool :=
  ephemeralHeaderNames.contains lower || ephemeralHeaderSuffixes.any (endsWith lower)

variable (sha256Hex : String → String)

/-- The first 12 hex digits of the hash of the name, a NUL character and the value. -/
def credentialDigest (key value : String) : String := sliceTo 12 (sha256Hex (key ++ "\x00" ++ value))

def headerEntry (header : String × String) : String :=
  let lower := header.1.toLower
  if isEphemeralHeaderName lower then lower
  else lower ++ "=" ++ credentialDigest sha256Hex lower header.2

/-- `none` when the headers are malformed. -/
def extraHeaderFingerprint (raw : String) : Option String :=
  (parseExtraHeaders raw).map fun headers =>
    ",".intercalate (sortStrings (headers.map (headerEntry sha256Hex)))

/-! ## The selection -/

/-- The environment, as `env[key]` and `Object.keys(env)` see it. -/
abbrev Env := Map String String

/-- `env[key] ?? ""`. -/
def orEmpty (env : Env) (key : String) : String := (env.get? key).getD ""

/-- `(env[key] ?? "").trim().toLowerCase() === "true"`. -/
def isTrue (env : Env) (key : String) : Bool := (trim (orEmpty env key)).toLower == "true"

/-- A selected configuration value. -/
inductive Selected where
  | text (value : String)
  | secret (value : String)
  deriving DecidableEq

def isSwept (key : String) : Bool :=
  (startsWith key "AI_" && !endsWith key "_API_KEY" && !conditionalAiKeys.contains key) ||
    (exactConfigKeys.contains key &&
      !(["REPOSITORY_SKILLS", "REPOSITORY_SKILL_PATH", "REPOSITORY_SKILLS_FINGERPRINT"].contains key))

/-- The keys that are written with their value as it is. -/
def sweptKeys (env : Env) : List String := sortStrings (env.keys.filter isSwept)

def skillEntries (env : Env) : List (String × Selected) :=
  let skillsEnabled := isTrue env "REPOSITORY_SKILLS"
  let explicitSkillPath := trim (orEmpty env "REPOSITORY_SKILL_PATH")
  let contentFingerprint := trim (orEmpty env "REPOSITORY_SKILLS_FINGERPRINT")
  (if skillsEnabled then [("REPOSITORY_SKILLS", .text "true")] else []) ++
    (if explicitSkillPath ≠ "" then [("REPOSITORY_SKILL_PATH", .text explicitSkillPath)] else []) ++
    (if skillsEnabled ∨ explicitSkillPath ≠ "" then
      [("REPOSITORY_SKILLS_FINGERPRINT",
        .text (if contentFingerprint = "" then "unavailable" else contentFingerprint))] else [])

def reviewEntries (env : Env) : List (String × Selected) :=
  let triageEnabled := isTrue env "REVIEW_TRIAGE"
  let routingMode := (trim (orEmpty env "REVIEW_TRIAGE_ROUTING_MODE")).toLower
  (if (orEmpty env "REVIEW_VERBOSITY").toLower = "concise" then
    [("REVIEW_VERBOSITY", .text "concise")] else []) ++
    (if isTrue env "CLAIM_FALSIFICATION" then [("CLAIM_FALSIFICATION", .text "true")] else []) ++
    (if isTrue env "DERIVED_OBLIGATIONS" then [("DERIVED_OBLIGATIONS", .text "true")] else []) ++
    (if triageEnabled then [("REVIEW_TRIAGE", .text "true")] else []) ++
    (if triageEnabled ∧ (routingMode = "advisory" ∨ routingMode = "request") then
      [("REVIEW_TRIAGE_ROUTING_MODE", .text routingMode)] else [])

def confidenceFamilyActive (env : Env) : Bool :=
  trim (orEmpty env "AI_CONFIDENCE_MODEL") ≠ "" ||
    trim (orEmpty env "AI_CONFIDENCE_ISOLATION") == "require-dedicated"

/-- The entries of one key of `CONDITIONAL_AI_KEYS`. -/
def conditionalEntries (actionVersion : String) (env : Env) (key : String) :
    List (String × Selected) :=
  let value := trim (orEmpty env key)
  if canonicalizedAiKeys.contains key then
    if value = "" then []
    else
      let fingerprint := (extraHeaderFingerprint sha256Hex value).getD "malformed"
      if fingerprint = "" then [] else [(key, .text fingerprint)]
  else if anthropicEffortSupportKeys.contains key then
    if isTrue env key then [(key, .text "true")] else []
  else if startsWith key "AI_CONFIDENCE_" then
    if !confidenceFamilyActive env || value = "" then []
    else if endsWith key "_API_KEY" then [(key, .secret value)]
    else if key = "AI_CONFIDENCE_MODEL" then
      [("SCORER_ACTION_VERSION", .text actionVersion),
        ("SCORER_RUBRIC_VERSION", .text confidenceRubricVersion), (key, .text value)]
    else [(key, .text value)]
  else if value = "" then []
  else [(key, .text value)]

def credentialEntries (env : Env) (key : String) : List (String × Selected) :=
  let value := orEmpty env key
  if value = "" then [] else [(key, .secret value)]

/-- The configuration values that `collectConfigLines` selects, with their keys. -/
def configEntries (actionVersion : String) (env : Env) : List (String × Selected) :=
  (sweptKeys env).map (fun key => (key, .text (orEmpty env key))) ++ skillEntries env ++
    reviewEntries env ++ conditionalAiKeys.flatMap (conditionalEntries sha256Hex actionVersion env) ++
    credentialAiKeys.flatMap (credentialEntries env)

/-! ## Lines and hash -/

/-- The line of an entry: the value, or the digest of the secret. -/
def configLine : String × Selected → String
  | (key, .text value) => key ++ "=" ++ value
  | (key, .secret value) => key ++ "=" ++ credentialDigest sha256Hex key value

def fileLines (readFileText : String → Option String) (env : Env) : List String :=
  (sortStrings ((configFileVars.filterMap env.get?).filter (· ≠ ""))).filterMap fun path =>
    (readFileText path).map fun content => "file:" ++ path ++ "=" ++ content

def collectConfigLines (readFileText : String → Option String) (actionVersion : String) (env : Env) :
    List String :=
  (configEntries sha256Hex actionVersion env).map (configLine sha256Hex) ++
    fileLines readFileText env

/-- The lines that are hashed. -/
def filteredLines (lines : List String) : List String :=
  sortStrings ((lines.map trim).filter fun line => line ≠ "" && !startsWith line "#")

def joinLines (lines : List String) : String := "\n".intercalate lines ++ "\n"

def computeConfigHash (lines : List String) : String :=
  let filtered := filteredLines lines
  if filtered = [] then "" else sha256Hex (joinLines filtered)

end PrReviewer.Precheck
