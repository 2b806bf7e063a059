import PrReviewer.Precheck.Fingerprint
import PrReviewer.Js.Slice

/-!
# What the config hash separates

The lines of a configuration are joined with line breaks, and a value may have line breaks of its own.
The text can be read back when each line of it that begins with a key and `=` is the first line of an
entry (`Unambiguous`): then the entries are the blocks of the text that begin at such lines.

- `origin_of_mem`: where a selected value comes from. It is a value of the environment as it is, a text
  without line breaks, or a secret.
- `filteredLines_inj`: texts of unambiguous environments are equal only if their sorted lines are.
-/

open Js List

namespace PrReviewer.Precheck

/-! ## Keys -/

/-- The keys outside the `AI_` namespace under which a line can stand. -/
def otherLineKeys : List String :=
  exactConfigKeys ++ ["REVIEW_VERBOSITY", "CLAIM_FALSIFICATION", "DERIVED_OBLIGATIONS",
    "REVIEW_TRIAGE", "REVIEW_TRIAGE_ROUTING_MODE", "SCORER_ACTION_VERSION", "SCORER_RUBRIC_VERSION"]

/-- A line can stand under the key. -/
def isLineKey (key : String) : Bool := startsWith key "AI_" || otherLineKeys.contains key

/-- The keys of which a digest is written. -/
def digestKeys : List String := "AI_CONFIDENCE_API_KEY" :: credentialAiKeys

/-- The keys that are written with a text of the code's own. -/
def constantKeys : List String :=
  ["REPOSITORY_SKILLS", "REPOSITORY_SKILLS_FINGERPRINT", "REVIEW_VERBOSITY", "CLAIM_FALSIFICATION",
    "DERIVED_OBLIGATIONS", "REVIEW_TRIAGE", "REVIEW_TRIAGE_ROUTING_MODE", "SCORER_ACTION_VERSION",
    "SCORER_RUBRIC_VERSION", "AI_EXTRA_HEADERS"] ++ anthropicEffortSupportKeys

/-- The value of the variable is written as it is, or trimmed. -/
def isVerbatim (key : String) : Bool :=
  isSwept key || ["REPOSITORY_SKILL_PATH", "REPOSITORY_SKILLS_FINGERPRINT"].contains key ||
    (conditionalAiKeys.contains key && !canonicalizedAiKeys.contains key &&
      !anthropicEffortSupportKeys.contains key && !endsWith key "_API_KEY")

/-- What is written of the value. -/
def written (key value : String) : String := if isSwept key then value else trim value

/-- The name has no `=` and no line break. -/
def PlainKey (key : String) : Prop := '=' ∉ key.toList ∧ '\n' ∉ key.toList

instance (key : String) : Decidable (PlainKey key) := inferInstanceAs (Decidable (_ ∧ _))

/-- The line begins with a key under which a line can stand, and `=`. -/
def KeyShaped (line : List Char) : Prop :=
  '=' ∈ line ∧ isLineKey (String.ofList (line.takeWhile (· ≠ '='))) = true

instance (line : List Char) : Decidable (KeyShaped line) := inferInstanceAs (Decidable (_ ∧ _))

/-- No line of the value after its first one is key-shaped. -/
def PlainValue (value : String) : Prop :=
  ∀ line ∈ (value.toList.splitOn '\n').tail, ¬ KeyShaped line

instance (value : String) : Decidable (PlainValue value) :=
  inferInstanceAs (Decidable (∀ line ∈ _, _))

/-- Of every variable whose value is written: the name is plain, and in the value no line break is
followed by a key and `=`. -/
def Unambiguous (env : Env) : Prop :=
  ∀ e ∈ env.entries, isVerbatim e.1 = true → PlainKey e.1 ∧ PlainValue (written e.1 e.2)

instance (env : Env) : Decidable (Unambiguous env) := inferInstanceAs (Decidable (∀ e ∈ _, _))

theorem startsWith_iff {s p : String} : startsWith s p = true ↔ p.toList <+: s.toList :=
  isPrefixOf_iff_prefix

variable {key : String} {c : Char} {env' : Env}

/-- A line key does not begin with white space or `#`. -/
theorem isLineKey_start (h : isLineKey key = true) :
    ∃ c cs, key.toList = c :: cs ∧ isSpace c = false ∧ c ≠ '#' := by
  rw [isLineKey, Bool.or_eq_true] at h
  rcases h with h | h
  · obtain ⟨rest, hrest⟩ := startsWith_iff.mp h
    exact ⟨'A', 'I' :: '_' :: rest, hrest.symm, by decide, by decide⟩
  · have hall : ∀ k ∈ otherLineKeys, (k.toList.head?.any fun c => !isSpace c && c != '#') = true := by
      simp only [otherLineKeys, exactConfigKeys, forall_mem_append, forall_mem_cons]
      and_intros <;> decide +kernel
    obtain ⟨c, hc, hchar⟩ := (Option.any_eq_true _ _).mp (hall key (by simpa using h))
    obtain ⟨cs, hcs⟩ := List.head?_eq_some_iff.mp hc
    rw [Bool.and_eq_true, Bool.not_eq_true', bne_iff_ne] at hchar
    exact ⟨c, cs, hcs, hchar.1, hchar.2⟩

theorem isSwept_isLineKey (h : isSwept key = true) : isLineKey key = true := by
  simp only [isSwept, isLineKey, otherLineKeys, Bool.or_eq_true, Bool.and_eq_true,
    contains_iff_mem, mem_append] at h ⊢
  rcases h with ⟨⟨h, -⟩, -⟩ | ⟨h, -⟩
  · exact .inl h
  · exact .inr (.inl h)

instance digestKeys_spec : Fact (∀ key ∈ digestKeys,
    PlainKey key ∧ isLineKey key = true ∧ isVerbatim key = false ∧ key ∉ constantKeys) :=
  ⟨by decide +kernel⟩

instance constantKeys_spec : Fact (∀ key ∈ constantKeys, PlainKey key ∧ isLineKey key = true) :=
  ⟨forall_mem_append.mpr ⟨by decide +kernel, by decide +kernel⟩⟩

theorem isVerbatim_isLineKey (h : isVerbatim key = true) : isLineKey key = true := by
  have hcond : ∀ k ∈ conditionalAiKeys, isLineKey k = true := by
    simp only [conditionalAiKeys, forall_mem_cons]
    and_intros <;> decide +kernel
  have hskills : ∀ k ∈ ["REPOSITORY_SKILL_PATH", "REPOSITORY_SKILLS_FINGERPRINT"],
      isLineKey k = true := by decide +kernel
  simp only [isVerbatim, Bool.or_eq_true, Bool.and_eq_true] at h
  rcases h with (h | h) | ⟨⟨⟨h, -⟩, -⟩, -⟩
  · exact isSwept_isLineKey h
  · exact hskills key (contains_iff_mem.mp h)
  · exact hcond key (contains_iff_mem.mp h)

/-! ## Digests and header fingerprints -/

/-- A digest in hexadecimal. -/
def HexDigest (sha256Hex : String → String) : Prop :=
  ∀ text, sha256Hex text ≠ "" ∧ (sha256Hex text).toList.all isLowerHex = true

variable {sha256Hex : String → String}

theorem isLowerHex_not_space (h : isLowerHex c = true) :
    isSpace c = false ∧ c ≠ '\n' := by
  have hrange : (0x30 ≤ c.toNat ∧ c.toNat ≤ 0x39) ∨ (0x61 ≤ c.toNat ∧ c.toNat ≤ 0x66) := by
    simpa [isLowerHex, isDigit, Char.le_def, UInt32.le_iff_toNat_le] using h
  constructor
  · have hlist : c.toNat ∉ [0x9, 0xA, 0xB, 0xC, 0xD, 0x20, 0xA0, 0x1680, 0x2028, 0x2029, 0x202F,
        0x205F, 0x3000, 0xFEFF] := by
      intro hm
      simp at hm
      omega
    have hlow : ¬ 0x2000 ≤ c.toNat := by omega
    simp only [isSpace, hlow, decide_false, Bool.false_and, Bool.or_false, contains_eq_mem,
      hlist]
  · rintro rfl
    have : ('\n' : Char).toNat = 10 := rfl
    omega

theorem credentialDigest_chars (h : HexDigest sha256Hex) (key value : String) :
    ∀ c ∈ (credentialDigest sha256Hex key value).toList, isSpace c = false ∧ c ≠ '\n' := by
  intro c hc
  rw [credentialDigest, sliceTo, String.toList_ofList] at hc
  have hall := all_eq_true.mp (h (key ++ "\x00" ++ value)).2
  exact isLowerHex_not_space (hall c ((prefix_takeUnits _ _).subset hc))

theorem toLower_ne_newline (h : isHeaderNameChar c = true) : c.toLower ≠ '\n' := by
  intro hlower
  have hnot : isHeaderNameChar '\n' = false := by decide +kernel
  delta Char.toLower at hlower
  split at hlower
  · next hupper =>
    have hval := congrArg (fun c : Char => c.val.toNat) hlower
    simp [UInt32.toNat_add, UInt32.le_iff_toNat_le] at hval hupper
    omega
  · rw [hlower, hnot] at h
    cases h

theorem parseHeaderLines_names {lines : List (List Char)} {seen : List String}
    {headers : List (String × String)} (h : parseHeaderLines lines seen = some headers) :
    ∀ e ∈ headers, e.1.toList.all isHeaderNameChar = true := by
  induction lines generalizing seen headers with
  | nil =>
    cases h
    simp
  | cons line lines ih =>
    rw [parseHeaderLines] at h
    dsimp only at h
    split at h
    · exact ih h
    · split at h
      · cases h
      · split at h
        · next hpair =>
          obtain ⟨rest, hrest, rfl⟩ := Option.map_eq_some_iff.mp h
          simp only [assertExtraHeaderPair, Bool.and_eq_true] at hpair
          intro e he
          rcases mem_cons.mp he with rfl | he
          · exact hpair.1.1.1.2
          · exact ih hrest e he
        · cases h

theorem not_mem_intercalate {sep : String} {l : List String} (hsep : c ∉ sep.toList)
    (hl : ∀ s ∈ l, c ∉ s.toList) : c ∉ (sep.intercalate l).toList := by
  induction l with
  | nil => simp
  | cons s l ih =>
    have hs := hl s mem_cons_self
    have ih' := ih fun t ht => hl t (mem_cons_of_mem _ ht)
    cases l with
    | nil => simpa using hs
    | cons t l =>
      rw [String.intercalate_cons_cons, String.toList_append, String.toList_append, mem_append,
        mem_append]
      rintro ((h | h) | h)
      · exact hs h
      · exact hsep h
      · exact ih' h

/-- A header fingerprint has no line break. -/
theorem extraHeaderFingerprint_plain (h : HexDigest sha256Hex) {raw fingerprint : String}
    (hf : extraHeaderFingerprint sha256Hex raw = some fingerprint) : '\n' ∉ fingerprint.toList := by
  obtain ⟨headers, hparse, rfl⟩ := Option.map_eq_some_iff.mp hf
  have hnames := parseHeaderLines_names (Option.filter_eq_some_iff.mp hparse).1
  refine not_mem_intercalate (by decide) fun entry hentry => ?_
  rw [mem_sortStrings] at hentry
  obtain ⟨header, hheader, rfl⟩ := mem_map.mp hentry
  have hlower : '\n' ∉ header.1.toLower.toList := by
    change '\n' ∉ (header.1.map Char.toLower).toList
    rw [String.toList_map, mem_map]
    rintro ⟨c, hc, heq⟩
    exact toLower_ne_newline (all_eq_true.mp (hnames header hheader) c hc) heq
  unfold headerEntry
  dsimp only
  split
  · exact hlower
  · have hdigest : '\n' ∉ (credentialDigest sha256Hex header.1.toLower header.2).toList :=
      fun hc => (credentialDigest_chars h _ _ _ hc).2 rfl
    simp [hlower, hdigest]

/-! ## Where the selected values come from -/

inductive Origin (env : Env) : String × Selected → Prop
  | verbatim (key value : String) (hget : env.get? key = some value)
    (hkey : isVerbatim key = true) : Origin env (key, .text (written key value))
  | constant (key text : String) (hkey : key ∈ constantKeys) (htext : '\n' ∉ text.toList) :
    Origin env (key, .text text)
  | secret (key value : String) (hkey : key ∈ digestKeys) : Origin env (key, .secret value)

variable {env : Env} {actionVersion : String} {e : String × Selected}

/-- A value that is not empty when trimmed is that of a variable. -/
theorem get?_of_trim (h : trim (orEmpty env key) ≠ "") :
    env.get? key = some (orEmpty env key) := by
  unfold orEmpty at h ⊢
  cases hg : env.get? key with
  | none =>
    rw [hg] at h
    exact absurd (by decide +kernel) h
  | some v => rfl

theorem origin_trimmed (hkey : isVerbatim key = true) (hswept : isSwept key = false)
    (h : trim (orEmpty env key) ≠ "") : Origin env (key, .text (trim (orEmpty env key))) := by
  have := Origin.verbatim key _ (get?_of_trim h) hkey
  rwa [written, hswept, if_neg Bool.false_ne_true] at this

theorem origin_swept (h : e ∈ (sweptKeys env).map fun key => (key, .text (orEmpty env key))) :
    Origin env e := by
  obtain ⟨key, hkey, rfl⟩ := mem_map.mp h
  rw [sweptKeys, mem_sortStrings, mem_filter] at hkey
  obtain ⟨hmem, hswept⟩ := hkey
  obtain ⟨⟨k, v⟩, hentry, rfl⟩ := mem_map.mp hmem
  have hget := Map.mem_entries_iff.mp hentry
  have := Origin.verbatim k v hget (by simp [isVerbatim, hswept])
  rw [written, if_pos hswept] at this
  rwa [orEmpty, hget]

theorem origin_skill (h : e ∈ skillEntries env) : Origin env e := by
  unfold skillEntries at h
  dsimp only at h
  simp only [mem_append] at h
  rcases h with (h | h) | h
  · split at h
    · rw [mem_singleton.mp h]
      exact .constant _ _ (by decide +kernel) (by decide)
    · cases h
  · split at h
    · next hpath =>
      rw [mem_singleton.mp h]
      exact origin_trimmed (by decide +kernel) (by decide +kernel) hpath
    · cases h
  · split at h
    · rw [mem_singleton.mp h]
      split
      · exact .constant _ _ (by decide +kernel) (by decide)
      · next hcontent => exact origin_trimmed (by decide +kernel) (by decide +kernel) hcontent
    · cases h

theorem origin_review (h : e ∈ reviewEntries env) : Origin env e := by
  have hmode : ∀ mode : String, mode = "advisory" ∨ mode = "request" → '\n' ∉ mode.toList := by
    rintro mode (rfl | rfl) <;> decide
  unfold reviewEntries at h
  dsimp only at h
  simp only [mem_append] at h
  rcases h with (((h | h) | h) | h) | h <;> split at h
  all_goals first
    | cases h; done
    | skip
  all_goals
    rw [mem_singleton.mp h]
    refine .constant _ _ (by decide +kernel) ?_
  · decide
  · decide
  · decide
  · decide
  · next hon => exact hmode _ hon.2

instance conditional_spec : Fact (∀ key ∈ conditionalAiKeys, isSwept key = false ∧
    (canonicalizedAiKeys.contains key = true → key ∈ constantKeys) ∧
    (endsWith key "_API_KEY" = true → key ∈ digestKeys) ∧
    (startsWith key "AI_CONFIDENCE_" = false → endsWith key "_API_KEY" = false)) := ⟨by
  unfold conditionalAiKeys
  simp only [forall_mem_cons]
  and_intros <;> decide +kernel⟩

theorem origin_conditional (hhex : HexDigest sha256Hex) (hversion : '\n' ∉ actionVersion.toList)
    {key : String} (hkey : key ∈ conditionalAiKeys)
    (h : e ∈ conditionalEntries sha256Hex actionVersion env key) : Origin env e := by
  obtain ⟨hswept, hcanonical, hapi, hplain⟩ := conditional_spec.out key hkey
  unfold conditionalEntries at h
  dsimp only at h
  split at h
  · next hcan =>
    split at h
    · cases h
    · split at h
      · cases h
      · rw [mem_singleton.mp h]
        refine .constant _ _ (hcanonical hcan) ?_
        cases hf : extraHeaderFingerprint sha256Hex (trim (orEmpty env key)) with
        | none => decide
        | some f => exact extraHeaderFingerprint_plain hhex hf
  · next hcan =>
    split at h
    · next hsupport =>
      split at h
      · rw [mem_singleton.mp h]
        exact .constant _ _ (mem_append_right _ (contains_iff_mem.mp hsupport)) (by decide)
      · cases h
    · next hsupport =>
      have hverbatim : endsWith key "_API_KEY" = false → isVerbatim key = true := by
        intro hend
        rw [isVerbatim, Bool.eq_false_iff.mpr hcan, Bool.eq_false_iff.mpr hsupport, hend,
          contains_iff_mem.mpr hkey]
        simp
      split at h
      · split at h
        · cases h
        · next hactive =>
          rw [Bool.or_eq_true, not_or, decide_eq_true_eq] at hactive
          split at h
          · next hend =>
            rw [mem_singleton.mp h]
            exact .secret _ _ (hapi hend)
          · next hend =>
            have htrimmed := origin_trimmed (hverbatim (by simpa using hend)) hswept hactive.2
            split at h
            · simp only [mem_cons, not_mem_nil, or_false] at h
              rcases h with rfl | rfl | rfl
              · exact .constant _ _ (by decide +kernel) hversion
              · exact .constant _ _ (by decide +kernel) (by decide)
              · exact htrimmed
            · rw [mem_singleton.mp h]
              exact htrimmed
      · next hconfidence =>
        split at h
        · cases h
        · next hvalue =>
          rw [mem_singleton.mp h]
          exact origin_trimmed (hverbatim (hplain (by simpa using hconfidence))) hswept hvalue

theorem origin_credential (hkey : key ∈ credentialAiKeys)
    (h : e ∈ credentialEntries env key) : Origin env e := by
  unfold credentialEntries at h
  dsimp only at h
  split at h
  · cases h
  · rw [mem_singleton.mp h]
    exact .secret _ _ (mem_cons_of_mem _ hkey)

theorem origin_of_mem (hhex : HexDigest sha256Hex) (hversion : '\n' ∉ actionVersion.toList)
    (h : e ∈ configEntries sha256Hex actionVersion env) : Origin env e := by
  simp only [configEntries, mem_append, mem_flatMap] at h
  rcases h with (((h | h) | h) | ⟨key, hkey, h⟩) | ⟨key, hkey, h⟩
  · exact origin_swept h
  · exact origin_skill h
  · exact origin_review h
  · exact origin_conditional hhex hversion hkey h
  · exact origin_credential hkey h

/-! ## Lines -/

/-- What stands behind the `=` in the line of an entry. -/
def writtenText (sha256Hex : String → String) : String × Selected → String
  | (_, .text value) => value
  | (key, .secret value) => credentialDigest sha256Hex key value

theorem configLine_eq (e : String × Selected) :
    configLine sha256Hex e = e.1 ++ "=" ++ writtenText sha256Hex e := by
  obtain ⟨key, value | value⟩ := e <;> rfl

theorem plainValue_of_not_mem {value : String} (h : '\n' ∉ value.toList) : PlainValue value := by
  intro line hline
  rw [splitOn_eq_singleton h] at hline
  cases hline

/-- The key of an entry is a plain line key, and what stands behind it is plain. -/
theorem Origin.plain (hhex : HexDigest sha256Hex) (henv : Unambiguous env) (h : Origin env e) :
    PlainKey e.1 ∧ isLineKey e.1 = true ∧ PlainValue (writtenText sha256Hex e) := by
  cases h with
  | verbatim key value hget hkey =>
    obtain ⟨hplain, hvalue⟩ := henv (key, value) (Map.mem_entries_iff.mpr hget) hkey
    exact ⟨hplain, isVerbatim_isLineKey hkey, hvalue⟩
  | constant key text hkey htext =>
    obtain ⟨hplain, hline⟩ := constantKeys_spec.out key hkey
    exact ⟨hplain, hline, plainValue_of_not_mem htext⟩
  | secret key value hkey =>
    obtain ⟨hplain, hline, -⟩ := digestKeys_spec.out key hkey
    exact ⟨hplain, hline, plainValue_of_not_mem fun hc =>
      (credentialDigest_chars hhex key value _ hc).2 rfl⟩

/-- A digest is written exactly for the secrets. -/
theorem Origin.kind (h : Origin env e) : e.1 ∈ digestKeys ↔ ∃ value, e.2 = .secret value := by
  cases h with
  | verbatim key value hget hkey =>
    refine iff_of_false (fun hd => ?_) (by simp)
    rw [(digestKeys_spec.out key hd).2.2.1] at hkey
    cases hkey
  | constant key text hkey htext =>
    exact iff_of_false (fun hd => (digestKeys_spec.out key hd).2.2.2 hkey) (by simp)
  | secret key value hkey => exact iff_of_true hkey ⟨value, rfl⟩

/-- The trimmed line of an entry. -/
theorem trim_line (hline : isLineKey e.1 = true) : (trim (configLine sha256Hex e)).toList =
    e.1.toList ++ '=' :: trimEnd (writtenText sha256Hex e).toList := by
  obtain ⟨c, cs, hcs, hspace, -⟩ := isLineKey_start hline
  rw [hcs]
  refine trim_append ?_ hspace (by decide)
  rw [configLine_eq, String.toList_append, String.toList_append, hcs]
  simp

theorem takeWhile_key {key rest : List Char} (h : '=' ∉ key) :
    (key ++ '=' :: rest).takeWhile (· ≠ '=') = key := by
  rw [takeWhile_append_of_pos]
  · simp
  · intro c hc
    have hne : c ≠ '=' := by
      rintro rfl
      exact h hc
    simpa using hne

theorem KeyShaped.of_prefix {l l' : List Char} (h : KeyShaped l) (hpre : l <+: l') :
    KeyShaped l' := by
  obtain ⟨rest, rfl⟩ := hpre
  obtain ⟨hmem, hkey⟩ := h
  obtain ⟨a, b, rfl, ha⟩ := eq_append_cons_of_mem hmem
  rw [takeWhile_key ha] at hkey
  refine ⟨by simp, ?_⟩
  rw [append_assoc, cons_append, takeWhile_key ha]
  exact hkey

/-- The lines of an entry are a block: the first one is key-shaped and no other is. -/
theorem splitOn_trim_line (hplain : PlainKey e.1) (hline : isLineKey e.1 = true)
    (hvalue : PlainValue (writtenText sha256Hex e)) :
    IsBlock KeyShaped ((trim (configLine sha256Hex e)).toList.splitOn '\n') := by
  obtain ⟨ws, hws, -⟩ := trimEnd_spec (writtenText sha256Hex e).toList
  obtain ⟨y, ls, z, ms, hls, hms, -, hprefix⟩ :=
    splitOn_append_prefix '\n' (trimEnd (writtenText sha256Hex e).toList) ws
  rw [← hws] at hms
  have hkey : '\n' ∉ e.1.toList ++ ['='] := by simp [hplain.2]
  obtain ⟨y', ls', hls', hsplit⟩ :=
    splitOn_append_of_not_mem hkey (trimEnd (writtenText sha256Hex e).toList)
  rw [hls] at hls'
  obtain ⟨rfl, rfl⟩ := List.cons.inj hls'
  rw [append_assoc, singleton_append] at hsplit
  rw [trim_line hline, hsplit]
  refine ⟨_, _, rfl, ⟨by simp, ?_⟩, ?_⟩
  · rw [append_assoc, singleton_append, takeWhile_key hplain.1, String.ofList_toList]
    exact hline
  · intro l hl hshaped
    obtain ⟨m, hm, hpre⟩ := hprefix l hl
    have hm' : m ∈ ((writtenText sha256Hex e).toList.splitOn '\n').tail := by rw [hms]; exact hm
    exact hvalue m hm' (hshaped.of_prefix hpre)

/-! ## Texts -/

section Texts

variable (hhex : HexDigest sha256Hex) (hversion : '\n' ∉ actionVersion.toList)

/-- The lines that are hashed for an environment without config files. -/
def hashedLines (sha256Hex : String → String) (actionVersion : String) (env : Env) : List String :=
  sortStrings ((configEntries sha256Hex actionVersion env).map fun e =>
    trim (configLine sha256Hex e))

/-- None of the config file variables is set. -/
def NoConfigFiles (env : Env) : Prop := ∀ name ∈ configFileVars, orEmpty env name = ""

instance (env : Env) : Decidable (NoConfigFiles env) := inferInstanceAs (Decidable (∀ name ∈ _, _))

theorem fileLines_nil (h : NoConfigFiles env) (readFileText : String → Option String) :
    fileLines readFileText env = [] := by
  have hnil : (configFileVars.filterMap env.get?).filter (· ≠ "") = [] := by
    rw [filter_eq_nil_iff]
    intro path hpath
    obtain ⟨name, hname, hget⟩ := mem_filterMap.mp hpath
    have := h name hname
    rw [orEmpty, hget] at this
    simpa using this
  rw [fileLines, hnil]
  rfl

include hhex hversion in
/-- Trimming drops no line, and no line looks like a comment. -/
theorem filteredLines_eq (henv : Unambiguous env) (hfiles : NoConfigFiles env)
    (readFileText : String → Option String) :
    filteredLines (collectConfigLines sha256Hex readFileText actionVersion env) =
      hashedLines sha256Hex actionVersion env := by
  rw [filteredLines, collectConfigLines, fileLines_nil hfiles, append_nil, map_map,
    hashedLines]
  congr 1
  refine filter_eq_self.mpr fun line hline => ?_
  obtain ⟨e, he, rfl⟩ := mem_map.mp hline
  have hkey := ((origin_of_mem hhex hversion he).plain hhex henv).2.1
  obtain ⟨c, cs, hcs, -, hne⟩ := isLineKey_start hkey
  have htext := @trim_line sha256Hex _ hkey
  rw [hcs] at htext
  have hempty : trim (configLine sha256Hex e) ≠ "" := by
    intro hnil
    rw [hnil] at htext
    cases htext
  have hcomment : startsWith (trim (configLine sha256Hex e)) "#" = false := by
    have hhash : "#".toList = ['#'] := by decide
    rw [startsWith, htext, hhash]
    simp [List.isPrefixOf, Ne.symm hne]
  simp [hempty, hcomment]

include hhex hversion in
/-- The text of an unambiguous environment can be read back. -/
theorem hashedLines_inj {env' : Env} (henv : Unambiguous env) (henv' : Unambiguous env')
    (hne : hashedLines sha256Hex actionVersion env ≠ [])
    (hne' : hashedLines sha256Hex actionVersion env' ≠ [])
    (h : joinLines (hashedLines sha256Hex actionVersion env) =
      joinLines (hashedLines sha256Hex actionVersion env')) :
    hashedLines sha256Hex actionVersion env = hashedLines sha256Hex actionVersion env' := by
  have hblocks : ∀ env : Env, Unambiguous env →
      ∀ b ∈ ((hashedLines sha256Hex actionVersion env).map String.toList).map (List.splitOn '\n'),
        IsBlock KeyShaped b := by
    intro env henv b hb
    obtain ⟨cs, hcs, rfl⟩ := mem_map.mp hb
    obtain ⟨line, hline, rfl⟩ := mem_map.mp hcs
    rw [hashedLines, mem_sortStrings] at hline
    obtain ⟨e, he, rfl⟩ := mem_map.mp hline
    obtain ⟨hplain, hkey, hvalue⟩ := (origin_of_mem hhex hversion he).plain hhex henv
    exact splitOn_trim_line hplain hkey hvalue
  have htext : ['\n'].intercalate ((hashedLines sha256Hex actionVersion env).map String.toList) =
      ['\n'].intercalate ((hashedLines sha256Hex actionVersion env').map String.toList) := by
    have := congrArg String.toList h
    rw [joinLines, joinLines, String.toList_append, String.toList_append] at this
    simpa [String.toList_intercalate] using append_cancel_right this
  have hflat := congrArg (List.splitOn '\n') htext
  rw [splitOn_intercalate_flatMap '\n' (by simpa using hne),
    splitOn_intercalate_flatMap '\n' (by simpa using hne'), flatMap_def, flatMap_def] at hflat
  have hmap := blocks_injective (hblocks env henv) (hblocks env' henv') hflat
  have hinj : Function.Injective (List.splitOn '\n' : List Char → List (List Char)) := by
    intro a b hab
    calc a = ['\n'].intercalate (a.splitOn '\n') := (intercalate_splitOn '\n').symm
      _ = b := by rw [hab, intercalate_splitOn]
  exact (map_injective_iff.mpr fun a b hab => String.toList_inj.mp hab)
    (map_injective_iff.mpr hinj hmap)

end Texts

/-! ## The hash -/

def configHash (sha256Hex : String → String) (readFileText : String → Option String)
    (actionVersion : String) (env : Env) : String :=
  computeConfigHash sha256Hex (collectConfigLines sha256Hex readFileText actionVersion env)

def Selected.trimmed : Selected → Selected
  | .text value => .text (trim value)
  | .secret value => .secret (trim value)

/-- The selected values, trimmed. -/
def selection (sha256Hex : String → String) (actionVersion : String) (env : Env) :
    List (String × Selected) :=
  (configEntries sha256Hex actionVersion env).map fun e => (e.1, e.2.trimmed)

/-- Some key has a selected value in one environment that it does not have in the other. -/
def Differ (sha256Hex : String → String) (actionVersion : String) (env env' : Env) : Prop :=
  ∃ e, ¬ (e ∈ selection sha256Hex actionVersion env ↔ e ∈ selection sha256Hex actionVersion env')

/-- The hash does not collide on the texts and the secrets of the two environments. -/
structure CollisionFree (sha256Hex : String → String) (readFileText : String → Option String)
    (actionVersion : String) (env env' : Env) : Prop where
  texts :
    let text := fun env : Env =>
      joinLines (filteredLines (collectConfigLines sha256Hex readFileText actionVersion env))
    sha256Hex (text env) = sha256Hex (text env') → text env = text env'
  secrets : ∀ key value value', (key, Selected.secret value) ∈ configEntries sha256Hex actionVersion env →
    (key, Selected.secret value') ∈ configEntries sha256Hex actionVersion env' →
    credentialDigest sha256Hex key value = credentialDigest sha256Hex key value' → value = value'

theorem trimEnd_of_not_space {cs : List Char} (h : ∀ c ∈ cs, isSpace c = false) : trimEnd cs = cs := by
  rw [trimEnd, rdropWhile_eq_self_iff]
  intro hne
  simp [h _ (getLast_mem hne)]

/-- Entries with the same trimmed line have the same key and the same trimmed value. -/
theorem entry_of_line (hhex : HexDigest sha256Hex) {env' : Env} {e' : String × Selected}
    (henv : Unambiguous env) (henv' : Unambiguous env') (ho : Origin env e) (ho' : Origin env' e')
    (hsecrets : ∀ key value value', e = (key, .secret value) → e' = (key, .secret value') →
      credentialDigest sha256Hex key value = credentialDigest sha256Hex key value' → value = value')
    (h : trim (configLine sha256Hex e) = trim (configLine sha256Hex e')) :
    e.1 = e'.1 ∧ e.2.trimmed = e'.2.trimmed := by
  obtain ⟨hplain, hline, -⟩ := ho.plain hhex henv
  obtain ⟨hplain', hline', -⟩ := ho'.plain hhex henv'
  have htext := congrArg String.toList h
  rw [trim_line hline, trim_line hline'] at htext
  have hkey : e.1 = e'.1 := by
    have := congrArg (List.takeWhile (· ≠ '=')) htext
    rw [takeWhile_key hplain.1, takeWhile_key hplain'.1] at this
    exact String.toList_inj.mp this
  have hvalue : trimEnd (writtenText sha256Hex e).toList =
      trimEnd (writtenText sha256Hex e').toList := by
    rw [hkey] at htext
    exact (List.cons.inj (append_cancel_left htext)).2
  refine ⟨hkey, ?_⟩
  have hkind := ho.kind
  rw [hkey, ho'.kind] at hkind
  obtain ⟨key, value | value⟩ := e <;> obtain ⟨key', value' | value'⟩ := e' <;> dsimp only at hkey
  · exact congrArg Selected.text (trim_eq_of_trimEnd hvalue)
  · simp at hkind
  · simp at hkind
  · subst hkey
    simp only [writtenText] at hvalue
    rw [trimEnd_of_not_space fun c hc => (credentialDigest_chars hhex key value c hc).1,
      trimEnd_of_not_space fun c hc => (credentialDigest_chars hhex key value' c hc).1] at hvalue
    rw [hsecrets key value value' rfl rfl (String.toList_inj.mp hvalue)]

/-- Environments with the same lines have the same selected values. -/
theorem selection_subset (hhex : HexDigest sha256Hex) (hversion : '\n' ∉ actionVersion.toList)
    {env' : Env} (henv : Unambiguous env) (henv' : Unambiguous env')
    (hsecrets : ∀ key value value',
      (key, Selected.secret value) ∈ configEntries sha256Hex actionVersion env →
      (key, Selected.secret value') ∈ configEntries sha256Hex actionVersion env' →
      credentialDigest sha256Hex key value = credentialDigest sha256Hex key value' → value = value')
    (h : hashedLines sha256Hex actionVersion env = hashedLines sha256Hex actionVersion env')
    (he : e ∈ selection sha256Hex actionVersion env) :
    e ∈ selection sha256Hex actionVersion env' := by
  obtain ⟨x, hx, rfl⟩ := mem_map.mp he
  have hline : trim (configLine sha256Hex x) ∈ hashedLines sha256Hex actionVersion env := by
    rw [hashedLines, mem_sortStrings]
    exact mem_map_of_mem hx
  rw [h, hashedLines, mem_sortStrings] at hline
  obtain ⟨x', hx', heq⟩ := mem_map.mp hline
  obtain ⟨hkey, hvalue⟩ := entry_of_line hhex henv henv' (origin_of_mem hhex hversion hx)
    (origin_of_mem hhex hversion hx')
    (by rintro key value value' rfl rfl; exact hsecrets key value value' hx hx') heq.symm
  rw [hkey, hvalue]
  exact mem_map_of_mem hx'

/-- Equal hashes come from equal lines. -/
theorem lines_of_hash (hhex : HexDigest sha256Hex) (hversion : '\n' ∉ actionVersion.toList)
    {readFileText : String → Option String} {env' : Env}
    (hfree : CollisionFree sha256Hex readFileText actionVersion env env')
    (hfiles : NoConfigFiles env) (hfiles' : NoConfigFiles env') (henv : Unambiguous env)
    (henv' : Unambiguous env') (h : configHash sha256Hex readFileText actionVersion env =
      configHash sha256Hex readFileText actionVersion env') :
    hashedLines sha256Hex actionVersion env = hashedLines sha256Hex actionVersion env' := by
  have htexts := hfree.texts
  dsimp only at htexts
  unfold configHash computeConfigHash at h
  dsimp only at h
  rw [filteredLines_eq hhex hversion henv hfiles, filteredLines_eq hhex hversion henv' hfiles'] at h htexts
  split at h
  · next hnil =>
    split at h
    · next hnil' => rw [hnil, hnil']
    · exact absurd h.symm (hhex _).1
  · next hne =>
    split at h
    · exact absurd h (hhex _).1
    · next hne' => exact hashedLines_inj hhex hversion henv henv' hne hne' (htexts h)

/-! ## Order -/

theorem get?_of_perm (h : env'.entries.Perm env.entries) : env'.get? = env.get? := by
  funext key
  refine Option.ext fun value => ?_
  rw [← Map.mem_entries_iff, ← Map.mem_entries_iff]
  exact h.mem_iff

/-- The lines do not depend on the order of the environment. -/
theorem collectConfigLines_of_perm (h : env'.entries.Perm env.entries)
    (readFileText : String → Option String) :
    collectConfigLines sha256Hex readFileText actionVersion env' =
      collectConfigLines sha256Hex readFileText actionVersion env := by
  have hget := get?_of_perm h
  have hor : orEmpty env' = orEmpty env := by
    funext key
    rw [orEmpty, orEmpty, hget]
  have htrue : isTrue env' = isTrue env := by
    funext key
    rw [isTrue, isTrue, hor]
  have hswept : sweptKeys env' = sweptKeys env := sortStrings_eq ((h.map Prod.fst).filter _)
  have hconditional : conditionalEntries sha256Hex actionVersion env' =
      conditionalEntries sha256Hex actionVersion env := by
    funext key
    unfold conditionalEntries confidenceFamilyActive
    rw [hor, htrue]
  have hcredential : credentialEntries env' = credentialEntries env := by
    funext key
    rw [credentialEntries, credentialEntries, hor]
  unfold collectConfigLines configEntries skillEntries reviewEntries fileLines
  rw [hswept, hor, htrue, hconditional, hcredential, hget]

/-! ## Separation -/

/-- Environments without config files, in whose values no line break is followed by a key and `=`, have
different hashes if their selected values differ; and no hash depends on the order of an environment. -/
theorem hash_separates (hhex : HexDigest sha256Hex) (hversion : '\n' ∉ actionVersion.toList)
    (readFileText : String → Option String) :
    (∀ env env' : Env, NoConfigFiles env → NoConfigFiles env' →
      CollisionFree sha256Hex readFileText actionVersion env env' →
      Unambiguous env → Unambiguous env' → Differ sha256Hex actionVersion env env' →
      configHash sha256Hex readFileText actionVersion env ≠
        configHash sha256Hex readFileText actionVersion env') ∧
      ∀ env env' : Env, env'.entries.Perm env.entries →
        configHash sha256Hex readFileText actionVersion env' =
          configHash sha256Hex readFileText actionVersion env := by
  constructor
  · rintro env env' hfiles hfiles' hfree henv henv' ⟨e, hdiffer⟩ heq
    have hlines := lines_of_hash hhex hversion hfree hfiles hfiles' henv henv' heq
    refine hdiffer ⟨selection_subset hhex hversion henv henv' hfree.secrets hlines, ?_⟩
    exact selection_subset hhex hversion henv' henv
      (fun key value value' hv hv' hd => (hfree.secrets key value' value hv' hv hd.symm).symm)
      hlines.symm
  · intro env env' hperm
    rw [configHash, collectConfigLines_of_perm hperm]
    rfl

/-! ## An environment and its neighbours -/

/-- A hash that gives SHA-256 on the texts below, and one digest for all others. -/
def sha256Table (text : String) : String :=
  if text = "AI_API_KEY\x00k" then
    "155f7f431e4f31b83d61c7b0621997a0ec9436f7bf68976de4d9e8b0b88f2d23"
  else if text = "AI_API_KEY=155f7f431e4f\nSYSTEM_PROMPT=Be brief.\n" then
    "d4dbcc5a8961ed40d7d5be907d09878935c6d2b46b1dae84c0bae6c31bba33bf"
  else if text = "AI_API_KEY=155f7f431e4f\nSYSTEM_PROMPT=Be brief.\nBe kind.\n" then
    "1a1827dc73db62ac7a8866bf6a162178f1ca2f06fc7f8f9fa79e5cf3e690ff73"
  else if text = "SYSTEM_PROMPT=Be brief.\nTOOL_MODE=off\n" then
    "6e94051b5cf5e8f5c9542accd83178310626123fd83bef9e7b07a8c80d1d7c1f"
  else "0000000000000000000000000000000000000000000000000000000000000000"

theorem hexDigest_sha256Table : HexDigest sha256Table := by
  intro text
  unfold sha256Table
  split_ifs <;> decide +kernel

def noFiles (_ : String) : Option String := none

def brief : Env := ⟨[("AI_API_KEY", "k"), ("SYSTEM_PROMPT", "Be brief.")], by decide +kernel⟩

def briefAndKind : Env :=
  ⟨[("AI_API_KEY", "k"), ("SYSTEM_PROMPT", "Be brief.\nBe kind.")], by decide +kernel⟩

theorem conditionalEntries_absent (h : env.get? key = none) :
    conditionalEntries sha256Hex actionVersion env key = [] := by
  have hvalue : trim (orEmpty env key) = "" := by
    rw [orEmpty, h]
    decide +kernel
  have hoff : isTrue env key = false := by
    rw [isTrue, orEmpty, h]
    decide +kernel
  simp [conditionalEntries, hvalue, hoff]
theorem configEntries_eq (sha256Hex : String → String) (actionVersion : String) (env : Env) :
    configEntries sha256Hex actionVersion env =
      (sweptKeys env).map (fun key => (key, .text (orEmpty env key))) ++ skillEntries env ++ reviewEntries env ++
        (conditionalAiKeys.filter fun key => (env.get? key).isSome).flatMap
          (conditionalEntries sha256Hex actionVersion env) ++ credentialAiKeys.flatMap (credentialEntries env) := by
  have hpresent : ∀ keys : List String, keys.flatMap (conditionalEntries sha256Hex actionVersion env) =
      (keys.filter fun key => (env.get? key).isSome).flatMap (conditionalEntries sha256Hex actionVersion env) := by
    intro keys
    induction keys with
    | nil => rfl
    | cons key keys ih =>
      cases hget : env.get? key with
      | none => simp [conditionalEntries_absent hget, hget, ih]
      | some value => simp [hget, ih]
  rw [configEntries, hpresent]

theorem entries_brief : configEntries sha256Table "1.0.0" brief =
    [("SYSTEM_PROMPT", .text "Be brief."), ("AI_API_KEY", .secret "k")] :=
  (configEntries_eq _ _ _).trans (by decide +kernel)

theorem entries_briefAndKind : configEntries sha256Table "1.0.0" briefAndKind =
    [("SYSTEM_PROMPT", .text "Be brief.\nBe kind."), ("AI_API_KEY", .secret "k")] :=
  (configEntries_eq _ _ _).trans (by decide +kernel)

/-- A prompt with two lines and its first line alone. -/
theorem hash_separates_prompts : configHash sha256Table noFiles "1.0.0" brief ≠
    configHash sha256Table noFiles "1.0.0" briefAndKind := by
  have hfree : CollisionFree sha256Table noFiles "1.0.0" brief briefAndKind := by
    refine ⟨?_, fun key value value' h h' _ => ?_⟩
    · simp only [collectConfigLines, entries_brief, entries_briefAndKind]
      decide +kernel
    rw [entries_brief] at h
    rw [entries_briefAndKind] at h'
    simp only [mem_cons, Prod.mk.injEq, reduceCtorEq, and_false, Selected.secret.injEq,
      not_mem_nil, or_false, false_or] at h h'
    rw [h.2, h'.2]
  have hdiffer : Differ sha256Table "1.0.0" brief briefAndKind := by
    refine ⟨("SYSTEM_PROMPT", .text "Be brief."), ?_⟩
    rw [selection, selection, entries_brief, entries_briefAndKind]
    decide +kernel
  exact (hash_separates hexDigest_sha256Table (by decide) noFiles).1 brief briefAndKind
    (by decide +kernel) (by decide +kernel) hfree (by decide +kernel) (by decide +kernel) hdiffer

/-- The second line of a prompt that reads like the entry of another key. -/
def briefAndOff : Env := ⟨[("SYSTEM_PROMPT", "Be brief.\nTOOL_MODE=off")], by decide +kernel⟩

def briefOff : Env := ⟨[("TOOL_MODE", "off"), ("SYSTEM_PROMPT", "Be brief.")], by decide +kernel⟩

theorem entries_briefAndOff : configEntries sha256Table "1.0.0" briefAndOff =
    [("SYSTEM_PROMPT", .text "Be brief.\nTOOL_MODE=off")] :=
  (configEntries_eq _ _ _).trans (by decide +kernel)

theorem entries_briefOff : configEntries sha256Table "1.0.0" briefOff =
    [("SYSTEM_PROMPT", .text "Be brief."), ("TOOL_MODE", .text "off")] :=
  (configEntries_eq _ _ _).trans (by decide +kernel)

theorem hash_confuses :
    ¬ ∀ (sha256Hex : String → String) (readFileText : String → Option String) (actionVersion : String)
      (env env' : Env), HexDigest sha256Hex → '\n' ∉ actionVersion.toList →
      NoConfigFiles env → NoConfigFiles env' →
      CollisionFree sha256Hex readFileText actionVersion env env' →
      Differ sha256Hex actionVersion env env' →
      configHash sha256Hex readFileText actionVersion env ≠
        configHash sha256Hex readFileText actionVersion env' := by
  intro h
  have hsame : configHash sha256Table noFiles "1.0.0" briefAndOff =
      configHash sha256Table noFiles "1.0.0" briefOff := by
    simp only [configHash, collectConfigLines, entries_briefAndOff, entries_briefOff]
    decide +kernel
  have hfree : CollisionFree sha256Table noFiles "1.0.0" briefAndOff briefOff := by
    refine ⟨?_, fun key value value' hv _ _ => ?_⟩
    · simp only [collectConfigLines, entries_briefAndOff, entries_briefOff]
      decide +kernel
    simp [entries_briefAndOff] at hv
  have hdiffer : Differ sha256Table "1.0.0" briefAndOff briefOff := by
    refine ⟨("TOOL_MODE", .text "off"), ?_⟩
    rw [selection, selection, entries_briefAndOff, entries_briefOff]
    decide +kernel
  exact h sha256Table noFiles "1.0.0" briefAndOff briefOff hexDigest_sha256Table (by decide)
    (by decide +kernel) (by decide +kernel) hfree hdiffer hsame

end PrReviewer.Precheck
