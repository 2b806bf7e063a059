import PrReviewer.Js.Map
import PrReviewer.Js.Replace
import PrReviewer.Js.Units

/-!
# Masking configured secrets

* `maskKnownSecrets` replaces each configured secret by a mark, then its URL-encoded form, then its base64 form, one
  secret after the other. `maskKnownSecrets_eq` reads it as one run over `forms secrets`.
* No form is left, and masking again changes nothing, whatever the secrets (`not_infix_masked`, `masked_again`).
  Where the occurrences of the forms lie apart the run is a single sweep (`masked_eq_sweep`), so every occurrence
  goes whole and the order of the secrets does not matter.
* `maskKnownSecretsDeep` does this to every text and key of a body and drops what is nested too deep.
-/

namespace PrReviewer.Redact

open Js List

/-- `⟦•⟧`. -/
def KNOWN_SECRET_REDACTED : Units := [0x27E6, 0x2022, 0x27E7]

/-- The secret and its encoded forms, in the order of insertion into the set. -/
def variants (secret : Units) : List Units :=
  (secret :: (encodeURIComponent secret).toList ++ [base64 (utf8Units secret)]).eraseDups

/-- The inner loop of `maskKnownSecrets`. -/
def maskVariants (masked : Units) (secret : Units) : Units :=
  (variants secret).foldl
    (fun masked variant => if variant = [] then masked else replaced variant KNOWN_SECRET_REDACTED masked) masked

def maskKnownSecrets (text : Units) (secrets : List (Option Units)) : Units :=
  secrets.foldl (fun masked secret =>
    match secret with
    | none | some [] => masked
    | some (u :: us) => maskVariants masked (u :: us)) text

/-! ## The forms of the secrets -/

/-- The forms that a secret is masked in. -/
def formsOf : Option Units → List Units
  | none | some [] => []
  | some (u :: us) => (variants (u :: us)).filter (· ≠ [])

/-- The forms of all secrets, in the order in which they are replaced. -/
def forms (secrets : List (Option Units)) : List Units := secrets.flatMap formsOf

/-- No secret contains a unit of the mark. -/
def SparesMark (secrets : List (Option Units)) : Prop :=
  ∀ secret, some secret ∈ secrets → ∀ u ∈ secret, u ∉ KNOWN_SECRET_REDACTED

variable {text : Units} {secrets secrets' : List (Option Units)} {f : Units}

theorem maskVariants_eq (masked secret : Units) :
    maskVariants masked secret = ((variants secret).filter (· ≠ [])).foldl
      (fun masked f => replaced f KNOWN_SECRET_REDACTED masked) masked := by
  rw [maskVariants]
  induction variants secret generalizing masked with
  | nil => rfl
  | cons variant rest ih =>
    by_cases hempty : variant = []
    · simpa [hempty] using ih masked
    · simpa [hempty] using ih (replaced variant KNOWN_SECRET_REDACTED masked)

theorem maskKnownSecrets_eq (text : Units) (secrets : List (Option Units)) :
    maskKnownSecrets text secrets =
      (forms secrets).foldl (fun masked f => replaced f KNOWN_SECRET_REDACTED masked) text := by
  induction secrets generalizing text with
  | nil => rfl
  | cons secret secrets ih =>
    rw [forms, flatMap_cons, foldl_append]
    match secret with
    | none | some [] => exact ih text
    | some (u :: us) =>
      rw [formsOf, ← maskVariants_eq]
      exact ih (maskVariants text (u :: us))

theorem mem_forms : f ∈ forms secrets ↔ ∃ secret ∈ secrets, f ∈ formsOf secret := mem_flatMap

theorem forms_perm (h : secrets'.Perm secrets) : f ∈ forms secrets' ↔ f ∈ forms secrets := by
  rw [mem_forms, mem_forms]
  exact exists_congr fun secret => and_congr_left fun _ => h.mem_iff

theorem ne_nil_of_mem_forms (h : f ∈ forms secrets) : f ≠ [] := by
  obtain ⟨secret, -, hf⟩ := mem_forms.mp h
  match secret with
  | none | some [] => simp [formsOf] at hf
  | some (u :: us) => simpa using (mem_filter.mp hf).2

/-- The mark is not ASCII. -/
theorem not_mem_mark {u : UInt16} (h : u.toNat < 0x80) : u ∉ KNOWN_SECRET_REDACTED := by
  intro hmem
  simp only [KNOWN_SECRET_REDACTED, mem_cons, not_mem_nil, or_false] at hmem
  rcases hmem with rfl | rfl | rfl <;> exact absurd h (by decide)

theorem spares_of_mem_forms (hs : SparesMark secrets) (h : f ∈ forms secrets) : ∀ u ∈ f, u ∉ KNOWN_SECRET_REDACTED := by
  obtain ⟨secret, hsecret, hf⟩ := mem_forms.mp h
  match secret with
  | none | some [] => simp [formsOf] at hf
  | some (u :: us) =>
    have hmem := (mem_filter.mp hf).1
    rw [variants, mem_eraseDups, cons_append, mem_cons, mem_append, mem_singleton,
      Option.mem_toList] at hmem
    rcases hmem with rfl | hurl | rfl
    · exact hs (u :: us) hsecret
    · exact fun u hu => not_mem_mark (ascii_of_encodeURIComponent hurl u hu)
    · exact fun u hu => not_mem_mark (ascii_base64 _ u hu)

theorem mark_ne_nil : KNOWN_SECRET_REDACTED ≠ [] := by decide

/-! ## What a run leaves -/

/-- Replaces the forms one after the other in the cells of a text. -/
def strike (fs : List Units) (cells : List (Option UInt16)) : List (Option UInt16) :=
  fs.foldl (fun cells f => replaced (f.map some) [none] cells) cells

variable {fs : List Units}

theorem foldl_render (hne : ∀ f ∈ fs, f ≠ []) (hspares : ∀ f ∈ fs, ∀ u ∈ f, u ∉ KNOWN_SECRET_REDACTED)
    (cells : List (Option UInt16)) :
    fs.foldl (fun masked f => replaced f KNOWN_SECRET_REDACTED masked) (render KNOWN_SECRET_REDACTED cells) =
      render KNOWN_SECRET_REDACTED (strike fs cells) := by
  induction fs generalizing cells with
  | nil => rfl
  | cons f fs ih =>
    rw [forall_mem_cons] at hne hspares
    rw [foldl_cons, replaced_render mark_ne_nil hne.1 hspares.1, ih hne.2 hspares.2, strike, strike, foldl_cons]

/-- Masking strikes the forms out of the text's cells. -/
theorem maskKnownSecrets_eq_strike (hs : SparesMark secrets) :
    maskKnownSecrets text secrets = render KNOWN_SECRET_REDACTED (strike (forms secrets) (text.map some)) := by
  have h := foldl_render (fun f => ne_nil_of_mem_forms) (fun f => spares_of_mem_forms hs) (text.map some)
  rwa [render_map_some, ← maskKnownSecrets_eq] at h

theorem infix_of_strike {g : Units} (hg : g ≠ []) {cells : List (Option UInt16)}
    (h : g.map some <:+: strike fs cells) : g.map some <:+: cells := by
  induction fs generalizing cells with
  | nil => exact h
  | cons f fs ih => exact infix_of_replacedFrom (n := 0) (by simp) (by simpa using hg) (ih h)

theorem not_infix_strike (hf : f ∈ fs) (hne : f ≠ []) (cells : List (Option UInt16)) :
    ¬ f.map some <:+: strike fs cells := by
  induction fs generalizing cells with
  | nil => simp at hf
  | cons g fs ih =>
    intro h
    rcases mem_cons.mp hf with rfl | hf
    · exact not_infix_replacedFrom (n := 0) (by simp) (by simpa using hne) (infix_of_strike hne h)
    · exact ih hf _ h

/-- A masked text contains no form of a secret. -/
theorem not_infix_masked (hs : SparesMark secrets) (hf : f ∈ forms secrets) : ¬ f <:+: maskKnownSecrets text secrets := by
  rw [maskKnownSecrets_eq_strike hs]
  have hne := ne_nil_of_mem_forms hf
  exact fun h => not_infix_strike hf hne _ (infix_of_infix_render mark_ne_nil hne (spares_of_mem_forms hs hf) h)

/-- A text without a form of a secret stays. -/
theorem maskKnownSecrets_of_not_infix (h : ∀ f ∈ forms secrets, ¬ f <:+: text) : maskKnownSecrets text secrets = text := by
  rw [maskKnownSecrets_eq]
  generalize forms secrets = fs at h
  induction fs with
  | nil => rfl
  | cons f fs ih =>
    rw [forall_mem_cons] at h
    rw [foldl_cons, replaced_of_absent h.1, ih h.2]

theorem masked_again (hs : SparesMark secrets) :
    maskKnownSecrets (maskKnownSecrets text secrets) secrets = maskKnownSecrets text secrets :=
  maskKnownSecrets_of_not_infix fun _ hf => not_infix_masked hs hf

/-- Where the occurrences of the forms lie apart, masking is one sweep. -/
theorem masked_eq_sweep (hs : SparesMark secrets) (h : Apart (forms secrets) text) :
    maskKnownSecrets text secrets = render KNOWN_SECRET_REDACTED (sweep (forms secrets) text) := by
  rw [maskKnownSecrets_eq_strike hs, ← sweep_nil_forms text]
  exact congrArg (render KNOWN_SECRET_REDACTED) (foldl_replaced (fun f => ne_nil_of_mem_forms) h)

theorem masked_perm (hs : SparesMark secrets) (h : Apart (forms secrets) text) (hperm : secrets'.Perm secrets) :
    maskKnownSecrets text secrets' = maskKnownSecrets text secrets := by
  have hs' : SparesMark secrets' := fun secret hsecret => hs secret (hperm.mem_iff.mp hsecret)
  have h' : Apart (forms secrets') text := h.mono fun f hf => (forms_perm hperm).mp hf
  have hsweep : sweep (forms secrets') text = sweep (forms secrets) text :=
    sweepFrom_congr (fun f => ne_nil_of_mem_forms) h (fun f => forms_perm hperm) 0
  rw [masked_eq_sweep hs' h', masked_eq_sweep hs h, hsweep]

/-! ## Bodies -/

def MAX_MASK_DEPTH : Nat := 32

/-- A value of type `unknown`: a text, an array, an object with its entries, or one that is none of these. -/
inductive Body (σ : Type) where
  | scalar (x : σ)
  | text (s : Units)
  | array (items : List (Body σ))
  | object (entries : List (Units × Body σ))

/-- `Object.fromEntries(entries)`. -/
def fromEntries {ν : Type} (entries : List (Units × ν)) : List (Units × ν) :=
  entries.foldl (fun es e => Map.setEntries e.1 e.2 es) []

variable {σ : Type}

def maskKnownSecretsDeep (secrets : List (Option Units)) (depth : Nat) : Body σ → Body σ
  | .text s => .text (maskKnownSecrets s secrets)
  | .scalar x => if MAX_MASK_DEPTH ≤ depth then .text KNOWN_SECRET_REDACTED else .scalar x
  | .array items =>
    if MAX_MASK_DEPTH ≤ depth then .text KNOWN_SECRET_REDACTED else .array (elements (depth + 1) items)
  | .object entries =>
    if MAX_MASK_DEPTH ≤ depth then .text KNOWN_SECRET_REDACTED else .object (fromEntries (fields (depth + 1) entries))
where
  elements (depth : Nat) : List (Body σ) → List (Body σ)
    | [] => []
    | item :: items => maskKnownSecretsDeep secrets depth item :: elements depth items
  fields (depth : Nat) : List (Units × Body σ) → List (Units × Body σ)
    | [] => []
    | (key, item) :: entries =>
      (maskKnownSecrets key secrets, maskKnownSecretsDeep secrets depth item) :: fields depth entries

/-- The string leaves and keys of a body above the depth cap. -/
def Body.texts (depth : Nat) : Body σ → List Units
  | .text s => [s]
  | .scalar _ => []
  | .array items => if MAX_MASK_DEPTH ≤ depth then [] else elements (depth + 1) items
  | .object entries => if MAX_MASK_DEPTH ≤ depth then [] else fields (depth + 1) entries
where
  elements (depth : Nat) : List (Body σ) → List Units
    | [] => []
    | item :: items => item.texts depth ++ elements depth items
  fields (depth : Nat) : List (Units × Body σ) → List Units
    | [] => []
    | (key, item) :: entries => key :: (item.texts depth ++ fields depth entries)

end PrReviewer.Redact
