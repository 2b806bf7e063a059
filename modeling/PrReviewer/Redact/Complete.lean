import PrReviewer.Redact.KnownSecrets

/-!
# Masking is complete where the forms lie apart

* `KnownSecretsMasked text secrets` is what masking is for: no form of a secret is left, whatever belonged to one is
  gone, and neither the order of the secrets nor a second pass makes a difference.
* `DeepMasked` says the same of the texts and keys of a body. What `maskKnownSecretsDeep` returns holds masked texts
  only (`texts_deep`), so both follow from the law for a text.
-/

namespace PrReviewer.Redact

open Js List

/-- Nothing of a configured secret is left in the masked text, however the secrets are ordered. -/
structure KnownSecretsMasked (text : Units) (secrets : List (Option Units)) : Prop where
  gone : ∀ f ∈ forms secrets, ¬ f <:+: maskKnownSecrets text secrets
  whole : Wiped KNOWN_SECRET_REDACTED (Covered (forms secrets) text) text (maskKnownSecrets text secrets)
  anyOrder : ∀ secrets', secrets'.Perm secrets → maskKnownSecrets text secrets' = maskKnownSecrets text secrets
  twice : maskKnownSecrets (maskKnownSecrets text secrets) secrets = maskKnownSecrets text secrets

/-- The law for the string leaves and keys of a body above the depth cap. -/
structure DeepMasked {σ : Type} (depth : Nat) (body : Body σ) (secrets : List (Option Units)) : Prop where
  gone : ∀ f ∈ forms secrets, ∀ t ∈ (maskKnownSecretsDeep secrets depth body).texts depth, ¬ f <:+: t
  whole : ∀ t ∈ (maskKnownSecretsDeep secrets depth body).texts depth, t = KNOWN_SECRET_REDACTED ∨
    ∃ text ∈ body.texts depth, Wiped KNOWN_SECRET_REDACTED (Covered (forms secrets) text) text t
  anyOrder : ∀ secrets', secrets'.Perm secrets →
    maskKnownSecretsDeep secrets' depth body = maskKnownSecretsDeep secrets depth body
  twice : maskKnownSecretsDeep secrets depth (maskKnownSecretsDeep secrets depth body) =
    maskKnownSecretsDeep secrets depth body

variable {text : Units} {secrets secrets' : List (Option Units)} {σ : Type}

theorem masked_of_apart (hs : SparesMark secrets) (h : Apart (forms secrets) text) : KnownSecretsMasked text secrets where
  gone _ hf := not_infix_masked hs hf
  whole := by
    rw [masked_eq_sweep hs h]
    exact wiped_sweep (fun f => ne_nil_of_mem_forms) h
  anyOrder _ hperm := masked_perm hs h hperm
  twice := masked_again hs

/-- The mark contains no form. -/
theorem masked_mark (hs : SparesMark secrets) : maskKnownSecrets KNOWN_SECRET_REDACTED secrets = KNOWN_SECRET_REDACTED := by
  refine maskKnownSecrets_of_not_infix fun f hf hi => ?_
  obtain ⟨u, f, rfl⟩ := exists_cons_of_ne_nil (ne_nil_of_mem_forms hf)
  exact spares_of_mem_forms hs hf u mem_cons_self (hi.subset mem_cons_self)

/-! ## The texts of a masked body -/

theorem mem_setEntries {ν : Type} {k : Units} {v : ν} {es : List (Units × ν)} {e : Units × ν}
    (h : e ∈ Map.setEntries k v es) : e = (k, v) ∨ e ∈ es := by
  induction es with
  | nil => simpa [Map.setEntries] using h
  | cons d es ih =>
    rw [Map.setEntries] at h
    split at h
    · rcases mem_cons.mp h with h | h
      · exact .inl h
      · exact .inr (mem_cons_of_mem d h)
    · rcases mem_cons.mp h with rfl | h
      · exact .inr mem_cons_self
      · exact (ih h).imp_right (mem_cons_of_mem d)

theorem mem_fromEntries {ν : Type} {entries : List (Units × ν)} {e : Units × ν} (h : e ∈ fromEntries entries) :
    e ∈ entries := by
  have hall (done rest : List (Units × ν))
      (h : e ∈ rest.foldl (fun es e => Map.setEntries e.1 e.2 es) done) : e ∈ done ∨ e ∈ rest := by
    induction rest generalizing done with
    | nil => exact .inl h
    | cons d rest ih =>
      rcases ih (Map.setEntries d.1 d.2 done) h with h | h
      · exact (mem_setEntries h).elim (fun h => .inr (h ▸ mem_cons_self)) .inl
      · exact .inr (mem_cons_of_mem d h)
  simpa using hall [] entries h

theorem nodup_fromEntries {ν : Type} (entries : List (Units × ν)) : ((fromEntries entries).map Prod.fst).Nodup := by
  have hall (done : List (Units × ν)) (h : (done.map Prod.fst).Nodup) :
      ((entries.foldl (fun es e => Map.setEntries e.1 e.2 es) done).map Prod.fst).Nodup := by
    induction entries generalizing done with
    | nil => exact h
    | cons d entries ih => exact ih _ (Map.nodup_setEntries h)
  exact hall [] (by simp)

/-- Entries with distinct keys are the object's. -/
theorem fromEntries_of_nodup {ν : Type} {entries : List (Units × ν)} (h : (entries.map Prod.fst).Nodup) :
    fromEntries entries = entries := by
  have hall (done rest : List (Units × ν)) (h : ((done ++ rest).map Prod.fst).Nodup) :
      rest.foldl (fun es e => Map.setEntries e.1 e.2 es) done = done ++ rest := by
    induction rest generalizing done with
    | nil => simp
    | cons d rest ih =>
      rw [foldl_cons, Map.setEntries_of_not_mem (Map.not_mem_of_nodup h), ih (done ++ [d]) (by simpa using h)]
      simp
  exact hall [] entries h

theorem elements_eq (depth : Nat) (items : List (Body σ)) :
    maskKnownSecretsDeep.elements secrets depth items = items.map (maskKnownSecretsDeep secrets depth) := by
  induction items with
  | nil => rfl
  | cons item items ih => rw [maskKnownSecretsDeep.elements, ih, map_cons]

theorem fields_eq (depth : Nat) (entries : List (Units × Body σ)) :
    maskKnownSecretsDeep.fields secrets depth entries =
      entries.map fun e => (maskKnownSecrets e.1 secrets, maskKnownSecretsDeep secrets depth e.2) := by
  induction entries with
  | nil => rfl
  | cons e entries ih => rw [maskKnownSecretsDeep.fields, ih, map_cons]

variable {t : Units} {depth : Nat}

theorem mem_texts_elements {items : List (Body σ)} :
    t ∈ Body.texts.elements depth items ↔ ∃ item ∈ items, t ∈ item.texts depth := by
  induction items with
  | nil => simp [Body.texts.elements]
  | cons item items ih => simp [Body.texts.elements, ih]

theorem mem_texts_fields {entries : List (Units × Body σ)} :
    t ∈ Body.texts.fields depth entries ↔ ∃ e ∈ entries, t = e.1 ∨ t ∈ e.2.texts depth := by
  induction entries with
  | nil => simp [Body.texts.fields]
  | cons e entries ih =>
    simp only [Body.texts.fields, mem_cons, mem_append, ih, exists_eq_or_imp, or_assoc]

/-- Induction over a body: the items of an array and the values of an object come first. -/
theorem Body.induct {motive : Body σ → Prop} (scalar : ∀ x, motive (.scalar x)) (text : ∀ s, motive (.text s))
    (array : ∀ items, (∀ item ∈ items, motive item) → motive (.array items))
    (object : ∀ entries, (∀ e ∈ entries, motive e.2) → motive (.object entries)) (body : Body σ) : motive body := by
  match body with
  | .scalar x => exact scalar x
  | .text s => exact text s
  | .array items => exact array items fun item _ => Body.induct scalar text array object item
  | .object entries => exact object entries fun e _ => Body.induct scalar text array object e.2
termination_by sizeOf body
decreasing_by
  · decreasing_tactic
  · next he =>
    obtain ⟨k, v⟩ := e
    have := sizeOf_lt_of_mem he
    simp only [Prod.mk.sizeOf_spec] at this
    simp only [Body.object.sizeOf_spec]
    omega

/-- A masked body holds masked texts only, and the mark for what is nested too deep. -/
theorem texts_deep (body : Body σ) {depth : Nat}
    (h : t ∈ (maskKnownSecretsDeep secrets depth body).texts depth) :
    t = KNOWN_SECRET_REDACTED ∨ ∃ text ∈ body.texts depth, t = maskKnownSecrets text secrets := by
  induction body using Body.induct generalizing depth with
  | scalar x =>
    rw [maskKnownSecretsDeep] at h
    split at h
    · exact .inl (by simpa [Body.texts] using h)
    · simp [Body.texts] at h
  | text s => exact .inr ⟨s, by simp [Body.texts], by simpa [maskKnownSecretsDeep, Body.texts] using h⟩
  | array items ih =>
    by_cases hdepth : MAX_MASK_DEPTH ≤ depth
    · exact .inl (by simpa [maskKnownSecretsDeep, hdepth, Body.texts] using h)
    · rw [maskKnownSecretsDeep, if_neg hdepth, Body.texts, if_neg hdepth, mem_texts_elements, elements_eq] at h
      obtain ⟨_, hmem, ht⟩ := h
      obtain ⟨item, hitem, rfl⟩ := mem_map.mp hmem
      rw [Body.texts, if_neg hdepth]
      exact (ih item hitem ht).imp_right fun ⟨text, htext, heq⟩ =>
        ⟨text, mem_texts_elements.mpr ⟨item, hitem, htext⟩, heq⟩
  | object entries ih =>
    by_cases hdepth : MAX_MASK_DEPTH ≤ depth
    · exact .inl (by simpa [maskKnownSecretsDeep, hdepth, Body.texts] using h)
    · rw [maskKnownSecretsDeep, if_neg hdepth, Body.texts, if_neg hdepth, mem_texts_fields, fields_eq] at h
      obtain ⟨_, hmem, ht⟩ := h
      obtain ⟨e, he, rfl⟩ := mem_map.mp (mem_fromEntries hmem)
      rw [Body.texts, if_neg hdepth]
      rcases ht with rfl | ht
      · exact .inr ⟨e.1, mem_texts_fields.mpr ⟨e, he, .inl rfl⟩, rfl⟩
      · exact (ih e he ht).imp_right fun ⟨text, htext, heq⟩ =>
          ⟨text, mem_texts_fields.mpr ⟨e, he, .inr htext⟩, heq⟩

/-- Lists of secrets that mask the texts of a body alike mask the body alike. -/
theorem deep_congr (body : Body σ) {depth : Nat}
    (h : ∀ t ∈ body.texts depth, maskKnownSecrets t secrets' = maskKnownSecrets t secrets) :
    maskKnownSecretsDeep secrets' depth body = maskKnownSecretsDeep secrets depth body := by
  induction body using Body.induct generalizing depth with
  | scalar x => rfl
  | text s => exact congrArg Body.text (h s (by simp [Body.texts]))
  | array items ih =>
    by_cases hdepth : MAX_MASK_DEPTH ≤ depth
    · simp [maskKnownSecretsDeep, hdepth]
    · rw [Body.texts, if_neg hdepth] at h
      rw [maskKnownSecretsDeep, maskKnownSecretsDeep, if_neg hdepth, if_neg hdepth, elements_eq, elements_eq]
      refine congrArg Body.array (map_congr_left fun item hitem => ih item hitem fun t ht => ?_)
      exact h t (mem_texts_elements.mpr ⟨item, hitem, ht⟩)
  | object entries ih =>
    by_cases hdepth : MAX_MASK_DEPTH ≤ depth
    · simp [maskKnownSecretsDeep, hdepth]
    · rw [Body.texts, if_neg hdepth] at h
      rw [maskKnownSecretsDeep, maskKnownSecretsDeep, if_neg hdepth, if_neg hdepth, fields_eq, fields_eq]
      refine congrArg (fun es => Body.object (fromEntries es)) (map_congr_left fun e he => ?_)
      rw [h e.1 (mem_texts_fields.mpr ⟨e, he, .inl rfl⟩),
        ih e he fun t ht => h t (mem_texts_fields.mpr ⟨e, he, .inr ht⟩)]

/-- Masking a body again changes nothing. -/
theorem deep_again (hs : SparesMark secrets) (body : Body σ) (depth : Nat) :
    maskKnownSecretsDeep secrets depth (maskKnownSecretsDeep secrets depth body) =
      maskKnownSecretsDeep secrets depth body := by
  induction body using Body.induct generalizing depth with
  | scalar x =>
    by_cases hdepth : MAX_MASK_DEPTH ≤ depth
    · simp [maskKnownSecretsDeep, hdepth, masked_mark hs]
    · simp [maskKnownSecretsDeep, hdepth]
  | text s => exact congrArg Body.text (masked_again hs)
  | array items ih =>
    by_cases hdepth : MAX_MASK_DEPTH ≤ depth
    · simp [maskKnownSecretsDeep, hdepth, masked_mark hs]
    · rw [maskKnownSecretsDeep, if_neg hdepth, maskKnownSecretsDeep, if_neg hdepth, elements_eq, elements_eq,
        map_map]
      exact congrArg Body.array (map_congr_left fun item hitem => ih item hitem (depth + 1))
  | object entries ih =>
    by_cases hdepth : MAX_MASK_DEPTH ≤ depth
    · simp [maskKnownSecretsDeep, hdepth, masked_mark hs]
    · rw [maskKnownSecretsDeep, if_neg hdepth, maskKnownSecretsDeep, if_neg hdepth, fields_eq, fields_eq]
      have hfix : ∀ e ∈ fromEntries (entries.map fun e =>
          (maskKnownSecrets e.1 secrets, maskKnownSecretsDeep secrets (depth + 1) e.2)),
          (maskKnownSecrets e.1 secrets, maskKnownSecretsDeep secrets (depth + 1) e.2) = e := by
        intro e he
        obtain ⟨e, hmem, rfl⟩ := mem_map.mp (mem_fromEntries he)
        exact Prod.ext (masked_again hs) (ih e hmem (depth + 1))
      rw [map_congr_left hfix, map_id', fromEntries_of_nodup (nodup_fromEntries _)]

end PrReviewer.Redact
