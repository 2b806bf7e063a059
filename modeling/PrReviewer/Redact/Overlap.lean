import PrReviewer.Js.Encoded
import PrReviewer.Redact.Complete

/-!
# Masking fails where the forms overlap

* Where the law of masking holds of a text all of whose positions belong to a form, the text is a row of forms
  (`tiled_of_masked`).
* A shortest text in which two occurrences overlap is a form that holds another form, or is cut by two forms that it
  begins and ends with (`overlap_cases`). Neither is masked as the law says: the second is no row of forms, and the
  first is none either where the forms are of one secret (`not_masked_of_own`), and else the order of the two secrets
  shows in the result (`not_masked_of_two`).
* So the law holds of a text, of its parts and of fewer secrets, if and only if the forms lie apart
  (`masked_iff_apart`).
-/

namespace PrReviewer.Redact

open Js List

variable {text u f g : Units} {secrets : List (Option Units)} {F : List Units}

/-! ## Rows of forms -/

theorem covered_of_mem (hu : u ∈ F) {k : Nat} (hk : k < u.length) : Covered F u k :=
  ⟨u, hu, 0, Nat.zero_le k, by omega, prefix_rfl⟩

variable {fs : List Units} {cells : List (Option UInt16)} {s : Units} {a : Option Units}

/-- Struck cells are cells of the text with forms marked, those left out that do not stand in the text. -/
theorem marked_strike (h : Marked F u cells)
    (hfs : ∀ f ∈ fs, f ≠ [] ∧ (f ∈ F ∨ ¬ f.map some <:+: cells)) : Marked F u (strike fs cells) := by
  induction fs generalizing cells with
  | nil => exact h
  | cons f fs ih =>
    rw [forall_mem_cons] at hfs
    obtain ⟨⟨hne, hf⟩, hrest⟩ := hfs
    have hstep : Marked F u (replaced (f.map some) [none] cells) := by
      rcases hf with hf | hf
      · exact h.replacedFrom hf hne
      · rwa [replaced_of_absent hf]
    refine ih hstep fun g hg => ⟨(hrest g hg).1, (hrest g hg).2.imp_right fun hnot hi => hnot ?_⟩
    exact infix_of_replacedFrom (n := 0) (by simp) (by simpa using (hrest g hg).1) hi

/-- Cells that render as marks only are marks, where the mark shares nothing with the text. -/
theorem none_of_render (h : Marked F u cells)
    (hu : ∀ c ∈ u, c ∉ KNOWN_SECRET_REDACTED) (hrender : render KNOWN_SECRET_REDACTED cells ⊆ KNOWN_SECRET_REDACTED) :
    ∀ c ∈ cells, c = none := by
  intro c hc
  cases c with
  | none => rfl
  | some c =>
    refine absurd (hrender ?_) (hu c (h.mem_of_some hc))
    exact mem_flatMap.mpr ⟨some c, hc, mem_singleton.mpr rfl⟩

/-- A text that is all forms and masked as the law says is left no unit. -/
theorem none_of_masked (hs : SparesMark secrets) (hu : ∀ c ∈ u, c ∉ KNOWN_SECRET_REDACTED)
    (hall : ∀ k < u.length, Covered (forms secrets) u k) (h : KnownSecretsMasked u secrets) :
    ∀ c ∈ strike (forms secrets) (u.map some), c = none := by
  have hmarked : Marked (forms secrets) u (strike (forms secrets) (u.map some)) :=
    marked_strike (marked_map_some u) fun f hf => ⟨ne_nil_of_mem_forms hf, .inl hf⟩
  refine none_of_render hmarked hu ?_
  rw [← maskKnownSecrets_eq_strike hs]
  exact h.whole.subset_mark hall

theorem tiled_of_masked (hs : SparesMark secrets) (hu : ∀ c ∈ u, c ∉ KNOWN_SECRET_REDACTED)
    (hall : ∀ k < u.length, Covered (forms secrets) u k) (h : KnownSecretsMasked u secrets) :
    ∃ ts : List Units, (∀ t ∈ ts, t ∈ forms secrets) ∧ ts.flatten = u := by
  have hmarked : Marked (forms secrets) u (strike (forms secrets) (u.map some)) :=
    marked_strike (marked_map_some u) fun f hf => ⟨ne_nil_of_mem_forms hf, .inl hf⟩
  obtain ⟨ts, -, hts, hflat⟩ := hmarked.flatten_eq (none_of_masked hs hu hall h)
  exact ⟨ts, hts, hflat⟩

/-! ## Shortest overlaps -/

/-- A form stands in no other form that lies apart. -/
theorem eq_of_infix (h : Apart F g) (hg : g ∈ F) (hf : f ∈ F) (hne : f ≠ []) (hfg : f <:+: g) : f = g := by
  obtain ⟨before, after, hcut⟩ := hfg
  have hpos := length_pos_iff.mpr hne
  have hlength := congrArg List.length hcut
  simp only [length_append] at hlength
  have hdrop : g.drop before.length = f ++ after := by rw [← hcut, append_assoc, drop_left]
  exact (h 0 before.length g hg f hf (by simp) (hdrop ▸ prefix_append f after) (Nat.zero_le _) (by omega)).2.symm

/-- Every text with an overlap holds a shortest one. -/
theorem exists_shortest (h : ¬ Apart F text) : ∃ u, u <:+: text ∧ ¬ Apart F u ∧ ∀ v, v <:+: u → v ≠ u → Apart F v := by
  induction hlength : text.length using Nat.strong_induction_on generalizing text with
  | _ length ih =>
    subst hlength
    by_cases hall : ∀ v, v <:+: text → v ≠ text → Apart F v
    · exact ⟨text, infix_rfl, h, hall⟩
    · push Not at hall
      obtain ⟨v, hv, hne, hnot⟩ := hall
      have hlt : v.length < text.length := lt_of_le_of_ne hv.length_le fun heq => hne (hv.eq_of_length heq)
      obtain ⟨u, hu, hrest⟩ := ih v.length hlt hnot rfl
      exact ⟨u, hu.trans hv, hrest⟩

/-- A shortest overlap is a form with another form inside, or begins and ends with two forms that meet. -/
theorem overlap_cases (hne : ∀ f ∈ F, f ≠ []) (h : ¬ Apart F u) (hmin : ∀ v, v <:+: u → v ≠ u → Apart F v) :
    (u ∈ F ∧ ∃ g ∈ F, g ≠ u ∧ g <:+: u) ∨
      (u ∉ F ∧ ∃ f ∈ F, ∃ g ∈ F, f <+: u ∧ g <:+ u ∧ u.length < f.length + g.length) := by
  have hfull : ∀ v, v <:+: u → ¬ Apart F v → v = u := fun v hv hnot => by
    by_contra hvu
    exact hnot (hmin v hv hvu)
  unfold Apart at h
  push Not at h
  obtain ⟨i, j, f, hf, g, hg, hfi, hgj, hij, hjf, hdiff⟩ := h
  have hfpos := length_pos_iff.mpr (hne f hf)
  have hfle := hfi.length_le
  have hgle := hgj.length_le
  rw [length_drop] at hfle hgle
  -- the first occurrence begins the text
  obtain rfl : i = 0 := by
    have hdrop : u.drop i = u := by
      refine hfull (u.drop i) (drop_suffix i u).isInfix fun hapart => ?_
      have hgj' : g <+: (u.drop i).drop (j - i) := by rwa [drop_drop, Nat.add_sub_cancel' hij]
      obtain ⟨heq, hfg⟩ := hapart 0 (j - i) f hf g hg (by simpa using hfi) hgj' (Nat.zero_le _) (by omega)
      exact hdiff (by omega) hfg
    have := congrArg List.length hdrop
    rw [length_drop] at this
    omega
  rw [drop_zero] at hfi
  -- and the two of them reach its end
  have hend : u.take (max f.length (j + g.length)) = u := by
    refine hfull _ (List.take_prefix _ u).isInfix fun hapart => ?_
    have hf0 : f <+: (u.take (max f.length (j + g.length))).drop 0 :=
      prefix_take_iff.mpr ⟨hfi, le_max_left _ _⟩
    have hgj' : g <+: (u.take (max f.length (j + g.length))).drop j := by
      rw [drop_take]
      exact prefix_take_iff.mpr ⟨hgj, by omega⟩
    obtain ⟨heq, hfg⟩ := hapart 0 j f hf g hg hf0 hgj' (Nat.zero_le _) (by omega)
    exact hdiff heq hfg
  have hmax : u.length ≤ max f.length (j + g.length) := by
    have := congrArg List.length hend
    rw [length_take] at this
    omega
  by_cases hu : u ∈ F
  · refine .inl ⟨hu, ?_⟩
    by_cases hfu : f = u
    · refine ⟨g, hg, fun hgu => ?_, hgj.isInfix.trans (drop_suffix j u).isInfix⟩
      subst hfu hgu
      exact hdiff (by omega) rfl
    · exact ⟨f, hf, hfu, hfi.isInfix⟩
  · refine .inr ⟨hu, f, hf, g, hg, hfi, ?_, ?_⟩
    · have hflt : f.length < u.length := by
        refine lt_of_le_of_ne hfi.length_le fun heq => hu ?_
        rwa [← hfi.eq_of_length heq]
      have hgu : g = u.drop j := hgj.eq_of_length (by rw [length_drop]; omega)
      exact hgu ▸ drop_suffix j u
    · have hflt : f.length < u.length := by
        refine lt_of_le_of_ne hfi.length_le fun heq => hu ?_
        rwa [← hfi.eq_of_length heq]
      omega

/-- A text that two forms cut, and that is no form, is not masked as the law says. -/
theorem not_masked_of_cut (hs : SparesMark secrets) (hmin : ∀ v, v <:+: u → v ≠ u → Apart (forms secrets) v)
    (hu : u ∉ forms secrets) (hf : f ∈ forms secrets) (hg : g ∈ forms secrets) (hfu : f <+: u) (hgu : g <:+ u)
    (hlength : u.length < f.length + g.length) : ¬ KnownSecretsMasked u secrets := by
  intro h
  have hfne := ne_nil_of_mem_forms hf
  have hfpos := length_pos_iff.mpr hfne
  -- the forms begin and end the text, and nothing of it is between them
  obtain ⟨front, hfront⟩ := hgu
  have hfrontlen := congrArg List.length hfront
  rw [length_append] at hfrontlen
  have hall : ∀ k < u.length, Covered (forms secrets) u k := by
    intro k hk
    by_cases hkf : k < f.length
    · exact ⟨f, hf, 0, Nat.zero_le k, by omega, hfu⟩
    · exact ⟨g, hg, front.length, by omega, by omega, by rw [← hfront, drop_left]⟩
  have hspares : ∀ c ∈ u, c ∉ KNOWN_SECRET_REDACTED := by
    intro c hc
    have hfront' : front <+: f :=
      prefix_of_prefix_length_le (hfront ▸ prefix_append front g) hfu (by omega)
    rw [← hfront, mem_append] at hc
    rcases hc with hc | hc
    · exact spares_of_mem_forms hs hf c (hfront'.subset hc)
    · exact spares_of_mem_forms hs hg c hc
  obtain ⟨ts, hts, hflat⟩ := tiled_of_masked hs hspares hall h
  -- the first and the last form of a row are these two
  have hproper {t : Units} (ht : t ∈ forms secrets) (htu : t <:+: u) : Apart (forms secrets) t :=
    hmin t htu fun heq => hu (heq ▸ ht)
  have hsame {t t' : Units} (ht : t ∈ forms secrets) (ht' : t' ∈ forms secrets) (htu : t <:+: u) (hi : t' <:+: t) :
      t' = t := eq_of_infix (hproper ht htu) ht ht' (ne_nil_of_mem_forms ht') hi
  cases ts with
  | nil =>
    have := congrArg List.length hflat
    have := hfu.length_le
    simp at *
    omega
  | cons t ts =>
    rw [forall_mem_cons] at hts
    have htu : t <+: u := by rw [← hflat, flatten_cons]; exact prefix_append _ _
    have htf : t = f := by
      rcases Nat.le_total t.length f.length with hle | hle
      · exact hsame hf hts.1 hfu.isInfix (prefix_of_prefix_length_le htu hfu hle).isInfix
      · exact (hsame hts.1 hf htu.isInfix (prefix_of_prefix_length_le hfu htu hle).isInfix).symm
    rcases eq_nil_or_concat ts with rfl | ⟨mid, z, rfl⟩
    · rw [flatten_cons, flatten_nil, append_nil] at hflat
      exact hu (hflat ▸ hts.1)
    · have hz : z ∈ forms secrets := hts.2 z (by simp)
      have hzu : z <:+ u := by
        rw [← hflat]
        exact ⟨t ++ mid.flatten, by simp⟩
      have hzg : z = g := by
        have hgu : g <:+ u := ⟨front, hfront⟩
        rcases Nat.le_total z.length g.length with hle | hle
        · exact hsame hg hz hgu.isInfix (suffix_of_suffix_length_le hzu hgu hle).isInfix
        · exact (hsame hz hg hzu.isInfix (suffix_of_suffix_length_le hgu hzu hle).isInfix).symm
      have hlen := congrArg List.length hflat
      simp only [concat_eq_append, flatten_cons, flatten_append, length_append, htf, hzg] at hlen
      omega

/-! ## Forms of one secret -/

theorem mem_formsOf (hs : s ≠ []) : f ∈ formsOf (some s) ↔
    f ≠ [] ∧ (f = s ∨ encodeURIComponent s = some f ∨ f = base64 (utf8Units s)) := by
  obtain ⟨c, s, rfl⟩ := exists_cons_of_ne_nil hs
  rw [formsOf, mem_filter, variants, mem_eraseDups, cons_append, mem_cons, mem_append,
    mem_singleton, Option.mem_toList, and_comm]
  simp

theorem exists_of_mem_formsOf (h : f ∈ formsOf a) : ∃ s, a = some s ∧ s ≠ [] := by
  match a with
  | none | some [] => simp [formsOf] at h
  | some (c :: s) => exact ⟨c :: s, rfl, by simp⟩

/-- A form of a secret that stands in another one is the secret. -/
theorem eq_of_own (hs : s ≠ []) (hu : u ∈ formsOf (some s)) (hf : f ∈ formsOf (some s)) (hne : f ≠ u)
    (hfu : f <:+: u) : f = s := by
  rw [mem_formsOf hs] at hu hf
  have hbytes : utf8Units s ≠ [] := by
    intro h
    have hle := length_le_utf8Units s
    rw [h] at hle
    exact hs (length_eq_zero_iff.mp (Nat.le_zero.mp hle))
  have hlength : f.length < u.length := lt_of_le_of_ne hfu.length_le fun heq => hne (hfu.eq_of_length heq)
  rcases hf.2 with hf | hf | rfl
  · exact hf
  · rcases hu.2 with rfl | hu | rfl
    · have := length_le_encodeURIComponent hf
      omega
    · exact absurd (Option.some.inj (hf.symm.trans hu)) hne
    · exact eq_of_encodeURIComponent hf fun hmem => not_mem_base64 _ (hfu.subset hmem)
  · rcases hu.2 with rfl | hu | rfl
    · have := length_le_utf8Units u
      rw [length_base64] at hlength
      omega
    · exact absurd (encodeURIComponent_eq hu ▸ hfu) (not_base64_in_encoded hbytes)
    · exact absurd rfl hne

/-- A form that holds another form of its secret is not masked as the law says. -/
theorem not_masked_of_own (hs : SparesMark [a]) (hu : u ∈ formsOf a) (hf : f ∈ formsOf a)
    (hne : f ≠ u) (hfu : f <:+: u) : ¬ KnownSecretsMasked u [a] := by
  intro h
  obtain ⟨s, rfl, hempty⟩ := exists_of_mem_formsOf hu
  have hforms : forms [some s] = formsOf (some s) := by rw [forms, flatMap_singleton]
  have humem : u ∈ forms [some s] := hforms ▸ hu
  have hune := ne_nil_of_mem_forms humem
  obtain rfl := eq_of_own hempty hu hf hne hfu
  have hnone := none_of_masked hs (spares_of_mem_forms hs humem) (fun k => covered_of_mem humem) h
  -- the secret is struck first, and the form that holds it is gone
  obtain ⟨rest, hrest⟩ : ∃ rest, formsOf (some f) = f :: rest := by
    obtain ⟨c, f, rfl⟩ := exists_cons_of_ne_nil hempty
    rw [formsOf, variants, cons_append, eraseDups_cons, filter_cons, if_pos (by simp)]
    exact ⟨_, rfl⟩
  have hgone : ¬ u.map some <:+: replaced (f.map some) [none] (u.map some) := by
    intro hi
    exact not_infix_replacedFrom (n := 0) (by simp) (by simpa using hempty) ((hfu.map some).trans hi)
  have hmarked : Marked ((formsOf (some f)).filter (· ≠ u)) u (strike (forms [some f]) (u.map some)) := by
    rw [hforms, hrest, strike, foldl_cons]
    refine marked_strike ((marked_map_some u).replacedFrom ?_ hempty) fun g hg => ⟨?_, ?_⟩
    · simpa using hne
    · have hmem : g ∈ forms [some f] := by
        rw [hforms, hrest]
        exact mem_cons_of_mem f hg
      exact ne_nil_of_mem_forms hmem
    · by_cases hgu : g = u
      · exact .inr (hgu ▸ hgone)
      · exact .inl (by simp [hg, hgu])
  obtain ⟨ts, -, hts, hflat⟩ := hmarked.flatten_eq hnone
  -- what is left of the row are copies of the secret
  have hcopies : ts = List.replicate ts.length f := by
    refine eq_replicate_iff.mpr ⟨rfl, fun t ht => ?_⟩
    have hmem := mem_filter.mp (hts t ht)
    obtain ⟨before, after, rfl⟩ := append_of_mem ht
    exact eq_of_own hempty hu hmem.1 (by simpa using hmem.2) ⟨before.flatten, after.flatten, by simpa using hflat⟩
  rw [hcopies] at hflat
  have hlength : 2 ≤ ts.length := by
    rcases hk : ts.length with _ | _ | k
    · exact absurd (by simpa [hk] using hflat) hune.symm
    · exact absurd (by simpa [hk] using hflat) hne
    · omega
  rcases ((mem_formsOf hempty).mp hu).2 with rfl | hu | rfl
  · exact hne rfl
  · exact not_encoded_row hu hempty hlength hflat.symm
  · exact not_base64_row hempty hlength hflat.symm

/-! ## Forms of two secrets -/

theorem strike_of_not_infix (h : ∀ f ∈ fs, ¬ f.map some <:+: cells) :
    strike fs cells = cells := by
  induction fs with
  | nil => rfl
  | cons f fs ih =>
    rw [forall_mem_cons] at h
    rw [strike, foldl_cons, replaced_of_absent h.1]
    exact ih h.2

theorem infix_of_map_some (h : f.map some <:+: u.map some) : f <:+: u := by
  obtain ⟨before, after, h⟩ := h
  obtain ⟨front, back, rfl, hfront, hback⟩ := map_eq_append_iff.mp h.symm
  obtain ⟨front, mid, rfl, rfl, hmid⟩ := map_eq_append_iff.mp hfront
  rw [List.map_inj_right fun _ _ => Option.some.inj] at hmid
  exact ⟨front, back, by rw [hmid]⟩

/-- Striking a form in itself leaves one mark, where no other of the forms stands in it. -/
theorem strike_self (hu : u ∈ fs) (hne : ∀ f ∈ fs, f ≠ []) (h : ∀ f ∈ fs, f ≠ u → ¬ f <:+: u) :
    strike fs (u.map some) = [none] := by
  induction fs with
  | nil => simp at hu
  | cons f fs ih =>
    rw [forall_mem_cons] at h hne
    rw [strike, foldl_cons]
    by_cases hfu : f = u
    · subst hfu
      have hself : replaced (f.map some) [none] (f.map some) = [none] := by
        obtain ⟨c, f, rfl⟩ := exists_cons_of_ne_nil hne.1
        rw [map_cons]
        change replacedFrom _ _ 0 _ = _
        rw [replacedFrom_zero, if_pos prefix_rfl, replacedFrom_drop, drop_eq_nil_of_le (by simp),
          replacedFrom_nil, append_nil]
      rw [hself]
      refine strike_of_not_infix fun g hg hi => ?_
      obtain ⟨d, g, rfl⟩ := exists_cons_of_ne_nil (hne.2 g hg)
      simpa using hi.subset (mem_cons_self (a := some d))
    · rw [replaced_of_absent fun hi => h.1 hfu (infix_of_map_some hi)]
      exact ih (by simpa [Ne.symm hfu] using hu) hne.2 h.2

/-- The order of two secrets shows in a form of the one that holds a form of the other. -/
theorem not_masked_of_two {b : Option Units} (hs : SparesMark [a, b]) (hu : u ∈ formsOf a) (hg : g ∈ formsOf b)
    (hgu : g <:+: u) (hown : ∀ f ∈ formsOf a, f ≠ u → ¬ f <:+: u) (hub : u ∉ formsOf b) :
    maskKnownSecrets u [a, b] ≠ maskKnownSecrets u [b, a] := by
  have hs' : SparesMark [b, a] := fun secret hsecret => hs secret (by simpa [or_comm] using hsecret)
  have hab : forms [a, b] = formsOf a ++ formsOf b := by simp [forms]
  have hba : forms [b, a] = formsOf b ++ formsOf a := by simp [forms]
  have hne (f : Units) (hf : f ∈ formsOf a ++ formsOf b) : f ≠ [] := by
    rw [← hab] at hf
    exact ne_nil_of_mem_forms hf
  have hfirst : maskKnownSecrets u [a, b] = KNOWN_SECRET_REDACTED := by
    have hgone : strike (formsOf b) [none] = [none] := by
      refine strike_of_not_infix fun f hf hi => ?_
      obtain ⟨d, f, rfl⟩ := exists_cons_of_ne_nil (hne f (mem_append_right _ hf))
      simpa using hi.subset (mem_cons_self (a := some d))
    rw [maskKnownSecrets_eq_strike hs, hab, strike, foldl_append]
    change render _ (strike (formsOf b) (strike (formsOf a) (u.map some))) = _
    rw [strike_self hu (fun f hf => hne f (mem_append_left _ hf)) hown, hgone]
    rfl
  intro heq
  rw [hfirst, maskKnownSecrets_eq_strike hs'] at heq
  -- after the forms of `b` no form of `a` is left to strike
  have hlast : strike (forms [b, a]) (u.map some) = strike (formsOf b) (u.map some) := by
    rw [hba, strike, foldl_append]
    refine strike_of_not_infix fun f hf hi => ?_
    by_cases hfu : f = u
    · subst hfu
      exact not_infix_strike hg (hne g (mem_append_right _ hg)) _ ((hgu.map some).trans hi)
    · exact hown f hf hfu (infix_of_map_some (infix_of_strike (hne f (mem_append_left _ hf)) hi))
  rw [hlast] at heq
  have hmarked : Marked (formsOf b) u (strike (formsOf b) (u.map some)) :=
    marked_strike (marked_map_some u) fun f hf => ⟨hne f (mem_append_right _ hf), .inl hf⟩
  have hspares : ∀ c ∈ u, c ∉ KNOWN_SECRET_REDACTED := spares_of_mem_forms hs (by rw [hab]; simp [hu])
  have hnone := none_of_render hmarked hspares (heq ▸ List.Subset.refl _)
  obtain ⟨ts, hlength, hts, hflat⟩ := hmarked.flatten_eq hnone
  -- one mark is one form
  have hone : ts.length = 1 := by
    have hlengths := congrArg List.length heq
    rw [eq_replicate_iff.mpr ⟨rfl, hnone⟩, ← hlength, render, length_flatMap] at hlengths
    simp only [KNOWN_SECRET_REDACTED, length_cons, length_nil, map_replicate, renderCell,
      sum_replicate_nat] at hlengths
    omega
  obtain ⟨t, rfl⟩ := length_eq_one_iff.mp hone
  rw [flatten_singleton] at hflat
  exact hub (hflat ▸ hts t mem_cons_self)

/-! ## The law -/

theorem sublist_of_mem {α : Type} {a b : α} {xs : List α} (ha : a ∈ xs) (hb : b ∈ xs) (hab : a ≠ b) :
    [a, b].Sublist xs ∨ [b, a].Sublist xs := by
  obtain ⟨before, after, rfl⟩ := append_of_mem ha
  rcases mem_append.mp hb with hb | hb
  · exact .inr ((singleton_sublist.mpr hb).append (singleton_sublist.mpr mem_cons_self))
  · have hb : b ∈ after := (mem_cons.mp hb).resolve_left (Ne.symm hab)
    exact .inl ((cons_sublist_cons.mpr (singleton_sublist.mpr hb)).trans (sublist_append_right _ _))

/-- Masking does to every part of a text, with any of the secrets, what it is for, if and only if the forms of the
secrets lie apart in the text. -/
theorem masked_iff_apart (hs : SparesMark secrets) :
    (∀ piece, piece <:+: text → ∀ part, part.Sublist secrets → KnownSecretsMasked piece part) ↔
      Apart (forms secrets) text := by
  constructor
  · intro hall
    by_contra hnot
    obtain ⟨u, hu, hoverlap, hmin⟩ := exists_shortest hnot
    have hspares {part : List (Option Units)} (h : part ⊆ secrets) : SparesMark part :=
      fun secret hsecret => hs secret (h hsecret)
    rcases overlap_cases (fun f => ne_nil_of_mem_forms) hoverlap hmin with
      ⟨hmem, g, hg, hgne, hgu⟩ | ⟨hmem, f, hf, g, hg, hfu, hgu, hlength⟩
    · obtain ⟨a, ha, hua⟩ := mem_forms.mp hmem
      obtain ⟨b, hb, hgb⟩ := mem_forms.mp hg
      -- a secret none of whose forms stands in another one is masked whole
      have hown {a : Option Units} (ha : a ∈ secrets) (hua : u ∈ formsOf a) : ∀ f ∈ formsOf a, f ≠ u → ¬ f <:+: u :=
        fun f hf hne hfu => not_masked_of_own (hspares (by simpa using ha)) hua hf hne hfu
          (hall u hu [a] (singleton_sublist.mpr ha))
      have hub : u ∉ formsOf b := fun hub => hown hb hub g hgb hgne hgu
      have hab : a ≠ b := fun hab => hub (hab ▸ hua)
      have htwo := not_masked_of_two (hspares (by simp [ha, hb])) hua hgb hgu (hown ha hua) hub
      rcases sublist_of_mem ha hb hab with h | h
      · exact htwo ((hall u hu [a, b] h).anyOrder [b, a] (List.Perm.swap a b [])).symm
      · exact htwo ((hall u hu [b, a] h).anyOrder [a, b] (List.Perm.swap b a []))
    · exact not_masked_of_cut hs hmin hmem hf hg hfu hgu hlength (hall u hu secrets (List.Sublist.refl secrets))
  · intro h piece hpiece part hpart
    have hforms : ∀ f ∈ forms part, f ∈ forms secrets := by
      intro f hf
      obtain ⟨secret, hsecret, hf⟩ := mem_forms.mp hf
      exact mem_forms.mpr ⟨secret, hpart.subset hsecret, hf⟩
    exact masked_of_apart (fun secret hsecret => hs secret (hpart.subset hsecret)) ((h.part hpiece).mono hforms)

/-- Masking does what it is for to a text, to its parts and with any of the secrets, if and only if the forms of the
secrets lie apart in the text, and where they do in the texts of a body it does so to the body. -/
theorem known_secrets_masked_iff (hs : SparesMark secrets) :
    ((∀ piece, piece <:+: text → ∀ part, part.Sublist secrets → KnownSecretsMasked piece part) ↔
      Apart (forms secrets) text) ∧
    ∀ (σ : Type) (depth : Nat) (body : Body σ), (∀ t ∈ body.texts depth, Apart (forms secrets) t) →
      DeepMasked depth body secrets := by
  refine ⟨masked_iff_apart hs, fun σ depth body h => ?_⟩
  have hmark (f : Units) (hf : f ∈ forms secrets) : ¬ f <:+: KNOWN_SECRET_REDACTED := by
    rw [← masked_mark hs]
    exact not_infix_masked hs hf
  refine ⟨fun f hf t ht => ?_, fun t ht => ?_, fun secrets' hperm => ?_, deep_again hs body depth⟩
  · rcases texts_deep body ht with rfl | ⟨text, -, rfl⟩
    · exact hmark f hf
    · exact not_infix_masked hs hf
  · refine (texts_deep body ht).imp_right fun ⟨text, htext, heq⟩ => ⟨text, htext, ?_⟩
    exact heq ▸ (masked_of_apart hs (h text htext)).whole
  · exact deep_congr body fun t ht => masked_perm hs (h t ht) hperm

theorem known_secrets_masked_iff_one : SparesMark [some (units "abc")] ∧
    ((∀ piece, piece <:+: units "an abc" → ∀ part, part.Sublist [some (units "abc")] → KnownSecretsMasked piece part) ↔
      Apart (forms [some (units "abc")]) (units "an abc")) := by
  have hs : SparesMark [some (units "abc")] := by
    intro secret hsecret
    obtain rfl := Option.some.inj (mem_singleton.mp hsecret)
    exact @of_decide_eq_true _ (List.decidableBAll _ _) (by decide +kernel)
  exact ⟨hs, (known_secrets_masked_iff hs).1⟩

/-- The tail of a secret stays where a shorter secret is its front and comes first. -/
theorem tail_of_longer_secret_stays :
    SparesMark [some (units "abc"), some (units "abcdef")] ∧
      maskKnownSecrets (units "abcdef") [some (units "abc"), some (units "abcdef")] =
        KNOWN_SECRET_REDACTED ++ units "def" ∧
      ¬ KnownSecretsMasked (units "abcdef") [some (units "abc"), some (units "abcdef")] := by
  refine ⟨?_, by decide +kernel, fun h => ?_⟩
  · intro secret hsecret
    simp only [mem_cons, Option.some.injEq, not_mem_nil, or_false] at hsecret
    rcases hsecret with rfl | rfl <;> exact @of_decide_eq_true _ (List.decidableBAll _ _) (by decide +kernel)
  · have horder := h.anyOrder [some (units "abcdef"), some (units "abc")] (List.Perm.swap _ _ [])
    revert horder
    decide +kernel

end PrReviewer.Redact
