import PrReviewer.Js.Join
import PrReviewer.Js.JsonPrefix

/-!
# Compact JSON text

Texts of values, joined by commas between brackets, are read as the array or the object of the values
(`ReadAs.array`, `ReadAs.object`). A text is read as a value whatever stands behind it, as long as that does not go on
with a number.
-/

open List

namespace Js.Json

/-- The text is read as the value, at any depth of the parser that its length allows. -/
def ReadAs (text : List Char) (v : Value) : Prop :=
  ∀ n rest, text.length ≤ n → Ends rest → value n (text ++ rest) = some (v, rest)

/-- What is read as a value at depth 0 is what `JSON.parse` gives. -/
theorem parse_of_readAs {text : List Char} {v : Value} (h : ReadAs text v) : parse (String.ofList text) = some v := by
  have hvalue := h (text.length + 1) [] (by omega) nofun
  rw [append_nil] at hvalue
  rw [parse, String.toList_ofList, hvalue]
  rfl

/-! ## Scalars -/

theorem readAs_null : ReadAs "null".toList .null := fun n rest hn _ => by
  obtain ⟨m, rfl⟩ : ∃ m, n = m + 1 := ⟨n - 1, by simp at hn; omega⟩
  exact value_scalar m rfl _

theorem readAs_bool (b : Bool) : ReadAs (if b then "true" else "false").toList (.bool b) := fun n rest hn _ => by
  obtain ⟨m, rfl⟩ : ∃ m, n = m + 1 := ⟨n - 1, by cases b <;> simp at hn <;> omega⟩
  cases b
  · exact value_scalar m rfl _
  · exact value_scalar m rfl _

theorem readAs_quote (s : String) : ReadAs (quote s) (.string s) := fun n rest hn _ => by
  obtain ⟨m, rfl⟩ : ∃ m, n = m + 1 := ⟨n - 1, by simp [quote] at hn; omega⟩
  rw [quote, cons_append, value, skip_cons (by decide)]
  dsimp only
  rw [if_neg (by decide), if_neg (by decide), if_pos rfl, append_assoc, singleton_append, string_quoted]
  rfl

/-- What is read as a number is a value. -/
theorem value_of_number {cs : List Char} {p : Value × List Char} (h : number cs = some p) (n : Nat) :
    value (n + 1) cs = some p := by
  have hscalar := scalar_of_number h []
  rw [append_nil, h] at hscalar
  obtain ⟨c, ds, rfl, hc⟩ := number_head h
  rw [← hscalar]
  refine value_scalar n ?_ ds
  rcases hc with hdigit | rfl
  · have hne : ∀ d : Char, d.isDigit = false → c ≠ d := by
      rintro d hd rfl
      rw [hd] at hdigit
      cases hdigit
    simp [hne ' ' rfl, hne '\n' rfl, hne '\t' rfl, hne '\r' rfl, hne '{' rfl, hne '[' rfl, hne '"' rfl]
  · decide

theorem readAs_number {x : Number} (hfinite : x.isFinite = true) :
    ∃ v, ReadAs (numberToString x).toList v ∧ IsNumber x v := by
  obtain ⟨v, hv, his⟩ := Number.number_numberToString hfinite
  refine ⟨v, fun n rest hn hrest => ?_, his⟩
  have hne : (numberToString x).toList ≠ [] := by
    intro hnil
    have hread := hv [] nofun
    rw [hnil] at hread
    cases hread
  obtain ⟨m, rfl⟩ : ∃ m, n = m + 1 := ⟨n - 1, by have := List.length_pos_iff.mpr hne; omega⟩
  exact value_of_number (hv rest hrest) m

/-! ## Items -/

/-- The items behind a comma are read up to the closing bracket. -/
theorem elements_join {texts : List (List Char)} {vs : List Value} (h : List.Forall₂ ReadAs texts vs) (hne : texts ≠ [])
    {n : Nat} (hn : (join ',' texts).length < n) (done : List Value) (rest : List Char) :
    elements n done (join ',' texts ++ ']' :: rest) = some (.array (done ++ vs), rest) := by
  induction h generalizing n done with
  | nil => exact absurd rfl hne
  | @cons text v texts vs hread h ih =>
    obtain ⟨m, rfl⟩ : ∃ m, n = m + 1 := ⟨n - 1, by omega⟩
    rcases eq_or_ne texts [] with rfl | htexts
    · cases h
      rw [join_singleton] at hn ⊢
      rw [elements, hread m _ (by omega) (ends_cons rest (by decide))]
      simp only [Option.bind_eq_bind, Option.bind_some]
      rw [skip_cons (by decide)]
      rfl
    · rw [join_cons text htexts] at hn ⊢
      rw [List.length_append, List.length_cons] at hn
      rw [List.append_assoc, List.cons_append, elements, hread m _ (by omega) (ends_cons _ (by decide))]
      simp only [Option.bind_eq_bind, Option.bind_some]
      rw [skip_cons (by decide)]
      dsimp only
      rw [if_pos rfl, ih htexts (by omega) (done ++ [v]), List.append_assoc, List.singleton_append]

/-- Texts of values between brackets. -/
theorem ReadAs.array {texts : List (List Char)} {vs : List Value} (h : List.Forall₂ ReadAs texts vs) :
    ReadAs ('[' :: (join ',' texts ++ [']'])) (.array vs) := fun n rest hn _ => by
  rw [List.length_cons, List.length_append, List.length_singleton] at hn
  obtain ⟨m, rfl⟩ : ∃ m, n = m + 1 := ⟨n - 1, by omega⟩
  rw [List.cons_append, value, skip_cons (by decide), List.append_assoc, List.singleton_append]
  dsimp only
  rw [if_neg (by decide), if_pos rfl]
  rcases eq_or_ne texts [] with rfl | hne
  · cases h
    rfl
  · have hread := elements_join h hne (n := m) (by omega) [] rest
    rw [if_neg]
    · exact hread
    · intro hclosed
      obtain ⟨k, rfl⟩ : ∃ k, m = k + 1 := ⟨m - 1, by omega⟩
      rw [elements, value_bracket hclosed] at hread
      cases hread

/-- The text of a member. -/
def memberText (k : String) (text : List Char) : List Char := quote k ++ ':' :: text

theorem members_member (m : Nat) (done : List (String × Value)) (k : String) (text cs : List Char) :
    members (m + 1) done (memberText k text ++ cs) = (value m (text ++ cs)).bind fun p =>
      match skip p.2 with
      | [] => none
      | c :: cs =>
        if c = ',' then members m (Map.setEntries k p.1 done) cs
        else if c = '}' then some (.object (Map.setEntries k p.1 done), cs)
        else none := by
  have hsplit : memberText k text ++ cs = '"' :: (k.toList.flatMap escapeChar ++ '"' :: ':' :: (text ++ cs)) := by
    simp [memberText, quote]
  rw [hsplit, members, skip_cons (by decide)]
  dsimp only
  rw [if_pos rfl, string_quoted]
  simp only [Option.bind_eq_bind, Option.bind_some]
  rw [skip_cons (by decide), List.head?_cons, if_pos rfl, List.tail_cons]
  try rfl

/-- The text `p.2` of a member is read as the member `f`. -/
def MemberAs (p : String × List Char) (f : String × Value) : Prop := p.1 = f.1 ∧ ReadAs p.2 f.2

theorem members_join {members' : List (String × List Char)} {fields : List (String × Value)}
    (h : List.Forall₂ MemberAs members' fields) (hne : members' ≠ []) {n : Nat}
    (hn : (join ',' (members'.map fun p => memberText p.1 p.2)).length < n) (done : List (String × Value))
    (hkeys : ((done ++ fields).map Prod.fst).Nodup) (rest : List Char) :
    members n done (join ',' (members'.map fun p => memberText p.1 p.2) ++ '}' :: rest) =
      some (.object (done ++ fields), rest) := by
  induction h generalizing n done with
  | nil => exact absurd rfl hne
  | @cons p f members' fields hread h ih =>
    obtain ⟨hkey, hvalue⟩ := hread
    obtain ⟨m, rfl⟩ : ∃ m, n = m + 1 := ⟨n - 1, by omega⟩
    have hlength : p.2.length ≤ (memberText p.1 p.2).length := by
      rw [memberText, List.length_append, List.length_cons]
      omega
    have hset : Map.setEntries p.1 f.2 done = done ++ [f] := by
      rw [hkey]
      exact setEntries_of_nodup hkeys
    rcases eq_or_ne members' [] with rfl | hmembers
    · cases h
      rw [List.map_cons, List.map_nil, join_singleton] at hn ⊢
      rw [members_member, hvalue m _ (by omega) (ends_cons rest (by decide)), Option.bind_some]
      dsimp only
      rw [skip_cons (by decide), hset]
      rfl
    · rw [List.map_cons, join_cons _ (by simpa using hmembers)] at hn ⊢
      rw [List.length_append, List.length_cons] at hn
      have hrest := ih hmembers (n := m) (by omega) (done ++ [f]) (by rwa [List.append_assoc, List.singleton_append])
      rw [List.append_assoc, List.cons_append, members_member, hvalue m _ (by omega) (ends_cons _ (by decide)),
        Option.bind_some]
      dsimp only
      rw [skip_cons (by decide), hset]
      dsimp only
      rw [if_pos rfl, hrest, List.append_assoc, List.singleton_append]

/-- Texts of members between braces. -/
theorem ReadAs.object {members' : List (String × List Char)} {fields : List (String × Value)}
    (h : List.Forall₂ MemberAs members' fields) (hkeys : (fields.map Prod.fst).Nodup) :
    ReadAs ('{' :: (join ',' (members'.map fun p => memberText p.1 p.2) ++ ['}'])) (.object fields) :=
    fun n rest hn _ => by
  rw [List.length_cons, List.length_append, List.length_singleton] at hn
  obtain ⟨m, rfl⟩ : ∃ m, n = m + 1 := ⟨n - 1, by omega⟩
  rw [List.cons_append, value, skip_cons (by decide), List.append_assoc, List.singleton_append]
  dsimp only
  rw [if_pos rfl]
  rcases members' with _ | ⟨p, members'⟩
  · cases h
    rfl
  · have hread := members_join h (by simp) (n := m) (by omega) [] hkeys rest
    rw [if_neg]
    · exact hread
    · have hquote : ∃ cs, join ',' ((p :: members').map fun p => memberText p.1 p.2) ++ '}' :: rest = '"' :: cs := by
        rcases eq_or_ne members' [] with rfl | hne
        · exact ⟨_, by rw [map_cons, map_nil, join_singleton, memberText, quote]; rfl⟩
        · exact ⟨_, by rw [map_cons, join_cons _ (by simpa using hne), memberText, quote]; rfl⟩
      obtain ⟨cs, hcs⟩ := hquote
      rw [hcs, skip_cons (by decide), List.head?_cons]
      decide

end Js.Json
