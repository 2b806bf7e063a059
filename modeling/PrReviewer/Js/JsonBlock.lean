import PrReviewer.Js.JsonCompact

/-!
# Indented JSON text

Texts of values on lines of their own are read as the array or the object of the values (`ReadAs.block_array`,
`ReadAs.block_object`), as `ReadAs.array` and `ReadAs.object` say of compact text. A member that is not the text of a
value (`Unread`) makes its object none (`Unread.block_object`).

`parse_stringify`: a plain value is read back from its text.
-/

open List

namespace Js.Json

/-- The text is no start of a value. -/
def Unread (text : List Char) : Prop := ∀ n rest, text.length ≤ n → value n (text ++ rest) = none

/-- The line of a member. -/
def memberLine (p : String × List Char) : List Char := quote p.1 ++ ':' :: ' ' :: p.2

theorem length_le_memberLine (p : String × List Char) : p.2.length ≤ (memberLine p).length := by
  rw [memberLine, length_append, length_cons, length_cons]
  omega

/-! ## Elements -/

theorem elements_behindItem {text : List Char} {v : Value} (hread : ReadAs text v) {texts : List (List Char)}
    {vs : List Value} (h : List.Forall₂ ReadAs texts vs) {d n : Nat}
    (hn : (text ++ behindItem d texts ']').length ≤ n) (done : List Value) (rest : List Char) :
    elements n done (text ++ (behindItem d texts ']' ++ rest)) = some (.array (done ++ v :: vs), rest) := by
  induction h generalizing text v n done with
  | nil =>
    have hlength : text.length < n := by
      simp [behindItem, newline] at hn
      omega
    obtain ⟨m, rfl⟩ : ∃ m, n = m + 1 := ⟨n - 1, by omega⟩
    rw [elements, hread m _ (by omega) (ends_behindItem d _ ']' rest)]
    simp only [Option.bind_eq_bind, Option.bind_some, behindItem, flatMap_nil, nil_append,
      append_assoc, singleton_append, skip_newline]
    rw [skip_cons (by decide)]
    rfl
  | @cons text' v' texts vs hread' h ih =>
    have hlength : text.length < n ∧ (text' ++ behindItem d texts ']').length < n := by
      simp [behindItem, newline] at hn ⊢
      omega
    obtain ⟨m, rfl⟩ : ∃ m, n = m + 1 := ⟨n - 1, by omega⟩
    have hsplit : behindItem d (text' :: texts) ']' ++ rest =
        ',' :: (newline (d + 1) ++ (text' ++ (behindItem d texts ']' ++ rest))) := by
      simp [behindItem]
    rw [elements, hread m _ (by omega) (ends_behindItem d _ ']' rest), hsplit]
    simp only [Option.bind_eq_bind, Option.bind_some]
    rw [skip_cons (by decide)]
    dsimp only
    rw [if_pos rfl, elements_newline, ih hread' (by omega), append_assoc, singleton_append]

/-- Texts of values on lines between brackets. -/
theorem ReadAs.block_array {texts : List (List Char)} {vs : List Value} (h : List.Forall₂ ReadAs texts vs) (d : Nat) :
    ReadAs (block '[' ']' d texts) (.array vs) := fun n rest hn _ => by
  cases h with
  | nil =>
    obtain ⟨m, rfl⟩ : ∃ m, n = m + 1 := ⟨n - 1, by simp [block] at hn; omega⟩
    rfl
  | @cons text v texts vs hread h =>
    rw [block_cons] at hn ⊢
    obtain ⟨m, rfl⟩ : ∃ m, n = m + 1 := ⟨n - 1, by rw [length_cons] at hn; omega⟩
    rw [length_cons, length_append] at hn
    rw [cons_append, append_assoc, append_assoc, value, skip_cons (by decide)]
    dsimp only
    rw [if_neg (by decide), if_pos rfl, elements_newline, elements_behindItem hread h (by omega) [] rest, if_neg]
    · rfl
    · intro hclosed
      rw [skip_newline] at hclosed
      have hvalue := hread _ _ le_rfl (ends_behindItem d texts ']' rest)
      rw [value_bracket hclosed] at hvalue
      cases hvalue

/-! ## Members -/

theorem members_memberLine (m : Nat) (done : List (String × Value)) (p : String × List Char) (cs : List Char) :
    members (m + 1) done (memberLine p ++ cs) = (value m (p.2 ++ cs)).bind fun r =>
      match skip r.2 with
      | [] => none
      | c :: cs =>
        if c = ',' then members m (Map.setEntries p.1 r.1 done) cs
        else if c = '}' then some (.object (Map.setEntries p.1 r.1 done), cs)
        else none := by
  have hsplit : memberLine p ++ cs = '"' :: (p.1.toList.flatMap escapeChar ++ '"' :: ':' :: ' ' :: (p.2 ++ cs)) := by
    simp [memberLine, quote]
  rw [hsplit, members, skip_cons (by decide)]
  dsimp only
  rw [if_pos rfl, string_quoted]
  simp only [Option.bind_eq_bind, Option.bind_some]
  rw [skip_cons (by decide), List.head?_cons, if_pos rfl, tail_cons, value_space]
  try rfl

variable {p : String × List Char} {f : String × Value}

/-- A member with another one behind it. -/
theorem members_next (h : MemberAs p f) {m d : Nat}
    (hm : p.2.length ≤ m) {done : List (String × Value)} (hkey : f.1 ∉ done.map Prod.fst) (cs : List Char) :
    members (m + 1) done (memberLine p ++ ',' :: (newline d ++ cs)) = members m (done ++ [f]) cs := by
  obtain ⟨hname, hread⟩ := h
  rw [members_memberLine, hread m _ hm (ends_cons _ (by decide)), Option.bind_some]
  dsimp only
  rw [skip_cons (by decide), hname, Map.setEntries_of_not_mem hkey]
  dsimp only
  rw [if_pos rfl, members_newline]

theorem behindItem_cons (d : Nat) (item : List Char) (items : List (List Char)) (r : Char) (rest : List Char) :
    behindItem d (item :: items) r ++ rest = ',' :: (newline (d + 1) ++ (item ++ (behindItem d items r ++ rest))) := by
  simp [behindItem]

theorem members_behindItem (hread : MemberAs p f)
    {members' : List (String × List Char)} {fields : List (String × Value)} (h : List.Forall₂ MemberAs members' fields)
    {d n : Nat} (hn : (memberLine p ++ behindItem d (members'.map memberLine) '}').length ≤ n)
    (done : List (String × Value)) (hkeys : ((done ++ f :: fields).map Prod.fst).Nodup) (rest : List Char) :
    members n done (memberLine p ++ (behindItem d (members'.map memberLine) '}' ++ rest)) =
      some (.object (done ++ f :: fields), rest) := by
  have hlength := length_le_memberLine p
  induction h generalizing p f n done with
  | nil =>
    obtain ⟨hname, hvalue⟩ := hread
    obtain ⟨m, rfl⟩ : ∃ m, n = m + 1 := ⟨n - 1, by simp [behindItem, newline] at hn; omega⟩
    rw [map_nil, members_memberLine, hvalue m _ (by simp [behindItem, newline] at hn; omega)
      (ends_behindItem d [] '}' rest), Option.bind_some]
    simp only [behindItem, flatMap_nil, nil_append, append_assoc, singleton_append, skip_newline]
    rw [skip_cons (by decide), hname, setEntries_of_nodup hkeys]
    rfl
  | @cons p' f' members' fields hread' h ih =>
    have hrest : p.2.length < n ∧ (memberLine p' ++ behindItem d (members'.map memberLine) '}').length < n := by
      simp [behindItem, newline] at hn ⊢
      omega
    obtain ⟨m, rfl⟩ : ∃ m, n = m + 1 := ⟨n - 1, by omega⟩
    rw [map_cons, behindItem_cons, members_next hread (by omega) (Map.not_mem_of_nodup hkeys),
      ih hread' (by omega) _ (by rwa [append_assoc, singleton_append]) (length_le_memberLine p'),
      append_assoc, singleton_append]

/-- Texts of members on lines between braces. -/
theorem ReadAs.block_object {members' : List (String × List Char)} {fields : List (String × Value)}
    (h : List.Forall₂ MemberAs members' fields) (hkeys : (fields.map Prod.fst).Nodup) (d : Nat) :
    ReadAs (block '{' '}' d (members'.map memberLine)) (.object fields) := fun n rest hn _ => by
  cases h with
  | nil =>
    obtain ⟨m, rfl⟩ : ∃ m, n = m + 1 := ⟨n - 1, by simp [block] at hn; omega⟩
    rfl
  | @cons p f members' fields hread h =>
    rw [map_cons, block_cons] at hn ⊢
    obtain ⟨m, rfl⟩ : ∃ m, n = m + 1 := ⟨n - 1, by rw [length_cons] at hn; omega⟩
    rw [length_cons, length_append] at hn
    rw [cons_append, append_assoc, append_assoc, value, skip_cons (by decide)]
    dsimp only
    rw [if_pos rfl, members_newline, members_behindItem hread h (by omega) [] hkeys, if_neg]
    · rfl
    · rw [skip_newline]
      exact fun h => absurd (Option.some.inj h) (by decide)

theorem members_unread {bad : String × List Char} (hbad : Unread bad.2) {members' : List (String × List Char)}
    {fields : List (String × Value)} (h : List.Forall₂ MemberAs members' fields) {d n : Nat}
    (items : List (List Char))
    (hn : ((members'.flatMap fun p => memberLine p ++ ',' :: newline (d + 1)) ++ memberLine bad).length ≤ n)
    (done : List (String × Value)) (hkeys : ((done ++ fields).map Prod.fst).Nodup) (rest : List Char) :
    members n done ((members'.flatMap fun p => memberLine p ++ ',' :: newline (d + 1)) ++
      (memberLine bad ++ (behindItem d items '}' ++ rest))) = none := by
  induction h generalizing n done with
  | nil =>
    have hlength := length_le_memberLine bad
    obtain ⟨m, rfl⟩ : ∃ m, n = m + 1 := ⟨n - 1, by
      rw [flatMap_nil, nil_append, memberLine, length_append, length_cons] at hn
      omega⟩
    rw [flatMap_nil, nil_append] at hn ⊢
    have hbound : bad.2.length ≤ m := by
      rw [memberLine, length_append, length_cons, length_cons] at hn
      omega
    rw [members_memberLine, hbad m _ hbound, Option.bind_none]
  | @cons p f members' fields hread h ih =>
    have hlength := length_le_memberLine p
    simp only [flatMap_cons, length_append, length_cons] at hn
    obtain ⟨m, rfl⟩ : ∃ m, n = m + 1 := ⟨n - 1, by omega⟩
    rw [flatMap_cons, append_assoc, append_assoc, cons_append,
      members_next hread (by omega) (Map.not_mem_of_nodup hkeys)]
    exact ih (by rw [length_append]; omega) _ (by rwa [append_assoc, singleton_append])

/-- A member that is not read makes the object none. -/
theorem Unread.block_object {bad : String × List Char} (hbad : Unread bad.2) {before : List (String × List Char)}
    {fields : List (String × Value)} (h : List.Forall₂ MemberAs before fields)
    (hkeys : (fields.map Prod.fst).Nodup) (behind : List (String × List Char)) (d : Nat) :
    Unread (block '{' '}' d ((before ++ bad :: behind).map memberLine)) := fun n rest hn => by
  have hlines : block '{' '}' d ((before ++ bad :: behind).map memberLine) =
      '{' :: (newline (d + 1) ++ ((before.flatMap fun p => memberLine p ++ ',' :: newline (d + 1)) ++
        (memberLine bad ++ behindItem d (behind.map memberLine) '}'))) := by
    cases before with
    | nil => rw [nil_append, map_cons, block_cons, flatMap_nil, nil_append]
    | cons p before =>
      rw [cons_append, map_cons, block_cons]
      have hbehind : ∀ (p : String × List Char) (ps : List (String × List Char)),
          memberLine p ++ behindItem d ((ps ++ bad :: behind).map memberLine) '}' =
            ((p :: ps).flatMap fun p => memberLine p ++ ',' :: newline (d + 1)) ++
              (memberLine bad ++ behindItem d (behind.map memberLine) '}') := by
        intro p ps
        induction ps generalizing p with
        | nil => simp [behindItem]
        | cons q ps ih =>
          have hcons := behindItem_cons d (memberLine q) ((ps ++ bad :: behind).map memberLine) '}' []
          rw [append_nil, append_nil] at hcons
          rw [cons_append, map_cons, hcons, ih, flatMap_cons (x := p)]
          simp
      rw [hbehind]
  rw [hlines] at hn ⊢
  obtain ⟨m, rfl⟩ : ∃ m, n = m + 1 := ⟨n - 1, by rw [length_cons] at hn; omega⟩
  have hbound : ((before.flatMap fun p => memberLine p ++ ',' :: newline (d + 1)) ++ memberLine bad).length ≤ m := by
    simp only [length_cons, length_append] at hn ⊢
    omega
  rw [cons_append, append_assoc, append_assoc, append_assoc, value, skip_cons (by decide)]
  dsimp only
  rw [if_pos rfl, members_newline, members_unread hbad h _ hbound [] hkeys, if_neg]
  rw [skip_newline]
  cases before with
  | nil => exact fun h => absurd (Option.some.inj h) (by decide)
  | cons p before => exact fun h => absurd (Option.some.inj h) (by decide)

/-! ## Plain values -/

theorem printMembers_eq_map (d : Nat) {fields : List (String × Value)} (h : ∀ f ∈ fields, Plain f.2) :
    printMembers d fields = (fields.map fun f => (f.1, print d f.2)).map memberLine := by
  induction fields with
  | nil => rfl
  | cons f fields ih =>
    obtain ⟨k, v⟩ := f
    have hv := h _ mem_cons_self
    have htail := ih fun f hf => h f (mem_cons_of_mem _ hf)
    cases v with
    | undefined => cases hv
    | _ => rw [printMembers, htail, map_cons, map_cons, memberLine]; exact fun h => nomatch h

/-- The text of a plain value at a depth is read as it. -/
theorem readAs_print {v : Value} (h : Plain v) (d : Nat) : ReadAs (print d v) v := by
  induction h generalizing d with
  | null => exact readAs_null
  | bool b => exact readAs_bool b
  | @count k hk =>
    intro n rest hn hrest
    have hpos : 0 < (Nat.toDigits 10 k).length := length_pos_iff.mpr Nat.toDigits_ne_nil
    rw [print] at hn ⊢
    obtain ⟨m, rfl⟩ : ∃ m, n = m + 1 := ⟨n - 1, by omega⟩
    exact value_of_number (number_toDigits hk hrest) m
  | string s => exact readAs_quote s
  | @array xs _ ih =>
    rw [print, printElements_eq_map]
    exact .block_array (forall₂_map_left_iff.mpr (forall₂_same.mpr fun x hx => ih x hx (d + 1))) d
  | @object fields hkeys h ih =>
    rw [print, printMembers_eq_map _ h]
    exact .block_object (forall₂_map_left_iff.mpr (forall₂_same.mpr fun f hf => ⟨rfl, ih f hf (d + 1)⟩)) hkeys d

/-- A plain value is read back from its text, also with white space behind it. -/
theorem parse_stringify (h : Plain v) {s : String} (hs : skip s.toList = []) :
    parse (stringify v ++ s) = some v := by
  have hends : Ends s.toList := by
    intro c hc
    obtain ⟨cs, hcs⟩ := List.head?_eq_some_iff.mp hc
    by_contra hne
    have hspace : (c = ' ' || c = '\n' || c = '\t' || c = '\r') = false := by
      rw [← Bool.not_eq_true]
      intro hspace
      simp only [Bool.or_eq_true, decide_eq_true_eq] at hspace
      rcases hspace with ((rfl | rfl) | rfl) | rfl <;> exact hne (by decide)
    rw [hcs, skip_cons hspace] at hs
    cases hs
  have hvalue := readAs_print h 0 ((print 0 v).length + s.toList.length + 1) s.toList (by omega) hends
  rw [parse, stringify, String.toList_append, String.toList_ofList, length_append, hvalue]
  exact if_pos hs

end Js.Json
