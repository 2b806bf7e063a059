import PrReviewer.Js.JsonCompact

/-!
# `JSON.stringify`

`jsonStringify v` is `JSON.stringify(v)` of a value that is not `undefined`. A value of finite numbers, without
`undefined` and with plain names for its members (`Written`) is read back from its text, numbers up to `==` (`Same`).
So it is when the characters of HTML in it are respelled as escapes (`Spelling`, `exists_readAs`).
-/

open List

namespace Js.Json

/-! ## Writing -/

mutual

/-- The text of a value. An `undefined` element is written as `null`, an `undefined` field is left out. -/
def compact : Value → List Char
  | .undefined | .null => "null".toList
  | .bool b => (if b then "true" else "false").toList
  | .number x => (if x.isFinite then numberToString x else "null").toList
  | .count n => Nat.toDigits 10 n
  | .string s => quote s
  | .array xs => '[' :: (join ',' (compactElements xs) ++ [']'])
  | .object fields => '{' :: (join ',' (compactMembers fields) ++ ['}'])

def compactElements : List Value → List (List Char)
  | [] => []
  | x :: xs => compact x :: compactElements xs

def compactMembers : List (String × Value) → List (List Char)
  | [] => []
  | (_, .undefined) :: fields => compactMembers fields
  | (k, v) :: fields => memberText k (compact v) :: compactMembers fields

end

def jsonStringify (v : Value) : String := String.ofList (compact v)

theorem compactElements_eq_map (xs : List Value) : compactElements xs = xs.map compact := by
  induction xs with
  | nil => rfl
  | cons x xs ih => rw [compactElements, ih, map_cons]

/-! ## What is read back -/

/-- A character that HTML or a script may take for markup. -/
def isMarkup (c : Char) : Bool := c = '<' || c = '>' || c = '&' || c.toNat = 0x2028 || c.toNat = 0x2029

/-- A name that is written as it stands. -/
def IsName (k : String) : Prop := ∀ c ∈ quote k, isMarkup c = false

instance (k : String) : Decidable (IsName k) := List.decidableBAll _ _

/-- A value whose text is read back. -/
inductive Written : Value → Prop where
  | null : Written .null
  | bool (b : Bool) : Written (.bool b)
  | number {x : Number} (h : x.isFinite = true) : Written (.number x)
  | count {n : Nat} (h : n < 2 ^ 53) : Written (.count n)
  | string (s : String) : Written (.string s)
  | array {xs : List Value} (h : ∀ x ∈ xs, Written x) : Written (.array xs)
  | object {fields : List (String × Value)} (hkeys : (fields.map Prod.fst).Nodup) (hnames : ∀ f ∈ fields, IsName f.1)
      (h : ∀ f ∈ fields, Written f.2) : Written (.object fields)

/-- The same value, each number as `==` has it. -/
inductive Same : Value → Value → Prop where
  | null : Same .null .null
  | bool (b : Bool) : Same (.bool b) (.bool b)
  | number {x : Number} {v : Value} (h : IsNumber x v) : Same (.number x) v
  | count (n : Nat) : Same (.count n) (.count n)
  | string (s : String) : Same (.string s) (.string s)
  | array {xs ys : List Value} (h : List.Forall₂ Same xs ys) : Same (.array xs) (.array ys)
  | object {fields fields' : List (String × Value)} (hkeys : fields.map Prod.fst = fields'.map Prod.fst)
      (h : List.Forall₂ Same (fields.map Prod.snd) (fields'.map Prod.snd)) : Same (.object fields) (.object fields')

theorem compactMembers_eq_map {fields : List (String × Value)} (h : ∀ f ∈ fields, Written f.2) :
    compactMembers fields = fields.map fun f => memberText f.1 (compact f.2) := by
  induction fields with
  | nil => rfl
  | cons f fields ih =>
    obtain ⟨k, v⟩ := f
    have hv := h _ mem_cons_self
    have htail := ih fun f hf => h f (mem_cons_of_mem _ hf)
    cases v with
    | undefined => cases hv
    | _ => rw [compactMembers, htail, map_cons]; exact fun h => nomatch h

/-! ## Respelled text -/

/-- A spelling of characters that leaves all but markup as it is, and that a string is read through. -/
structure Spelling (g : Char → List Char) : Prop where
  other : ∀ c, isMarkup c = false → g c = [c]
  inside : ∀ c cs, units ((escapeChar c).flatMap g ++ cs) = behind (charUnits c) (units cs)

theorem spelling_id : Spelling fun c => [c] where
  other _ _ := rfl
  inside c cs := by
    have hsame : ∀ cs : List Char, cs.flatMap (fun c => [c]) = cs := fun cs => by simp
    rw [hsame, units_escapeChar]

theorem flatMap_other {g : Char → List Char} (hg : Spelling g) {cs : List Char} (h : ∀ c ∈ cs, isMarkup c = false) :
    cs.flatMap g = cs := by
  induction cs with
  | nil => rfl
  | cons c cs ih =>
    rw [flatMap_cons, hg.other c (h c mem_cons_self), ih fun d hd => h d (mem_cons_of_mem c hd)]
    rfl

/-! ## Reading the text -/

/-- A character of the text of a number. -/
def isNumeral (c : Char) : Bool := c.isDigit || c = '.' || c = 'e' || c = '+' || c = '-'

theorem isMarkup_of_isNumeral {c : Char} (h : isNumeral c = true) : isMarkup c = false := by
  rw [← Bool.not_eq_true]
  intro hmarkup
  simp only [isMarkup, Bool.or_eq_true, decide_eq_true_eq] at hmarkup
  rcases hmarkup with (((rfl | rfl) | rfl) | hcode) | hcode
  · cases h
  · cases h
  · cases h
  · obtain rfl : c = Char.ofNat 0x2028 := by rw [← hcode, Char.ofNat_toNat]
    cases h
  · obtain rfl : c = Char.ofNat 0x2029 := by rw [← hcode, Char.ofNat_toNat]
    cases h

theorem isNumeral_of_isDigit {c : Char} (h : c.isDigit = true) : isNumeral c = true := by
  rw [isNumeral, h]
  rfl

theorem isNumeral_parts {whole fraction : List Char} {exponent : Option Int} (hwhole : ∀ c ∈ whole, c.isDigit = true)
    (hfraction : ∀ c ∈ fraction, c.isDigit = true) :
    ∀ c ∈ whole ++ (fractionText fraction ++ exponentText exponent), isNumeral c = true := by
  simp only [forall_mem_append]
  refine ⟨fun c hc => isNumeral_of_isDigit (hwhole c hc), ?_, ?_⟩
  · cases fraction with
    | nil => exact forall_mem_nil _
    | cons d ds => exact forall_mem_cons.mpr ⟨rfl, fun c hc => isNumeral_of_isDigit (hfraction c hc)⟩
  · cases exponent with
    | none => exact forall_mem_nil _
    | some e =>
      refine forall_mem_cons.mpr ⟨rfl, forall_mem_cons.mpr ⟨?_, fun c hc => isNumeral_of_isDigit (isDigit_of_mem hc)⟩⟩
      split <;> rfl

/-- What the text of a finite number is made of. -/
theorem isNumeral_of_mem {x : Number} (hfinite : x.isFinite = true) :
    ∀ c ∈ (numberToString x).toList, isNumeral c = true := by
  rcases Number.finite_cases hfinite with ⟨htext, -⟩ | ⟨y, m, e, hm, hu, negative, htext, -⟩
  · rw [htext]
    exact all_eq_true.mp (by decide)
  · obtain ⟨s, q, -, -, -, whole, fraction, exponent, hparts, -, hwhole, -, hfraction, -⟩ :=
      Number.readsAs_positiveToString hu
    have hnil := hparts []
    rw [append_nil, append_nil] at hnil
    rw [htext, hnil, forall_mem_append]
    refine ⟨?_, isNumeral_parts hwhole hfraction⟩
    cases negative <;> exact all_eq_true.mp (by decide)

theorem flatMap_join {g : Char → List Char} (hcomma : g ',' = [',']) (texts : List (List Char)) :
    (join ',' texts).flatMap g = join ',' (texts.map (·.flatMap g)) := by
  induction texts with
  | nil => rfl
  | cons text texts ih =>
    rcases eq_or_ne texts [] with rfl | hne
    · simp
    · rw [join_cons text hne, map_cons, join_cons _ (by simpa using hne), flatMap_append, flatMap_cons,
        hcomma, ih]
      rfl

section

variable {g : Char → List Char}

theorem units_respelled (hg : Spelling g) (s rest : List Char) :
    units ((s.flatMap escapeChar).flatMap g ++ '"' :: rest) = some (s.flatMap charUnits, rest) := by
  induction s with
  | nil => rfl
  | cons c s ih =>
    rw [List.flatMap_cons, List.flatMap_append, List.append_assoc, hg.inside, ih, List.flatMap_cons]
    rfl

theorem readAs_respelled (hg : Spelling g) (s : String) : ReadAs ((quote s).flatMap g) (.string s) :=
    fun n rest hn _ => by
  have htext : (quote s).flatMap g = '"' :: ((s.toList.flatMap escapeChar).flatMap g ++ ['"']) := by
    rw [quote, flatMap_cons, hg.other _ (by decide), flatMap_append, flatMap_singleton,
      hg.other _ (by decide)]
    rfl
  rw [htext] at hn ⊢
  obtain ⟨m, rfl⟩ : ∃ m, n = m + 1 := ⟨n - 1, by rw [length_cons] at hn; omega⟩
  rw [cons_append, value, skip_cons (by decide)]
  dsimp only
  rw [if_neg (by decide), if_neg (by decide), if_pos rfl, append_assoc, singleton_append, string,
    units_respelled hg, Option.map_some]
  dsimp only
  rw [ofUnits_flatMap, String.ofList_toList]
  rfl

theorem flatMap_memberText (hg : Spelling g) {k : String} (hk : IsName k) (text : List Char) :
    (memberText k text).flatMap g = memberText k (text.flatMap g) := by
  rw [memberText, flatMap_append, flatMap_cons, flatMap_other hg hk, hg.other ':' (by decide)]
  rfl

theorem flatMap_enclosed (hg : Spelling g) {l r : Char} (hl : isMarkup l = false) (hr : isMarkup r = false)
    (texts : List (List Char)) :
    (l :: (join ',' texts ++ [r])).flatMap g = l :: (join ',' (texts.map (·.flatMap g)) ++ [r]) := by
  rw [flatMap_cons, hg.other l hl, flatMap_append, flatMap_join (hg.other ',' (by decide)),
    flatMap_singleton, hg.other r hr]
  rfl

theorem exists_forall₂ {α β : Type} {R : α → β → Prop} {xs : List α} (h : ∀ x ∈ xs, ∃ y, R x y) :
    ∃ ys, List.Forall₂ R xs ys := by
  induction xs with
  | nil => exact ⟨[], .nil⟩
  | cons x xs ih =>
    obtain ⟨y, hy⟩ := h x mem_cons_self
    obtain ⟨ys, hys⟩ := ih fun z hz => h z (mem_cons_of_mem x hz)
    exact ⟨y :: ys, .cons hy hys⟩

/-- A written value is read back from its text, respelled or not. -/
theorem exists_readAs (hg : Spelling g) {v : Value} (h : Written v) :
    ∃ w, ReadAs ((compact v).flatMap g) w ∧ Same v w := by
  induction h with
  | null => exact ⟨.null, by rw [compact, flatMap_other hg (@of_decide_eq_true _ (List.decidableBAll _ _) rfl)]; exact readAs_null, .null⟩
  | bool b =>
    refine ⟨.bool b, ?_, .bool b⟩
    rw [compact, flatMap_other hg (by cases b <;> exact @of_decide_eq_true _ (List.decidableBAll _ _) rfl)]
    exact readAs_bool b
  | @number x hfinite =>
    obtain ⟨w, hread, his⟩ := readAs_number hfinite
    refine ⟨w, ?_, .number his⟩
    rw [compact, if_pos hfinite, flatMap_other hg fun c hc => isMarkup_of_isNumeral (isNumeral_of_mem hfinite c hc)]
    exact hread
  | @count n hn =>
    refine ⟨.count n, ?_, .count n⟩
    rw [compact, flatMap_other hg fun c hc => isMarkup_of_isNumeral (isNumeral_of_isDigit (isDigit_of_mem hc))]
    intro k rest hk hrest
    obtain ⟨j, rfl⟩ : ∃ j, k = j + 1 := ⟨k - 1, by
      have := length_pos_iff.mpr (Nat.toDigits_ne_nil (b := 10) (n := n))
      omega⟩
    exact value_of_number (number_toDigits hn hrest) j
  | string s => exact ⟨.string s, readAs_respelled hg s, .string s⟩
  | @array xs h ih =>
    obtain ⟨ys, hys⟩ := exists_forall₂ ih
    refine ⟨.array ys, ?_, .array (hys.imp fun _ _ hxy => hxy.2)⟩
    rw [compact, compactElements_eq_map, flatMap_enclosed hg (by decide) (by decide), map_map]
    refine ReadAs.array ?_
    rw [forall₂_map_left_iff]
    exact hys.imp fun _ _ hxy => hxy.1
  | @object fields hkeys hnames h ih =>
    have hmember : ∀ f ∈ fields, ∃ f' : String × Value,
        f.1 = f'.1 ∧ ReadAs ((compact f.2).flatMap g) f'.2 ∧ Same f.2 f'.2 := by
      intro f hf
      obtain ⟨w, hread, hsame⟩ := ih f hf
      exact ⟨(f.1, w), rfl, hread, hsame⟩
    obtain ⟨fields', hfields⟩ := exists_forall₂ hmember
    have hnamed : fields.map Prod.fst = fields'.map Prod.fst := by
      rw [← forall₂_eq_eq_eq, forall₂_map_left_iff, forall₂_map_right_iff]
      exact hfields.imp fun _ _ hff' => hff'.1
    refine ⟨.object fields', ?_, .object hnamed ?_⟩
    · have hlines : (fields.map fun f => memberText f.1 (compact f.2)).map (·.flatMap g) =
          (fields.map fun f => (f.1, (compact f.2).flatMap g)).map fun p => memberText p.1 p.2 := by
        rw [map_map, map_map]
        exact map_congr_left fun f hf => flatMap_memberText hg (hnames f hf) (compact f.2)
      rw [compact, compactMembers_eq_map h, flatMap_enclosed hg (by decide) (by decide), hlines]
      refine ReadAs.object ?_ (hnamed ▸ hkeys)
      rw [forall₂_map_left_iff]
      exact hfields.imp fun _ _ hff' => ⟨hff'.1, hff'.2.1⟩
    · rw [forall₂_map_left_iff, forall₂_map_right_iff]
      exact hfields.imp fun _ _ hff' => hff'.2.2

end

/-! ## Counts -/

/-- A written value whose numbers are counts. -/
inductive Counted : Value → Prop where
  | null : Counted .null
  | bool (b : Bool) : Counted (.bool b)
  | count {n : Nat} (h : n < 2 ^ 53) : Counted (.count n)
  | string (s : String) : Counted (.string s)
  | array {xs : List Value} (h : ∀ x ∈ xs, Counted x) : Counted (.array xs)
  | object {fields : List (String × Value)} (hkeys : (fields.map Prod.fst).Nodup) (hnames : ∀ f ∈ fields, IsName f.1)
      (h : ∀ f ∈ fields, Counted f.2) : Counted (.object fields)

theorem Counted.record (keys : List String) {fields : List (String × Value)} (hfields : fields.map Prod.fst = keys)
    (hkeys : keys.Nodup) (hnames : ∀ k ∈ keys, IsName k) (h : ∀ f ∈ fields, Counted f.2) : Counted (.object fields) :=
  .object (hfields ▸ hkeys) (fun _ hf => hnames _ (hfields ▸ mem_map_of_mem hf)) h

theorem Counted.written {v : Value} (h : Counted v) : Written v := by
  induction h with
  | null => exact .null
  | bool b => exact .bool b
  | count h => exact .count h
  | string s => exact .string s
  | array _ ih => exact .array ih
  | object hkeys hnames _ ih => exact .object hkeys hnames ih

theorem Counted.eq_of_same {v w : Value} (h : Counted v) (hsame : Same v w) : v = w := by
  induction h generalizing w with
  | null => cases hsame; rfl
  | bool b => cases hsame; rfl
  | count h => cases hsame; rfl
  | string s => cases hsame; rfl
  | @array xs _ ih =>
    cases hsame with
    | array hsame =>
      congr 1
      rw [← forall₂_eq_eq_eq]
      have heach : ∀ x ∈ xs, ∀ w, Same x w → x = w := fun x hx w hxw => ih x hx hxw
      exact ((forall₂_and_left _ _).mpr ⟨heach, hsame⟩).imp fun x w hxw => hxw.1 w hxw.2
  | @object fields _ _ _ ih =>
    cases hsame with
    | @object _ fields' hkeys hsame =>
      have hvalues : fields.map Prod.snd = fields'.map Prod.snd := by
        have heach : ∀ x ∈ fields.map Prod.snd, ∀ w, Same x w → x = w := by
          intro x hx w hxw
          obtain ⟨f, hf, rfl⟩ := mem_map.mp hx
          exact ih f hf hxw
        rw [← forall₂_eq_eq_eq]
        exact ((forall₂_and_left _ _).mpr ⟨heach, hsame⟩).imp fun x w hxw => hxw.1 w hxw.2
      congr 1
      rw [← zip_unzip fields, ← zip_unzip fields', unzip_eq_map, unzip_eq_map, hkeys, hvalues]

/-- A value whose numbers are counts is what its text is read as. -/
theorem parse_jsonStringify {v : Value} (h : Counted v) : parse (jsonStringify v) = some v := by
  obtain ⟨w, hread, hsame⟩ := exists_readAs spelling_id h.written
  rw [flatMap_singleton', ← h.eq_of_same hsame] at hread
  exact parse_of_readAs hread

end Js.Json
