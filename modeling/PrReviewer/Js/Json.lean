import PrReviewer.Js.Map
import PrReviewer.Js.Text

/-!
# JSON text

`stringify v` is `JSON.stringify(v, null, 2)` and `parse text` is `JSON.parse(text)`, `none` where it throws.

- A number that is written as a natural number below `2 ^ 53` is read as a `count`, any other as the number
  nearest to its decimal.
- A lone surrogate is not a Lean string; an escape for one is read as the replacement character.
- A field that comes twice keeps its first place and its last value.

Both directions are over lists of characters; the parser counts its depth down.
-/

open List

namespace Js.Json

/-! ## Writing -/

def hexDigit (n : Nat) : Char := Nat.digitChar n

/-- A character inside a string. -/
def escapeChar (c : Char) : List Char :=
  if c = '"' then ['\\', '"']
  else if c = '\\' then ['\\', '\\']
  else if c.toNat = 0x8 then ['\\', 'b']
  else if c.toNat = 0x9 then ['\\', 't']
  else if c.toNat = 0xA then ['\\', 'n']
  else if c.toNat = 0xC then ['\\', 'f']
  else if c.toNat = 0xD then ['\\', 'r']
  else if c.toNat < 0x20 then ['\\', 'u', '0', '0', hexDigit (c.toNat / 16), hexDigit (c.toNat % 16)]
  else [c]

def quote (s : String) : List Char := '"' :: (s.toList.flatMap escapeChar ++ ['"'])

/-- The start of a line at depth `d`. -/
def newline (d : Nat) : List Char := '\n' :: List.replicate (2 * d) ' '

/-- The items of an array or an object at depth `d`, each on a line of its own. -/
def block (l r : Char) (d : Nat) : List (List Char) → List Char
  | [] => [l, r]
  | item :: items =>
    l :: (newline (d + 1) ++ item ++ (items.flatMap fun i => ',' :: (newline (d + 1) ++ i)) ++ newline d ++ [r])

mutual

/-- The text of a value at depth `d`. -/
def print (d : Nat) : Value → List Char
  | .undefined | .null => "null".toList
  | .bool b => (if b then "true" else "false").toList
  | .number x => (if x.isFinite then numberToString x else "null").toList
  | .count n => Nat.toDigits 10 n
  | .string s => quote s
  | .array xs => block '[' ']' d (printElements (d + 1) xs)
  | .object fields => block '{' '}' d (printMembers (d + 1) fields)

def printElements (d : Nat) : List Value → List (List Char)
  | [] => []
  | x :: xs => print d x :: printElements d xs

/-- The fields; one that holds `undefined` is left out. -/
def printMembers (d : Nat) : List (String × Value) → List (List Char)
  | [] => []
  | (_, .undefined) :: fields => printMembers d fields
  | (k, v) :: fields => (quote k ++ ':' :: ' ' :: print d v) :: printMembers d fields

end

/-- `JSON.stringify(v, null, 2)`. -/
def stringify (v : Value) : String := String.ofList (print 0 v)

/-! ## Reading -/

def skip (cs : List Char) : List Char :=
  cs.dropWhile fun c => c = ' ' || c = '\n' || c = '\t' || c = '\r'

def hexValue (c : Char) : Option Nat :=
  if '0' ≤ c ∧ c ≤ '9' then some (c.toNat - 48)
  else if 'a' ≤ c ∧ c ≤ 'f' then some (c.toNat - 87)
  else if 'A' ≤ c ∧ c ≤ 'F' then some (c.toNat - 55)
  else none

/-- The code unit of the character after a backslash. -/
def escaped (c : Char) : Option Nat :=
  if c = '"' || c = '\\' || c = '/' then some c.toNat
  else if c = 'b' then some 0x8
  else if c = 't' then some 0x9
  else if c = 'n' then some 0xA
  else if c = 'f' then some 0xC
  else if c = 'r' then some 0xD
  else none

/-- The code units up to the closing quote, and what is behind it. -/
def units : List Char → Option (List Nat × List Char)
  | [] => none
  | '\\' :: 'u' :: a :: b :: c :: d :: cs => do
    let a ← hexValue a
    let b ← hexValue b
    let c ← hexValue c
    let d ← hexValue d
    let (us, rest) ← units cs
    some ((((a * 16 + b) * 16 + c) * 16 + d) :: us, rest)
  | '\\' :: c :: cs => do
    let u ← escaped c
    let (us, rest) ← units cs
    some (u :: us, rest)
  | c :: cs =>
    if c = '"' then some ([], cs)
    else if c.toNat < 0x20 then none
    else do
      let (us, rest) ← units cs
      some (charUnits c ++ us, rest)

/-- The characters of code units. -/
def ofUnits : List Nat → List Char
  | [] => []
  | [u] => [if 0xD800 ≤ u ∧ u < 0xE000 then Char.ofNat 0xFFFD else Char.ofNat u]
  | u :: v :: us =>
    if 0xD800 ≤ u ∧ u < 0xE000 then
      if u < 0xDC00 ∧ 0xDC00 ≤ v ∧ v < 0xE000 then
        Char.ofNat (0x10000 + (u - 0xD800) * 0x400 + (v - 0xDC00)) :: ofUnits us
      else Char.ofNat 0xFFFD :: ofUnits (v :: us)
    else Char.ofNat u :: ofUnits (v :: us)

/-- The string behind an opening quote. -/
def string (cs : List Char) : Option (String × List Char) :=
  (units cs).map fun (us, rest) => (String.ofList (ofUnits us), rest)

/-- The digits after a decimal point, if there is one. -/
def fractionPart : List Char → Option (List Char × List Char)
  | '.' :: cs =>
    let ds := cs.takeWhile Char.isDigit
    if ds = [] then none else some (ds, cs.dropWhile Char.isDigit)
  | cs => some ([], cs)

/-- The exponent, if there is one. -/
def exponentPart (cs : List Char) : Option (Option Int × List Char) :=
  match cs with
  | [] => some (none, cs)
  | e :: cs' =>
    if e = 'e' ∨ e = 'E' then
      let negative := cs'.head? == some '-'
      let cs' := if negative || cs'.head? == some '+' then cs'.tail else cs'
      let ds := cs'.takeWhile Char.isDigit
      if ds = [] then none
      else
        let n : Int := Nat.ofDigitChars 10 ds 0
        some (some (if negative then -n else n), cs'.dropWhile Char.isDigit)
    else some (none, cs)

def number (cs : List Char) : Option (Value × List Char) := do
  let negative := cs.head? == some '-'
  let cs := if negative then cs.tail else cs
  let whole := cs.takeWhile Char.isDigit
  if whole = [] ∨ (whole.head? = some '0' ∧ whole ≠ ['0']) then none
  else
    let (fraction, cs) ← fractionPart (cs.dropWhile Char.isDigit)
    let (exponent, cs) ← exponentPart cs
    let n := Nat.ofDigitChars 10 (whole ++ fraction) 0
    if negative = false ∧ fraction = [] ∧ exponent = none ∧ n < 2 ^ 53 then some (.count n, cs)
    else
      let x := Number.ofDecimal n (exponent.getD 0 - fraction.length)
      some (.number (if negative then -x else x), cs)

/-- A value that is neither a string nor a container. -/
def scalar (cs : List Char) : Option (Value × List Char) :=
  if "null".toList.isPrefixOf cs then some (.null, cs.drop 4)
  else if "true".toList.isPrefixOf cs then some (.bool true, cs.drop 4)
  else if "false".toList.isPrefixOf cs then some (.bool false, cs.drop 5)
  else number cs

mutual

/-- A value, with what is behind it. -/
def value : Nat → List Char → Option (Value × List Char)
  | 0, _ => none
  | n + 1, cs =>
    match skip cs with
    | [] => none
    | c :: cs =>
      if c = '{' then
        if (skip cs).head? = some '}' then some (.object [], (skip cs).tail) else members n [] cs
      else if c = '[' then
        if (skip cs).head? = some ']' then some (.array [], (skip cs).tail) else elements n [] cs
      else if c = '"' then (string cs).map fun (s, rest) => (.string s, rest)
      else scalar (c :: cs)

/-- The elements of an array behind those in `done`. -/
def elements : Nat → List Value → List Char → Option (Value × List Char)
  | 0, _, _ => none
  | n + 1, done, cs => do
    let (v, cs) ← value n cs
    match skip cs with
    | [] => none
    | c :: cs =>
      if c = ',' then elements n (done ++ [v]) cs
      else if c = ']' then some (.array (done ++ [v]), cs)
      else none

/-- The fields of an object behind those in `done`. -/
def members : Nat → List (String × Value) → List Char → Option (Value × List Char)
  | 0, _, _ => none
  | n + 1, done, cs =>
    match skip cs with
    | [] => none
    | c :: cs =>
      if c = '"' then do
        let (k, cs) ← string cs
        if (skip cs).head? = some ':' then do
          let (v, cs) ← value n (skip cs).tail
          match skip cs with
          | [] => none
          | c :: cs =>
            if c = ',' then members n (Map.setEntries k v done) cs
            else if c = '}' then some (.object (Map.setEntries k v done), cs)
            else none
        else none
      else none

end

/-- `JSON.parse(text)`. -/
def parse (text : String) : Option Value := do
  let (v, rest) ← value (text.toList.length + 1) text.toList
  if skip rest = [] then some v else none

theorem parse_of_toList {text : String} {chars : List Char} (htext : text.toList = chars) :
    parse text =
      (value (chars.length + 1) chars).bind fun r => if skip r.2 = [] then some r.1 else none := by
  subst htext
  rfl

/-! ## Strings -/

variable {n d : Nat} {c : Char} {rest : List Char} {f : String × Value}
  {fields : List (String × Value)} {v : Value}

theorem hexValue_hexDigit (h : n < 16) : hexValue (hexDigit n) = some n := by
  revert n
  decide

/-- What reading the rest of a string is, behind the code units `us`. -/
def behind (us : List Nat) (o : Option (List Nat × List Char)) : Option (List Nat × List Char) :=
  o.map fun p => (us ++ p.1, p.2)

theorem units_escaped {u : Nat} (hc : c ≠ 'u') (hu : escaped c = some u) (cs : List Char) :
    units ('\\' :: c :: cs) = behind [u] (units cs) := by
  rw [units.eq_3 _ _ (fun _ _ _ _ _ h => absurd h hc), hu]
  cases units cs <;> rfl

theorem units_unicode {u v : Nat} (hu : u < 16) (hv : v < 16) (cs : List Char) :
    units ('\\' :: 'u' :: '0' :: '0' :: hexDigit u :: hexDigit v :: cs) =
      behind [u * 16 + v] (units cs) := by
  have h0 : hexValue '0' = some 0 := rfl
  rw [units, h0, hexValue_hexDigit hu, hexValue_hexDigit hv]
  cases units cs <;> simp [behind]

theorem units_other (hquote : c ≠ '"') (hslash : c ≠ '\\') (hc : ¬c.toNat < 0x20)
    (cs : List Char) : units (c :: cs) = behind (charUnits c) (units cs) := by
  rw [units.eq_4 _ _ (fun _ _ _ _ _ h => absurd h hslash) (fun _ _ h => absurd h hslash), if_neg hquote,
    if_neg hc]
  cases units cs <;> rfl

theorem charUnits_of_lt (h : c.toNat < 0x10000) : charUnits c = [c.toNat] := if_pos h

theorem units_escapeChar (c : Char) (cs : List Char) :
    units (escapeChar c ++ cs) = behind (charUnits c) (units cs) := by
  unfold escapeChar
  by_cases hquote : c = '"'
  · subst hquote
    exact units_escaped (by decide) rfl cs
  by_cases hslash : c = '\\'
  · subst hslash
    exact units_escaped (by decide) rfl cs
  rw [if_neg hquote, if_neg hslash]
  by_cases hlow : c.toNat < 0x20
  · rw [charUnits_of_lt (by omega)]
    split
    · next h => rw [h]; exact units_escaped (by decide) rfl cs
    split
    · next h => rw [h]; exact units_escaped (by decide) rfl cs
    split
    · next h => rw [h]; exact units_escaped (by decide) rfl cs
    split
    · next h => rw [h]; exact units_escaped (by decide) rfl cs
    split
    · next h => rw [h]; exact units_escaped (by decide) rfl cs
    have hunicode := @units_unicode (c.toNat / 16) (c.toNat % 16) (by omega) (by omega) cs
    rwa [Nat.div_add_mod'] at hunicode
  · rw [if_neg (by omega), if_neg (by omega), if_neg (by omega), if_neg (by omega), if_neg (by omega),
      if_neg hlow]
    exact units_other hquote hslash hlow cs

theorem units_quoted (s rest : List Char) :
    units (s.flatMap escapeChar ++ '"' :: rest) = some (s.flatMap charUnits, rest) := by
  induction s with
  | nil => rfl
  | cons c s ih =>
    rw [List.flatMap_cons, List.append_assoc, units_escapeChar, ih, List.flatMap_cons]
    rfl

theorem ofUnits_charUnits (c : Char) (us : List Nat) : ofUnits (charUnits c ++ us) = c :: ofUnits us := by
  have hvalid : c.toNat < 0xD800 ∨ (0xDFFF < c.toNat ∧ c.toNat < 0x110000) := c.valid
  by_cases h : c.toNat < 0x10000
  · have hscalar : ¬(0xD800 ≤ c.toNat ∧ c.toNat < 0xE000) := by omega
    rw [charUnits_of_lt h]
    cases us <;> simp [ofUnits, hscalar]
  · have hsum : 0x10000 + (0xD800 + (c.toNat - 0x10000) / 0x400 - 0xD800) * 0x400 +
        (0xDC00 + (c.toNat - 0x10000) % 0x400 - 0xDC00) = c.toNat := by omega
    rw [charUnits, if_neg h, List.cons_append, List.singleton_append, ofUnits, if_pos (by omega),
      if_pos (by omega), hsum, Char.ofNat_toNat]

theorem ofUnits_flatMap (s : List Char) : ofUnits (s.flatMap charUnits) = s := by
  induction s with
  | nil => rfl
  | cons c s ih => rw [List.flatMap_cons, ofUnits_charUnits, ih]

theorem string_quoted (s : String) (rest : List Char) :
    string (s.toList.flatMap escapeChar ++ '"' :: rest) = some (s, rest) := by
  rw [string, units_quoted, Option.map_some]
  dsimp only
  rw [ofUnits_flatMap, String.ofList_toList]

/-- A quoted text and what is behind it are told by their text. -/
theorem quote_append_inj {s t : String} {rest' : List Char} (h : quote s ++ rest = quote t ++ rest') :
    s = t ∧ rest = rest' := by
  simp only [quote, cons_append, append_assoc, List.cons.injEq, true_and, nil_append] at h
  have hs := string_quoted s rest
  rw [h, string_quoted, Option.some.injEq, Prod.mk.injEq] at hs
  exact ⟨hs.1.symm, hs.2.symm⟩

/-! ## Numbers -/

/-- What may stand behind a number. -/
def Ends (rest : List Char) : Prop :=
  ∀ c ∈ rest.head?, c.isDigit = false ∧ c ≠ '.' ∧ c ≠ 'e' ∧ c ≠ 'E'

theorem ends_cons (rest : List Char)
    (h : c.isDigit = false ∧ c ≠ '.' ∧ c ≠ 'e' ∧ c ≠ 'E') : Ends (c :: rest) := by
  intro c' hc'
  obtain rfl : c = c' := by simpa using hc'
  exact h

theorem isDigit_of_mem (h : c ∈ Nat.toDigits 10 n) : c.isDigit = true :=
  Nat.isDigit_of_mem_toDigits (by decide) (by decide) h

theorem takeWhile_digits (hrest : Ends rest) (n : Nat) :
    (Nat.toDigits 10 n ++ rest).takeWhile Char.isDigit = Nat.toDigits 10 n := by
  rw [takeWhile_append_of_pos fun c => isDigit_of_mem]
  cases rest with
  | nil => rw [takeWhile_nil, append_nil]
  | cons c rest =>
    have hc := (hrest c rfl).1
    rw [takeWhile_cons_of_neg (by simp [hc]), append_nil]

theorem dropWhile_digits (hrest : Ends rest) (n : Nat) :
    (Nat.toDigits 10 n ++ rest).dropWhile Char.isDigit = rest := by
  rw [dropWhile_append_of_pos fun c => isDigit_of_mem]
  cases rest with
  | nil => rfl
  | cons c rest =>
    have hc := (hrest c rfl).1
    rw [dropWhile_cons_of_neg (by simp [hc])]

/-- Only 0 is written with a 0 in front. -/
theorem toDigits_head (n : Nat) :
    (Nat.toDigits 10 n).head? = some '0' → Nat.toDigits 10 n = ['0'] := by
  induction n using Nat.strongRecOn with
  | ind n ih =>
    by_cases h : n < 10
    · rw [Nat.toDigits_of_lt_base h]
      intro hhead
      rw [List.head?_cons, Option.some.injEq] at hhead
      rw [hhead]
    · rw [Nat.toDigits_of_base_le (by decide) (by omega)]
      intro hhead
      have hne : Nat.toDigits 10 (n / 10) ≠ [] := Nat.toDigits_ne_nil
      rw [List.head?_append_of_ne_nil _ hne] at hhead
      have hzero := ih (n / 10) (by omega) hhead
      have hn := Nat.ofDigitChars_ten_toDigits (n := n / 10)
      rw [hzero] at hn
      exact absurd hn (by simp [Nat.ofDigitChars]; omega)

theorem number_toDigits {n : Nat} (hn : n < 2 ^ 53) {rest : List Char} (hrest : Ends rest) :
    number (Nat.toDigits 10 n ++ rest) = some (.count n, rest) := by
  have hsign : ((Nat.toDigits 10 n ++ rest).head? == some '-') = false := by
    rw [List.head?_append_of_ne_nil _ Nat.toDigits_ne_nil, beq_eq_false_iff_ne]
    intro hhead
    exact absurd (isDigit_of_mem (List.mem_of_mem_head? hhead)) (by decide)
  have hwhole : ¬(Nat.toDigits 10 n = [] ∨
      ((Nat.toDigits 10 n).head? = some '0' ∧ Nat.toDigits 10 n ≠ ['0'])) := by
    rintro (hnil | ⟨hhead, hne⟩)
    · exact Nat.toDigits_ne_nil hnil
    · exact hne (toDigits_head n hhead)
  have hfraction : fractionPart rest = some ([], rest) := by
    unfold fractionPart
    split
    · exact absurd rfl (hrest _ rfl).2.1
    · rfl
  have hexponent : exponentPart rest = some (none, rest) := by
    unfold exponentPart
    split
    · rfl
    · next e cs =>
      have he := (hrest e rfl).2.2
      rw [if_neg (by simp [he])]
  unfold number
  dsimp only
  rw [hsign, if_neg Bool.false_ne_true, takeWhile_digits hrest, dropWhile_digits hrest, if_neg hwhole, hfraction]
  simp only [Option.bind_eq_bind, Option.bind_some, hexponent, append_nil, Nat.ofDigitChars_ten_toDigits]
  rw [if_pos ⟨trivial, trivial, trivial, hn⟩]

/-! ## Values -/

/-- A value that JSON text gives back: no `undefined`, no number but the safe natural ones, no key twice. -/
inductive Plain : Value → Prop where
  | null : Plain .null
  | bool (b : Bool) : Plain (.bool b)
  | count {n : Nat} (h : n < 2 ^ 53) : Plain (.count n)
  | string (s : String) : Plain (.string s)
  | array {xs : List Value} (h : ∀ x ∈ xs, Plain x) : Plain (.array xs)
  | object {fields : List (String × Value)} (hkeys : (fields.map Prod.fst).Nodup)
      (h : ∀ f ∈ fields, Plain f.2) : Plain (.object fields)

theorem printElements_eq_map (d : Nat) (xs : List Value) : printElements d xs = xs.map (print d) := by
  induction xs with
  | nil => rfl
  | cons x xs ih => rw [printElements, ih, map_cons]

theorem skip_newline (d : Nat) (cs : List Char) : skip (newline d ++ cs) = skip cs := by
  have hspaces : ∀ n, skip (List.replicate n ' ' ++ cs) = skip cs := by
    intro n
    induction n with
    | zero => rfl
    | succ n ih => rw [replicate_succ, cons_append, skip, dropWhile_cons_of_pos rfl]; exact ih
  rw [newline, cons_append, skip, dropWhile_cons_of_pos rfl]
  exact hspaces _

theorem skip_cons (h : (c = ' ' || c = '\n' || c = '\t' || c = '\r') = false) (cs : List Char) :
    skip (c :: cs) = c :: cs :=
  dropWhile_cons_of_neg (by rw [h]; exact Bool.false_ne_true)

theorem value_newline (n d : Nat) (cs : List Char) : value n (newline d ++ cs) = value n cs := by
  cases n with
  | zero => rfl
  | succ n => rw [value, value, skip_newline]

theorem elements_newline (n d : Nat) (done : List Value) (cs : List Char) :
    elements n done (newline d ++ cs) = elements n done cs := by
  cases n with
  | zero => rfl
  | succ n => rw [elements, elements, value_newline]

theorem members_newline (n d : Nat) (done : List (String × Value)) (cs : List Char) :
    members n done (newline d ++ cs) = members n done cs := by
  cases n with
  | zero => rfl
  | succ n => rw [members, members, skip_newline]

theorem value_space (n : Nat) (cs : List Char) : value n (' ' :: cs) = value n cs := by
  cases n with
  | zero => rfl
  | succ n => rw [value, value, skip, dropWhile_cons_of_pos rfl]; rfl

theorem value_scalar (n : Nat) {c : Char}
    (hc : (c = ' ' || c = '\n' || c = '\t' || c = '\r' || c = '{' || c = '[' || c = '"') = false)
    (cs : List Char) : value (n + 1) (c :: cs) = scalar (c :: cs) := by
  simp only [Bool.or_eq_false_iff, decide_eq_false_iff_not] at hc
  obtain ⟨⟨⟨⟨⟨⟨hspace, hline⟩, htab⟩, hreturn⟩, hbrace⟩, hbracket⟩, hquote⟩ := hc
  rw [value, skip_cons (by simp [hspace, hline, htab, hreturn])]
  dsimp only
  rw [if_neg hbrace, if_neg hbracket, if_neg hquote]

theorem value_bracket {cs : List Char} (h : (skip cs).head? = some ']') (n : Nat) : value n cs = none := by
  cases n with
  | zero => rfl
  | succ n =>
    obtain ⟨cs', hcs⟩ : ∃ cs', skip cs = ']' :: cs' := by
      rw [List.head?_eq_some_iff] at h
      exact h
    rw [value, hcs]
    rfl

/-- The items behind the first one, up to the closing bracket. -/
def behindItem (d : Nat) (items : List (List Char)) (r : Char) : List Char :=
  (items.flatMap fun i => ',' :: (newline (d + 1) ++ i)) ++ newline d ++ [r]

theorem block_cons (l r : Char) (d : Nat) (item : List Char) (items : List (List Char)) :
    block l r d (item :: items) = l :: (newline (d + 1) ++ (item ++ behindItem d items r)) := by
  simp [block, behindItem]

theorem ends_behindItem (d : Nat) (items : List (List Char)) (r : Char) (rest : List Char) :
    Ends (behindItem d items r ++ rest) := by
  cases items with
  | nil => exact ends_cons _ (by decide)
  | cons i items => exact ends_cons _ (by decide)

theorem setEntries_of_nodup {done : List (String × Value)}
    (h : ((done ++ f :: fields).map Prod.fst).Nodup) :
    Map.setEntries f.1 f.2 done = done ++ [f] :=
  Map.setEntries_of_not_mem (Map.not_mem_of_nodup h)

end Js.Json
