import PrReviewer.Evidence.PyFloat
import PrReviewer.Js.JsonBlock

/-!
# Python's JSON text (`evidence/pyjson.ts`, `pyJsonDumps`)

`pyJsonDumps v` is `json.dumps(v, indent=2, ensure_ascii=False)`. Its layout is that of `JSON.stringify(v, null, 2)`,
but a number that is not whole is written as Python's float, one that is not finite as a name that JSON has not, and an
`undefined` field as `null`.
-/

namespace PrReviewer.Evidence

open Js Js.Json List

def dumpFloat (value : Number) : List Char :=
  if value.isNaN then "NaN".toList
  else if !value.isFinite then (if 0 < value then "Infinity" else "-Infinity").toList
  else (pyFloatRepr value).toList

mutual

def encodeValue (level : Nat) : Value → List Char
  | .undefined | .null => "null".toList
  | .bool b => (if b then "true" else "false").toList
  | .number x => if x.isInteger then (numberToString x).toList else dumpFloat x
  | .count n => Nat.toDigits 10 n
  | .string s => quote s
  | .array xs => block '[' ']' level (encodeElements (level + 1) xs)
  | .object fields => block '{' '}' level (encodeMembers (level + 1) fields)

def encodeElements (level : Nat) : List Value → List (List Char)
  | [] => []
  | x :: xs => encodeValue level x :: encodeElements level xs

def encodeMembers (level : Nat) : List (String × Value) → List (List Char)
  | [] => []
  | (k, v) :: fields => memberLine (k, encodeValue level v) :: encodeMembers level fields

end

def pyJsonDumps (value : Value) : String := String.ofList (encodeValue 0 value)

theorem encodeElements_eq_map (level : Nat) (xs : List Value) : encodeElements level xs = xs.map (encodeValue level) := by
  induction xs with
  | nil => rfl
  | cons x xs ih => rw [encodeElements, ih, map_cons]

theorem encodeMembers_eq_map (level : Nat) (fields : List (String × Value)) :
    encodeMembers level fields = (fields.map fun f => (f.1, encodeValue level f.2)).map memberLine := by
  induction fields with
  | nil => rfl
  | cons f fields ih => rw [encodeMembers, ih, map_cons, map_cons]

/-! ## Reading the text -/

theorem readAs_toDigits (n : Nat) : ∃ v, ReadAs (Nat.toDigits 10 n) v ∧ (n < 2 ^ 53 → v = .count n) := by
  have hread : ∀ rest, Ends rest →
      number (Nat.toDigits 10 n ++ rest) = some (ofParts false (Nat.toDigits 10 n) [] none, rest) := fun rest hrest =>
    @number_parts rest (Nat.toDigits 10 n) [] none false Nat.toDigits_ne_nil (fun c => isDigit_of_mem)
      (toDigits_head n) (forall_mem_nil _) hrest
  refine ⟨ofParts false (Nat.toDigits 10 n) [] none, fun k rest hk hrest => ?_, fun hn => ?_⟩
  · obtain ⟨j, rfl⟩ : ∃ j, k = j + 1 := ⟨k - 1, by
      have := length_pos_iff.mpr (Nat.toDigits_ne_nil (b := 10) (n := n))
      omega⟩
    exact value_of_number (hread rest hrest) j
  · simpa [ofParts, Nat.ofDigitChars_ten_toDigits] using hn

variable {v : Value} {x : Number}

/-- A plain value is read back from its text. -/
theorem readAs_encodeValue (h : Plain v) (level : Nat) : ReadAs (encodeValue level v) v := by
  induction h generalizing level with
  | null => exact readAs_null
  | bool b => exact readAs_bool b
  | @count n hn =>
    obtain ⟨v, hread, hcount⟩ := readAs_toDigits n
    rw [hcount hn] at hread
    rwa [encodeValue]
  | string s => exact readAs_quote s
  | @array xs h ih =>
    rw [encodeValue, encodeElements_eq_map]
    refine ReadAs.block_array ?_ level
    rw [forall₂_map_left_iff, forall₂_same]
    exact fun x hx => ih x hx (level + 1)
  | @object fields hkeys h ih =>
    rw [encodeValue, encodeMembers_eq_map]
    refine ReadAs.block_object ?_ hkeys level
    rw [forall₂_map_left_iff, forall₂_same]
    exact fun f hf => ⟨rfl, ih f hf (level + 1)⟩

/-- A finite number is read back as a number. -/
theorem readAs_number (hfinite : x.isFinite = true) (level : Nat) :
    ∃ v, ReadAs (encodeValue level (.number x)) v := by
  rw [encodeValue]
  split
  · obtain ⟨v, hread, -⟩ := Json.readAs_number hfinite
    exact ⟨v, hread⟩
  · obtain ⟨y, -, hread⟩ := number_pyFloatRepr hfinite
    have hdump : dumpFloat x = (pyFloatRepr x).toList := by
      rw [dumpFloat, Number.not_isNaN_of_isFinite hfinite, hfinite]
      rfl
    refine ⟨.number y, fun n rest hn hrest => ?_⟩
    have hne : (pyFloatRepr x).toList ≠ [] := by
      intro hnil
      have := hread [] nofun
      rw [hnil] at this
      cases this
    rw [hdump] at hn ⊢
    obtain ⟨m, rfl⟩ : ∃ m, n = m + 1 := ⟨n - 1, by have := length_pos_iff.mpr hne; omega⟩
    exact value_of_number (hread rest hrest) m

theorem isInteger_of_not_isFinite (h : x.isFinite = false) : x.isInteger = false := by
  change Float.Model.UnpackedFloat.isFinite x.toModel.unpack = false at h
  unfold Number.isInteger
  split
  · next hu =>
    rw [hu] at h
    cases h
  · next hu =>
    rw [hu] at h
    cases h
  · rfl
  · rfl

/-- A number that is not finite is not read. -/
theorem unread_number (h : x.isFinite = false) (level : Nat) : Unread (encodeValue level (.number x)) := by
  have hscalar : ∀ {cs : List Char}, cs = "NaN".toList ∨ cs = "Infinity".toList ∨ cs = "-Infinity".toList →
      Unread cs := by
    rintro cs (rfl | rfl | rfl) n rest hn
    all_goals
      obtain ⟨m, rfl⟩ : ∃ m, n = m + 1 := ⟨n - 1, by simp at hn; omega⟩
      exact value_scalar m rfl _
  apply hscalar
  rw [encodeValue, isInteger_of_not_isFinite h, if_neg Bool.false_ne_true, dumpFloat, h]
  by_cases hnan : x.isNaN = true
  · exact .inl (if_pos hnan)
  · rw [if_neg hnan, if_pos (Bool.not_false)]
    by_cases hpos : 0 < x
    · exact .inr (.inl (by rw [if_pos hpos]))
    · exact .inr (.inr (by rw [if_neg hpos]))

/-- The text of the value is read as some value, wherever it stands. -/
def Readable (v : Value) : Prop := ∀ level, ∃ v', ReadAs (encodeValue level v) v'

/-- The text of the value is no start of a value. -/
def Unreadable (v : Value) : Prop := ∀ level, Unread (encodeValue level v)

theorem readable_of_plain (h : Plain v) : Readable v := fun level => ⟨v, readAs_encodeValue h level⟩

theorem readable_count (n : Nat) : Readable (.count n) := fun level => by
  obtain ⟨v, hread, -⟩ := readAs_toDigits n
  rw [encodeValue]
  exact ⟨v, hread⟩

theorem readable_number (hfinite : x.isFinite = true) : Readable (.number x) := readAs_number hfinite

theorem unreadable_number (h : x.isFinite = false) : Unreadable (.number x) := unread_number h

/-- The fields of an object, as they are read. -/
theorem exists_members {fields : List (String × Value)} (h : ∀ f ∈ fields, Readable f.2) (level : Nat) :
    ∃ fields', List.Forall₂ MemberAs (fields.map fun f => (f.1, encodeValue level f.2)) fields' ∧
      fields'.map Prod.fst = fields.map Prod.fst := by
  induction fields with
  | nil => exact ⟨[], .nil, rfl⟩
  | cons f fields ih =>
    obtain ⟨v, hread⟩ := h f mem_cons_self level
    obtain ⟨fields', hfields, hkeys⟩ := ih fun g hg => h g (mem_cons_of_mem f hg)
    exact ⟨(f.1, v) :: fields', .cons ⟨rfl, hread⟩ hfields, by rw [map_cons, map_cons, hkeys]⟩

theorem Readable.object {fields : List (String × Value)} (h : ∀ f ∈ fields, Readable f.2)
    (hkeys : (fields.map Prod.fst).Nodup) : Readable (.object fields) := fun level => by
  obtain ⟨fields', hfields, hsame⟩ := exists_members h (level + 1)
  rw [encodeValue, encodeMembers_eq_map]
  exact ⟨_, ReadAs.block_object hfields (hsame ▸ hkeys) level⟩

/-- An object with a field that is not read is not read. -/
theorem Unreadable.object {bad : String × Value} (hbad : Unreadable bad.2) {before : List (String × Value)}
    (h : ∀ f ∈ before, Readable f.2) (hkeys : (before.map Prod.fst).Nodup) (behind : List (String × Value)) :
    Unreadable (.object (before ++ bad :: behind)) := fun level => by
  obtain ⟨fields', hfields, hsame⟩ := exists_members h (level + 1)
  rw [encodeValue, encodeMembers_eq_map, map_append, map_cons]
  exact @Unread.block_object (bad.1, encodeValue (level + 1) bad.2) (hbad (level + 1)) _ fields' hfields
    (hsame ▸ hkeys) _ level

theorem parse_of_unread {text : List Char} (h : Unread text) : parse (String.ofList text) = none := by
  have hvalue := h (text.length + 1) [] (by omega)
  rw [append_nil] at hvalue
  rw [parse, String.toList_ofList, hvalue]
  rfl

end PrReviewer.Evidence
