import PrReviewer.Js.Json
import PrReviewer.Js.Lines

/-!
# Python's JSON text

`src/model/conversation.ts` writes JSON as Python does. `pyJsonEncode` and `pyJsonCompact` are one writer
(`encode`) with the separators, the order of the members and the escapes as parameters (`Layout`).

With sorted members the text does not depend on the order of the members of an object (`encode_congr`), and
`JSON.parse` gives no object the same member twice (`keyed_parse`).
-/

open Js List

namespace PrReviewer.Model

/-! ## Writing -/

/-- A code unit as `\uXXXX`. -/
def unitEscape (u : Nat) : List Char :=
  let digits := Nat.toDigits 16 u
  '\\' :: 'u' :: (List.replicate (4 - digits.length) '0' ++ digits)

def pyJsonEscapeChar (ensureAscii : Bool) (c : Char) : List Char :=
  if c = '\\' then ['\\', '\\']
  else if c = '"' then ['\\', '"']
  else if c = '\n' then ['\\', 'n']
  else if c = '\r' then ['\\', 'r']
  else if c = '\t' then ['\\', 't']
  else if c.toNat = 0x8 then ['\\', 'b']
  else if c.toNat = 0xC then ['\\', 'f']
  else if c.toNat < 0x20 then unitEscape c.toNat
  else if ensureAscii && decide (0x7E < c.toNat) then (charUnits c).flatMap unitEscape
  else [c]

def pyJsonEscapeString (text : String) (ensureAscii : Bool) : List Char :=
  '"' :: (text.toList.flatMap (pyJsonEscapeChar ensureAscii) ++ ['"'])

/-- How a value is written. `other` is the text of what is no JSON. -/
structure Layout where
  comma : String
  colon : String
  other : String
  sortKeys : Bool
  ensureAscii : Bool

/-- The entries of an object by their keys. -/
def sortEntries {α : Type} (entries : List (String × α)) : List (String × α) :=
  entries.insertionSort fun a b => !strLt b.1 a.1

/-- The texts between brackets. -/
def enclose (l r : Char) (comma : String) (items : List (List Char)) : List Char :=
  l :: (comma.toList.intercalate items ++ [r])

mutual

def encode (l : Layout) : Value → List Char
  | .undefined => l.other.toList
  | .null => "null".toList
  | .bool b => (if b then "true" else "false").toList
  | .number x => (numberToString x).toList
  | .count n => (numberToString (Number.ofNat n)).toList
  | .string s => pyJsonEscapeString s l.ensureAscii
  | .array xs => enclose '[' ']' l.comma (encodeElements l xs)
  | .object fields =>
    let entries := encodeMembers l fields
    enclose '{' '}' l.comma ((if l.sortKeys then sortEntries entries else entries).map fun entry =>
      pyJsonEscapeString entry.1 l.ensureAscii ++ l.colon.toList ++ entry.2)

def encodeElements (l : Layout) : List Value → List (List Char)
  | [] => []
  | x :: xs => encode l x :: encodeElements l xs

/-- The members, each with the text of its value. -/
def encodeMembers (l : Layout) : List (String × Value) → List (String × List Char)
  | [] => []
  | (k, v) :: fields => (k, encode l v) :: encodeMembers l fields

end

/-- `pyJsonEncode(value, sortKeys, ensureAscii)`. -/
def pyJsonEncode (value : Value) (sortKeys ensureAscii : Bool) : String :=
  String.ofList (encode ⟨", ", ": ", "undefined", sortKeys, ensureAscii⟩ value)

/-- `pyJsonCompact(value, sortKeys, ensureAscii)`. -/
def pyJsonCompact (value : Value) (sortKeys ensureAscii : Bool) : String :=
  String.ofList (encode ⟨",", ":", "null", sortKeys, ensureAscii⟩ value)

def pyDumpsSorted (value : Value) : String := pyJsonEncode value true false

def pyDumps (value : Value) : String := pyJsonEncode value false false

def pyDumpsCompactSortedAscii (value : Value) : String := pyJsonCompact value true true

/-! ## Equal values -/

/-- The number that a value is. -/
def numeric? : Value → Option Number
  | .number x => some x
  | .count n => some (Number.ofNat n)
  | _ => none

mutual

/-- The same JSON value: the members of an object are in no order. -/
def Same : Value → Value → Prop
  | .undefined, w => w = .undefined
  | .null, w => w = .null
  | .bool b, w => w = .bool b
  | .number x, w => numeric? w = some x
  | .count n, w => numeric? w = some (Number.ofNat n)
  | .string s, w => w = .string s
  | .array xs, w => ∃ ys, w = .array ys ∧ SameElements xs ys
  | .object fields, w => ∃ fields', w = .object fields' ∧
      (fields.map Prod.fst).Perm (fields'.map Prod.fst) ∧ SameMembers fields fields'

def SameElements : List Value → List Value → Prop
  | [], ys => ys = []
  | x :: xs, ys => ∃ y ys', ys = y :: ys' ∧ Same x y ∧ SameElements xs ys'

/-- Each of these members is in the other object. -/
def SameMembers : List (String × Value) → List (String × Value) → Prop
  | [], _ => True
  | (k, v) :: fields, fields' => (∃ w, (k, w) ∈ fields' ∧ Same v w) ∧ SameMembers fields fields'

end

mutual

/-- No object in the value has a member twice. -/
def Keyed : Value → Prop
  | .array xs => KeyedAll xs
  | .object fields => (fields.map Prod.fst).Nodup ∧ KeyedMembers fields
  | _ => True

def KeyedAll : List Value → Prop
  | [] => True
  | x :: xs => Keyed x ∧ KeyedAll xs

def KeyedMembers : List (String × Value) → Prop
  | [] => True
  | (_, v) :: fields => Keyed v ∧ KeyedMembers fields

end

/-! ## The text of equal values -/

theorem encodeMembers_eq_map (l : Layout) (fields : List (String × Value)) :
    encodeMembers l fields = fields.map fun f => (f.1, encode l f.2) := by
  induction fields with
  | nil => rfl
  | cons f fields ih => simp [encodeMembers, ih]

theorem perm_sortEntries {α : Type} (entries : List (String × α)) : (sortEntries entries).Perm entries :=
  perm_insertionSort _ _

/-- Entries with different keys have one sorted order. -/
theorem sortEntries_eq {α : Type} {entries entries' : List (String × α)}
    (hkeys : (entries.map Prod.fst).Nodup) (h : entries.Perm entries') :
    sortEntries entries = sortEntries entries' := by
  have hsorted : ∀ es : List (String × α), (sortEntries es).Pairwise fun a b => utf16 a.1 ≤ utf16 b.1 := by
    intro es
    have hiff : ∀ a b : String × α, (!strLt b.1 a.1) = true ↔ utf16 a.1 ≤ utf16 b.1 := by
      intro a b
      rw [strLt, Bool.not_eq_true', decide_eq_false_iff_not]
      exact not_lt
    have hpairwise : (sortEntries es).Pairwise fun a b => (!strLt b.1 a.1) = true :=
      @pairwise_insertionSort (String × α) (fun a b => (!strLt b.1 a.1) = true) _
        ⟨fun a b => by rw [hiff, hiff]; exact le_total _ _⟩
        ⟨fun a b c => by rw [hiff, hiff, hiff]; exact le_trans⟩ es
    exact hpairwise.imp fun h => (hiff _ _).mp h
  refine List.Perm.eq_of_pairwise (fun a b ha hb hab hba => ?_) (hsorted entries) (hsorted entries')
    ((perm_sortEntries entries).trans (h.trans (perm_sortEntries entries').symm))
  have hmem : a ∈ entries := (perm_sortEntries entries).mem_iff.mp ha
  have hmem' : b ∈ entries := h.mem_iff.mpr ((perm_sortEntries entries').mem_iff.mp hb)
  exact inj_on_of_nodup_map hkeys hmem hmem' (utf16_injective (le_antisymm hab hba))

theorem keyedMembers_iff {fields : List (String × Value)} :
    KeyedMembers fields ↔ ∀ f ∈ fields, Keyed f.2 := by
  induction fields with
  | nil => simp [KeyedMembers]
  | cons f fields ih => simp [KeyedMembers, ih]

/-- The members with the same names and texts, in some order. -/
theorem perm_encodeMembers {l : Layout} {fields fields' : List (String × Value)}
    (hkeys : (fields.map Prod.fst).Nodup) (hkeys' : (fields'.map Prod.fst).Nodup)
    (hperm : (fields.map Prod.fst).Perm (fields'.map Prod.fst))
    (hsame : ∀ f ∈ fields, ∃ w, (f.1, w) ∈ fields' ∧ encode l f.2 = encode l w) :
    (encodeMembers l fields).Perm (encodeMembers l fields') := by
  have hfst : ∀ fs : List (String × Value), (encodeMembers l fs).map Prod.fst = fs.map Prod.fst := by
    intro fs
    rw [encodeMembers_eq_map, map_map]
    rfl
  have hnodup : ∀ fs : List (String × Value), (fs.map Prod.fst).Nodup → (encodeMembers l fs).Nodup :=
    fun fs h => List.Nodup.of_map Prod.fst ((hfst fs).symm ▸ h)
  refine (perm_ext_iff_of_nodup (hnodup _ hkeys) (hnodup _ hkeys')).mpr fun entry => ?_
  rw [encodeMembers_eq_map, encodeMembers_eq_map, mem_map, mem_map]
  constructor
  · rintro ⟨f, hf, rfl⟩
    obtain ⟨w, hw, htext⟩ := hsame f hf
    exact ⟨(f.1, w), hw, by rw [htext]⟩
  · rintro ⟨f', hf', rfl⟩
    obtain ⟨f, hf, hkey⟩ := mem_map.mp (hperm.mem_iff.mpr (mem_map_of_mem hf'))
    obtain ⟨w, hw, htext⟩ := hsame f hf
    have heq : (f.1, w) = f' := inj_on_of_nodup_map hkeys' hw hf' hkey
    exact ⟨f, hf, by rw [htext, ← heq]⟩

mutual

/-- Equal values have one text when the members are sorted. -/
theorem encode_congr {l : Layout} (hsort : l.sortKeys = true) :
    ∀ v w : Value, Same v w → Keyed v → Keyed w → encode l v = encode l w
  | .undefined, w, h, _, _ => by
    rw [Same] at h
    rw [h]
  | .null, w, h, _, _ => by
    rw [Same] at h
    rw [h]
  | .bool b, w, h, _, _ => by
    rw [Same] at h
    rw [h]
  | .string s, w, h, _, _ => by
    rw [Same] at h
    rw [h]
  | .number x, w, h, _, _ => by
    rw [Same] at h
    cases w <;> simp_all [numeric?, encode]
  | .count n, w, h, _, _ => by
    rw [Same] at h
    cases w <;> simp_all [numeric?, encode]
  | .array xs, w, h, hv, hw => by
    rw [Same] at h
    obtain ⟨ys, rfl, hxs⟩ := h
    rw [Keyed] at hv hw
    rw [encode, encode, encodeElements_congr hsort xs ys hxs hv hw]
  | .object fields, w, h, hv, hw => by
    rw [Same] at h
    obtain ⟨fields', rfl, hperm, hsame⟩ := h
    rw [Keyed] at hv hw
    have htexts := encodeMembers_congr hsort fields fields' hsame hv.2 hw.2
    have hentries := perm_encodeMembers hv.1 hw.1 hperm htexts
    have hkeys : ((encodeMembers l fields).map Prod.fst).Nodup := by
      rw [encodeMembers_eq_map, map_map]
      exact hv.1
    rw [encode, encode, hsort]
    simp only [↓reduceIte]
    rw [sortEntries_eq hkeys hentries]

theorem encodeElements_congr {l : Layout} (hsort : l.sortKeys = true) :
    ∀ xs ys : List Value, SameElements xs ys → KeyedAll xs → KeyedAll ys →
      encodeElements l xs = encodeElements l ys
  | [], ys, h, _, _ => by
    rw [SameElements] at h
    rw [h]
  | x :: xs, ys, h, hx, hy => by
    rw [SameElements] at h
    obtain ⟨y, ys', rfl, hxy, hrest⟩ := h
    rw [KeyedAll] at hx hy
    rw [encodeElements, encodeElements, encode_congr hsort x y hxy hx.1 hy.1,
      encodeElements_congr hsort xs ys' hrest hx.2 hy.2]

theorem encodeMembers_congr {l : Layout} (hsort : l.sortKeys = true) :
    ∀ fields fields' : List (String × Value), SameMembers fields fields' → KeyedMembers fields →
      KeyedMembers fields' → ∀ f ∈ fields, ∃ w, (f.1, w) ∈ fields' ∧ encode l f.2 = encode l w
  | [], _, _, _, _ => fun _ hf => absurd hf not_mem_nil
  | (k, v) :: fields, fields', h, hv, hw => by
    rw [SameMembers] at h
    rw [KeyedMembers] at hv
    obtain ⟨⟨w, hmem, hsame⟩, hrest⟩ := h
    intro f hf
    rcases mem_cons.mp hf with rfl | hf
    · exact ⟨w, hmem, encode_congr hsort v w hsame hv.1 (keyedMembers_iff.mp hw _ hmem)⟩
    · exact encodeMembers_congr hsort fields fields' hrest hv.2 hw f hf

end

/-! ## Parsed values -/

theorem keyedAll_iff {xs : List Value} : KeyedAll xs ↔ ∀ x ∈ xs, Keyed x := by
  induction xs with
  | nil => simp [KeyedAll]
  | cons x xs ih => simp [KeyedAll, ih]

theorem keyed_number {cs rest : List Char} {v : Value} (h : Json.number cs = some (v, rest)) : Keyed v := by
  unfold Json.number at h
  extract_lets negative cs whole at h
  split at h
  · cases h
  · obtain ⟨⟨fraction, cs'⟩, -, h⟩ := Option.bind_eq_some_iff.mp h
    obtain ⟨⟨exponent, cs''⟩, -, h⟩ := Option.bind_eq_some_iff.mp h
    dsimp only at h
    split at h <;> obtain ⟨rfl, -⟩ := Prod.mk.inj (Option.some.inj h) <;> trivial

theorem keyed_scalar {cs rest : List Char} {v : Value} (h : Json.scalar cs = some (v, rest)) : Keyed v := by
  unfold Json.scalar at h
  split at h
  · obtain ⟨rfl, -⟩ := Prod.mk.inj (Option.some.inj h)
    trivial
  split at h
  · obtain ⟨rfl, -⟩ := Prod.mk.inj (Option.some.inj h)
    trivial
  split at h
  · obtain ⟨rfl, -⟩ := Prod.mk.inj (Option.some.inj h)
    trivial
  · exact keyed_number h

theorem keyed_setEntries {k : String} {v : Value} {fields : List (String × Value)} (hv : Keyed v)
    (h : ∀ f ∈ fields, Keyed f.2) : ∀ f ∈ Map.setEntries k v fields, Keyed f.2 := by
  induction fields with
  | nil => simpa [Map.setEntries] using hv
  | cons f fields ih =>
    unfold Map.setEntries
    split
    · simp only [forall_mem_cons] at h ⊢
      exact ⟨hv, h.2⟩
    · simp only [forall_mem_cons] at h ⊢
      exact ⟨h.1, ih h.2⟩

/-- What the parser reads has no member twice, at each depth. -/
theorem keyed_value (n : Nat) :
    (∀ cs v rest, Json.value n cs = some (v, rest) → Keyed v) ∧
    (∀ items cs v rest, (∀ x ∈ items, Keyed x) → Json.elements n items cs = some (v, rest) → Keyed v) ∧
    (∀ fields cs v rest, (fields.map Prod.fst).Nodup → (∀ f ∈ fields, Keyed f.2) →
      Json.members n fields cs = some (v, rest) → Keyed v) := by
  induction n with
  | zero =>
    refine ⟨fun cs v rest h => ?_, fun items cs v rest _ h => ?_, fun fields cs v rest _ _ h => ?_⟩
    · simp [Json.value] at h
    · simp [Json.elements] at h
    · simp [Json.members] at h
  | succ n ih =>
    obtain ⟨hvalue, helements, hmembers⟩ := ih
    refine ⟨fun cs v rest h => ?_, fun items cs v rest hitems h => ?_, fun fields cs v rest hkeys hfields h => ?_⟩
    · unfold Json.value at h
      split at h
      · cases h
      split at h
      · split at h
        · obtain ⟨rfl, -⟩ := Prod.mk.inj (Option.some.inj h)
          exact ⟨nodup_nil, trivial⟩
        · exact hmembers [] _ _ _ nodup_nil (by simp) h
      split at h
      · split at h
        · obtain ⟨rfl, -⟩ := Prod.mk.inj (Option.some.inj h)
          trivial
        · exact helements _ _ _ _ (by simp) h
      split at h
      · obtain ⟨p, -, hp⟩ := Option.map_eq_some_iff.mp h
        obtain ⟨rfl, -⟩ := Prod.mk.inj hp
        trivial
      · exact keyed_scalar h
    · unfold Json.elements at h
      obtain ⟨⟨x, cs'⟩, hx, h⟩ := Option.bind_eq_some_iff.mp h
      have hall : ∀ y ∈ items ++ [x], Keyed y := by
        intro y hy
        rcases mem_append.mp hy with hy | hy
        · exact hitems y hy
        · rw [mem_singleton.mp hy]
          exact hvalue _ _ _ hx
      dsimp only at h
      split at h
      · cases h
      split at h
      · exact helements _ _ _ _ hall h
      split at h
      · obtain ⟨rfl, -⟩ := Prod.mk.inj (Option.some.inj h)
        exact keyedAll_iff.mpr hall
      · cases h
    · unfold Json.members at h
      split at h
      · cases h
      split at h
      · obtain ⟨⟨k, cs'⟩, -, h⟩ := Option.bind_eq_some_iff.mp h
        dsimp only at h
        split at h
        · obtain ⟨⟨x, cs''⟩, hx, h⟩ := Option.bind_eq_some_iff.mp h
          have hkeys' := Map.nodup_setEntries (k := k) (v := x) hkeys
          have hall := keyed_setEntries (k := k) (hvalue _ _ _ hx) hfields
          dsimp only at h
          split at h
          · cases h
          split at h
          · exact hmembers _ _ _ _ hkeys' hall h
          split at h
          · obtain ⟨rfl, -⟩ := Prod.mk.inj (Option.some.inj h)
            exact ⟨hkeys', keyedMembers_iff.mpr hall⟩
          · cases h
        · cases h
      · cases h

theorem keyed_parse {text : String} {v : Value} (h : Json.parse text = some v) : Keyed v := by
  unfold Json.parse at h
  obtain ⟨⟨x, rest⟩, hx, h⟩ := Option.bind_eq_some_iff.mp h
  dsimp only at h
  split at h
  · rw [← Option.some.inj h]
    exact (keyed_value _).1 _ _ _ hx
  · cases h

/-- Parsed values that are equal have one compact text. -/
theorem pyDumpsCompactSortedAscii_congr {v w : Value} (h : Same v w) (hv : Keyed v) (hw : Keyed w) :
    pyDumpsCompactSortedAscii v = pyDumpsCompactSortedAscii w := by
  unfold pyDumpsCompactSortedAscii pyJsonCompact
  rw [encode_congr rfl v w h hv hw]

end PrReviewer.Model
