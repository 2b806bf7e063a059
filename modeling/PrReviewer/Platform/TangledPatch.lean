import PrReviewer.Js.Bytes

/-!
# Quoted paths

`decodeQuotedPath` of `src/platform/tangled-patch.ts`, which reads the C-style quotation of a path in a patch, and
what it is to read: `Quotes`, with git's own quotation `quotePath` as the case in point. The decoder is its inverse
where a path does not begin with a byte order mark, which the decoding of UTF-8 drops. It reads more than quotations:
octal escapes of one or two digits, and of numbers above 255, of which it keeps the low byte.

- A text begins at the quote that `from` points at, and what is behind the closing quote stands for `end`.
-/

open Js List

namespace PrReviewer.Platform

structure TangledPatchError where
  kind : String
  message : String
  deriving DecidableEq

def malformedPatch (message : String) : TangledPatchError := ⟨"malformed-patch", message⟩

def unterminated : TangledPatchError := malformedPatch "unparseable path quoting: unterminated quoted path"

/-! ## The decoder -/

/-- The escapes that stand for a byte. -/
def namedEscapes : List (Char × UInt8) :=
  [('n', 0x0a), ('t', 0x09), ('r', 0x0d), ('a', 0x07), ('b', 0x08), ('v', 0x0b), ('f', 0x0c), ('"', 0x22), ('\\', 0x5c)]

def isOctal (c : Char) : Bool := '0' ≤ c && c ≤ '7'

/-- The digits of an octal escape, three at most. -/
def octalDigits (cs : List Char) : List Char := (cs.take 3).takeWhile isOctal

/-- `parseInt(octal, 8)`. -/
def octalValue (digits : List Char) : Nat := Nat.ofDigitChars 8 digits 0

def push (bytes : List Nat) (read : Except TangledPatchError (List Nat × List Char)) :
    Except TangledPatchError (List Nat × List Char) :=
  read.map fun r => (bytes ++ r.1, r.2)

/-- The bytes up to the closing quote. The first `skip` characters belong to an escape that has been read. -/
def pathBytes : Nat → List Char → Except TangledPatchError (List Nat × List Char)
  | _, [] => .error unterminated
  | skip + 1, _ :: cs => pathBytes skip cs
  | 0, c :: cs =>
    if c = '"' then .ok ([], cs)
    else if c ≠ '\\' then push ((String.utf8EncodeChar c).map UInt8.toNat) (pathBytes 0 cs)
    else
      match cs.head? with
      | none => .error unterminated
      | some n =>
        match namedEscapes.lookup n with
        | some b => push [b.toNat] (pathBytes 1 cs)
        | none =>
          if isOctal n then push [octalValue (octalDigits cs)] (pathBytes (octalDigits cs).length cs)
          else .error (malformedPatch ("unparseable path quoting: unknown escape \\" ++ n.toString))

/-- The byte order mark. -/
def bom : Bytes := [0xef, 0xbb, 0xbf]

/-- `new TextDecoder("utf-8", { fatal: true }).decode(bytes)`. -/
def decodeFatal (bytes : Bytes) : Option String :=
  ((if bom <+: bytes then bytes.drop 3 else bytes).toByteArray.utf8Decode?).map fun cs => String.ofList cs.toList

def decodeQuotedPath (s : List Char) : Except TangledPatchError (String × List Char) :=
  match s with
  | '"' :: cs =>
    match pathBytes 0 cs with
    | .error e => .error e
    | .ok (bytes, rest) =>
      match decodeFatal (bytes.map UInt8.ofNat) with
      | some value => .ok (value, rest)
      | none => .error (malformedPatch "unparseable path quoting: decoded path bytes are not valid UTF-8")
  | _ => .error (malformedPatch "unparseable path quoting (missing open quote)")

/-! ## Quotations -/

/-- Behind an open quote, `form` is a quotation of the bytes up to its closing quote, and then there is `rest`. -/
inductive Quotes (rest : List Char) : List Char → Bytes → Prop
  | close : Quotes rest ('"' :: rest) []
  | raw {c : Char} {form : List Char} {bytes : Bytes} (hquote : c ≠ '"') (hescape : c ≠ '\\')
    (h : Quotes rest form bytes) : Quotes rest (c :: form) (String.utf8EncodeChar c ++ bytes)
  | named {n : Char} {b : UInt8} {form : List Char} {bytes : Bytes} (hname : namedEscapes.lookup n = some b)
    (h : Quotes rest form bytes) : Quotes rest ('\\' :: n :: form) (b :: bytes)
  | octal {d₁ d₂ d₃ : Char} {form : List Char} {bytes : Bytes} (hdigits : [d₁, d₂, d₃].all isOctal = true)
    (hbyte : octalValue [d₁, d₂, d₃] ≤ 255) (h : Quotes rest form bytes) :
    Quotes rest ('\\' :: d₁ :: d₂ :: d₃ :: form) (UInt8.ofNat (octalValue [d₁, d₂, d₃]) :: bytes)

/-- The three octal digits of a byte. -/
def octalOf (b : UInt8) : List Char :=
  [Nat.digitChar (b.toNat / 64), Nat.digitChar (b.toNat / 8 % 8), Nat.digitChar (b.toNat % 8)]

def quoteByte (b : UInt8) : List Char :=
  match namedEscapes.find? (·.2 = b) with
  | some e => ['\\', e.1]
  | none => if 0x20 ≤ b ∧ b < 0x7f then [Char.ofNat b.toNat] else '\\' :: octalOf b

/-- git's quotation of a path, up to and with the closing quote. -/
def quotePath (path : String) : List Char := (utf8 path).flatMap quoteByte ++ ['"']

/-- Every octal escape up to the closing quote has three digits and is that of a byte. -/
def bytesOnly : Nat → List Char → Bool
  | _, [] => true
  | skip + 1, _ :: cs => bytesOnly skip cs
  | 0, c :: cs =>
    if c = '"' then true
    else if c ≠ '\\' then bytesOnly 0 cs
    else
      match cs.head?.bind fun n => namedEscapes.lookup n with
      | some _ => bytesOnly 1 cs
      | none =>
        (octalDigits cs).length = 3 && octalValue (octalDigits cs) ≤ 255 && bytesOnly (octalDigits cs).length cs

/-! ## Reading a quotation -/

variable {c n d₁ d₂ d₃ : Char} {b : UInt8} {cs form rest : List Char} {bytes bytes' : Bytes} {read : List Nat}
  {skip : Nat} {path value : String}

theorem lookup_of_isOctal (h : isOctal c = true) : namedEscapes.lookup c = none := by
  refine List.lookup_eq_none_iff.mpr fun p hp => ?_
  have hnone := List.all_eq_true.mp (show namedEscapes.all (fun p => !isOctal p.1) = true by decide) p hp
  rw [bne_iff_ne]
  rintro rfl
  rw [h] at hnone
  cases hnone

theorem octalDigits_three (h : [d₁, d₂, d₃].all isOctal = true) : octalDigits (d₁ :: d₂ :: d₃ :: cs) = [d₁, d₂, d₃] := by
  simp only [List.all_cons, Bool.and_eq_true] at h
  simp [octalDigits, h.1, h.2.1, h.2.2.1]

theorem exists_of_octalDigits (h : (octalDigits cs).length = 3) :
    ∃ d₁ d₂ d₃ form, cs = d₁ :: d₂ :: d₃ :: form ∧ [d₁, d₂, d₃].all isOctal = true := by
  have htake : octalDigits cs = cs.take 3 :=
    (List.takeWhile_prefix isOctal).eq_of_length_le (by rw [List.length_take, ← octalDigits, h]; omega)
  have hall : (cs.take 3).all isOctal = true := by
    rw [← htake]
    exact List.all_takeWhile
  rw [htake] at h
  rcases cs with _ | ⟨d₁, _ | ⟨d₂, _ | ⟨d₃, form⟩⟩⟩
  · cases h
  · cases h
  · cases h
  · exact ⟨d₁, d₂, d₃, form, rfl, hall⟩

theorem pathBytes_raw (hquote : c ≠ '"') (hescape : c ≠ '\\') :
    pathBytes 0 (c :: cs) = push ((String.utf8EncodeChar c).map UInt8.toNat) (pathBytes 0 cs) := by
  rw [pathBytes, if_neg hquote, if_pos hescape]

theorem pathBytes_named (h : namedEscapes.lookup n = some b) :
    pathBytes 0 ('\\' :: n :: cs) = push [b.toNat] (pathBytes 0 cs) := by
  rw [pathBytes, if_neg (by decide), if_neg (by simp), List.head?_cons]
  dsimp only
  rw [h]
  rfl

theorem pathBytes_octal (h : [d₁, d₂, d₃].all isOctal = true) :
    pathBytes 0 ('\\' :: d₁ :: d₂ :: d₃ :: cs) = push [octalValue [d₁, d₂, d₃]] (pathBytes 0 cs) := by
  have hd : isOctal d₁ = true := by
    simp only [all_cons, Bool.and_eq_true] at h
    exact h.1
  rw [pathBytes, if_neg (by decide), if_neg (by simp), List.head?_cons]
  dsimp only
  rw [lookup_of_isOctal hd, octalDigits_three h]
  dsimp only
  rw [if_pos hd]
  rfl

/-- A quotation is read as its bytes. -/
theorem pathBytes_of_quotes (h : Quotes rest form bytes) :
    pathBytes 0 form = .ok (bytes.map UInt8.toNat, rest) := by
  induction h with
  | close => rfl
  | raw hquote hescape _ ih =>
    rw [pathBytes_raw hquote hescape, ih, map_append]
    rfl
  | named hname _ ih =>
    rw [pathBytes_named hname, ih]
    rfl
  | octal hdigits hbyte _ ih =>
    rw [pathBytes_octal hdigits, ih, map_cons, UInt8.toNat_ofNat', Nat.mod_eq_of_lt (by omega)]
    rfl

theorem bytesOnly_of_quotes (h : Quotes rest form bytes) : bytesOnly 0 form = true := by
  induction h with
  | close => rfl
  | raw hquote hescape _ ih => rwa [bytesOnly, if_neg hquote, if_pos hescape]
  | named hname _ ih =>
    rw [bytesOnly, if_neg (by decide), if_neg (by simp), List.head?_cons, Option.bind_some, hname]
    exact ih
  | octal hdigits hbyte _ ih =>
    have hd := (all_eq_true.mp hdigits) _ mem_cons_self
    rw [bytesOnly, if_neg (by decide), if_neg (by simp), List.head?_cons, Option.bind_some, lookup_of_isOctal hd,
      octalDigits_three hdigits]
    dsimp only
    rw [Bool.and_eq_true, Bool.and_eq_true]
    exact ⟨⟨rfl, decide_eq_true hbyte⟩, ih⟩

theorem push_ok {pushed : List Nat} {r : Except TangledPatchError (List Nat × List Char)}
    (h : push pushed r = .ok (read, rest)) : ∃ behind, r = .ok (behind, rest) ∧ read = pushed ++ behind := by
  cases r with
  | error e => cases h
  | ok r =>
    cases h
    exact ⟨r.1, rfl, rfl⟩

/-- What is read is a quotation, where the octal escapes are those of bytes. -/
theorem quotes_of_pathBytes (h : pathBytes skip cs = .ok (read, rest)) (hb : bytesOnly skip cs = true) :
    Quotes rest (cs.drop skip) (read.map UInt8.ofNat) := by
  induction cs generalizing skip read with
  | nil => cases h
  | cons c cs ih =>
    cases skip with
    | succ skip => exact ih h hb
    | zero =>
      rw [pathBytes] at h
      rw [bytesOnly] at hb
      split_ifs at h hb with hquote hescape
      · cases h
        rw [hquote]
        exact .close
      · obtain ⟨behind, hbehind, rfl⟩ := push_ok h
        rw [map_append, map_map]
        have hid : (UInt8.ofNat ∘ UInt8.toNat : UInt8 → UInt8) = id := funext fun b => UInt8.ofNat_toNat
        rw [hid, map_id]
        exact .raw hquote hescape (ih hbehind hb)
      · obtain rfl := not_not.mp hescape
        cases cs with
        | nil => cases h
        | cons n cs =>
          rw [List.head?_cons] at h hb
          dsimp only at h
          rw [Option.bind_some] at hb
          cases hn : namedEscapes.lookup n with
          | some b =>
            rw [hn] at h hb
            obtain ⟨behind, hbehind, rfl⟩ := push_ok h
            rw [map_append, map_singleton, UInt8.ofNat_toNat]
            exact .named hn (ih hbehind hb)
          | none =>
            rw [hn] at h hb
            dsimp only at h hb
            rw [Bool.and_eq_true, Bool.and_eq_true, decide_eq_true_eq, decide_eq_true_eq] at hb
            obtain ⟨⟨hthree, hbyte⟩, hb⟩ := hb
            split_ifs at h with hoctal
            obtain ⟨behind, hbehind, rfl⟩ := push_ok h
            obtain ⟨d₁, d₂, d₃, form, hform, hall⟩ := exists_of_octalDigits hthree
            have hquotes := ih hbehind hb
            rw [hform, octalDigits_three hall] at hquotes hbyte ⊢
            exact .octal hall hbyte hquotes

/-! ## The decoded path -/

/-- The bytes without the mark that the decoding drops. -/
def unmarked (bytes : Bytes) : Bytes := if bom <+: bytes then bytes.drop 3 else bytes

theorem unmarked_eq_iff : unmarked bytes = bytes ↔ ¬ bom <+: bytes := by
  unfold unmarked
  split
  · next h =>
    refine iff_of_false (fun heq => ?_) (not_not.mpr h)
    have hlength := congrArg List.length heq
    have := h.length_le
    rw [length_drop] at hlength
    simp only [bom, length_cons, length_nil] at this
    omega
  · next h => exact iff_of_true rfl h

/-- What is decoded has the bytes for its encoding. -/
theorem decodeFatal_eq_some_iff : decodeFatal bytes = some value ↔ utf8 value = unmarked bytes := by
  rw [decodeFatal, ← unmarked, Option.map_eq_some_iff]
  constructor
  · rintro ⟨cs, hcs, rfl⟩
    obtain ⟨m, hm⟩ := ByteArray.isSome_utf8Decode?_iff.mp (Option.isSome_of_eq_some hcs)
    rw [hm, List.utf8Decode?_utf8Encode, Option.some.injEq] at hcs
    have hbytes := congrArg (·.data.toList) hm
    rw [List.utf8Encode, toList_data_toByteArray, toList_data_toByteArray] at hbytes
    rw [← hcs, utf8, String.toList_ofList, hbytes]
  · intro h
    refine ⟨value.toList.toArray, ?_, by simp⟩
    rw [← h]
    exact List.utf8Decode?_utf8Encode

/-- A quotation is decoded as the path of its bytes. -/
theorem decodeQuotedPath_of_quotes (h : Quotes rest form bytes) :
    decodeQuotedPath ('"' :: form) = .ok (path, rest) ↔ utf8 path = unmarked bytes := by
  have hid : (UInt8.ofNat ∘ UInt8.toNat : UInt8 → UInt8) = id := funext fun b => UInt8.ofNat_toNat
  rw [← decodeFatal_eq_some_iff, decodeQuotedPath, pathBytes_of_quotes h]
  dsimp only
  rw [List.map_map, hid, List.map_id]
  cases decodeFatal bytes with
  | none => simp
  | some value => simp

/-- How a byte is read back: by its own escape, as a character or by its octal escape. -/
def readsBack (b : UInt8) : Bool :=
  (match namedEscapes.find? (·.2 = b) with
  | some e => namedEscapes.lookup e.1 == some b
  | none => !(0x20 ≤ b && b < 0x7f) || (Char.ofNat b.toNat != '"' && Char.ofNat b.toNat != '\\' &&
      String.utf8EncodeChar (Char.ofNat b.toNat) == [b])) &&
    (octalOf b).all isOctal && octalValue (octalOf b) == b.toNat

theorem readsBack_byte (b : UInt8) : readsBack b = true := by
  have hall : (List.range 256).all (fun n => readsBack (UInt8.ofNat n)) = true := by decide +kernel
  have h := all_eq_true.mp hall b.toNat (mem_range.mpr b.toNat_lt)
  rwa [UInt8.ofNat_toNat] at h

theorem Quotes.cons (b : UInt8) (h : Quotes rest form bytes) : Quotes rest (quoteByte b ++ form) (b :: bytes) := by
  have hb := readsBack_byte b
  rw [readsBack, Bool.and_eq_true, Bool.and_eq_true, beq_iff_eq] at hb
  rw [quoteByte]
  cases hfind : namedEscapes.find? (·.2 = b) with
  | some e =>
    rw [hfind] at hb
    exact .named (eq_of_beq hb.1.1) h
  | none =>
    rw [hfind] at hb
    dsimp only at hb ⊢
    split
    · next hprint =>
      simp only [hprint, decide_true, Bool.and_true, Bool.not_true, Bool.false_or, Bool.and_eq_true, bne_iff_ne,
        beq_iff_eq] at hb
      have hraw := Quotes.raw hb.1.1.1.1 hb.1.1.1.2 h
      rwa [hb.1.1.2] at hraw
    · have hlt := b.toNat_lt
      have hoctal := Quotes.octal hb.1.2 (hb.2.le.trans (by omega)) h
      rwa [← octalOf, hb.2, UInt8.ofNat_toNat] at hoctal

theorem quotes_quotePath (path : String) (rest : List Char) : Quotes rest (quotePath path ++ rest) (utf8 path) := by
  rw [quotePath, append_assoc]
  induction utf8 path with
  | nil => exact .close
  | cons b bytes ih =>
    rw [flatMap_cons, append_assoc]
    exact .cons b ih

/-- The decoder undoes git's quotation of exactly the paths without a byte order mark in front, and what it accepts is a
quotation of what it returns where every octal escape has three digits and is that of a byte, and there is no such mark. -/
theorem quotedPath_iff (path : String) (text rest : List Char) (value : String) :
    (decodeQuotedPath ('"' :: (quotePath path ++ rest)) = .ok (path, rest) ↔ ¬ bom <+: utf8 path) ∧
    (decodeQuotedPath text = .ok (value, rest) →
      (Quotes rest text.tail (utf8 value) ↔
        bytesOnly 0 text.tail = true ∧ ∀ bytes, Quotes rest text.tail bytes → ¬ bom <+: bytes)) := by
  refine ⟨?_, fun hread => ?_⟩
  · rw [decodeQuotedPath_of_quotes (quotes_quotePath path rest), eq_comm, unmarked_eq_iff]
  · cases text with
    | nil => cases hread
    | cons c form =>
      have hopen : c = '"' := by
        by_contra hne
        rw [decodeQuotedPath] at hread
        · cases hread
        · intro cs heq
          exact hne (List.cons.inj heq).1
      subst hopen
      refine ⟨fun h => ⟨bytesOnly_of_quotes h, fun bytes hb => ?_⟩, fun ⟨hbytes, hmark⟩ => ?_⟩
      · -- a text is a quotation of one row of bytes
        have hsame := (pathBytes_of_quotes h).symm.trans (pathBytes_of_quotes hb)
        rw [Except.ok.injEq, Prod.mk.injEq] at hsame
        have heq := (map_injective_iff.mpr fun a b => UInt8.toNat_inj.mp) hsame.1
        rw [← heq, ← unmarked_eq_iff]
        exact ((decodeQuotedPath_of_quotes h).mp hread).symm
      · cases hpath : pathBytes 0 form with
        | error e =>
          rw [decodeQuotedPath, hpath] at hread
          cases hread
        | ok r =>
          have hrest : r.2 = rest := by
            rw [decodeQuotedPath, hpath] at hread
            dsimp only at hread
            split at hread
            · cases hread
              rfl
            · cases hread
          have hquotes := quotes_of_pathBytes hpath hbytes
          rw [hrest] at hquotes
          have hvalue := (decodeQuotedPath_of_quotes hquotes).mp hread
          rw [unmarked_eq_iff.mpr (hmark _ hquotes)] at hvalue
          rw [hvalue]
          exact hquotes

/-- An octal escape above 255 is read as the byte NUL. -/
theorem octal_folded : decodeQuotedPath ['"', '\\', '4', '0', '0', '"'] = .ok ("\x00", []) ∧
    ¬ ∃ bytes, Quotes [] ['\\', '4', '0', '0', '"'] bytes := by
  refine ⟨by decide +kernel, ?_⟩
  rintro ⟨bytes, h⟩
  exact absurd (bytesOnly_of_quotes h) (by decide +kernel)

end PrReviewer.Platform
