import PrReviewer.Js.Cut
import PrReviewer.Js.Group

/-!
# Stripped blocks and tags

`dropBlocks` and `dropTags` of `src/context/strip-source-text.ts`, and the replacements by a regular expression that they
stand for: every match becomes a space, the leftmost first and without overlap (`replaceEach`).

- A block opener is looked for from the cursor on, and its closer in the list of the closers of its name, from where the
  last search in that list has stopped. All before is in front of the bodies of the openers to come (`Ahead`).
- The classes `\p{L}` and `\p{N}` are a parameter: `isWord` is `[\p{L}\p{N}_]`.
-/

open Js List

namespace PrReviewer.Context

/-! ## Tags -/

/-- `LETTER_CLASS`. -/
def letterClass (c : Char) : List Char :=
  if c = 'i' then ['I', 'i', 'İ', 'ı'] else if c = 's' then ['S', 's', 'ſ'] else [c.toUpper, c]

/-- `TAG_NAMES`, by the classes of their letters. -/
def tagNames : List (List (List Char)) :=
  ["script", "style", "noscript", "svg", "head"].map fun name => name.toList.map letterClass

def sreLower (c : Char) : Char := if c = 'İ' then 'i' else c.toLower

def backrefKey (name : List Char) : List Char := name.map sreLower

/-- A text behind a name at its start. -/
def nameAt : List (List Char) → List Char → Option (List Char)
  | [], s => some s
  | _ :: _, [] => none
  | p :: ps, c :: s => if p.contains c then nameAt ps s else none

/-- The name of a tag at the start of a text and what is behind the tag. -/
def tagAt (start : List Char) (close : List Char → Option (List Char)) (s : List Char) : Option (List Char × List Char) :=
  if start.isPrefixOf s then
    tagNames.findSome? fun name => (nameAt name (s.drop start.length)).bind fun after =>
      (close after).map fun rest => ((s.drop start.length).take name.length, rest)
  else none

/-- `BLOCK_OPENER_RE` at the start of a text. -/
def openerAt (isWord : Char → Bool) : List Char → Option (List Char × List Char) :=
  tagAt ['<'] fun after => if after.head?.any isWord then none else some after

/-- `BLOCK_CLOSER_RE` at the start of a text. -/
def closerAt : List Char → Option (List Char × List Char) :=
  tagAt ['<', '/'] fun after => if after.head? = some '>' then some after.tail else none

/-! ## Scans -/

structure Closer where
  key : List Char
  index : Nat
  stop : Nat

/-- The matches of `BLOCK_CLOSER_RE` in a text that starts at `i`, behind the first `skip` characters. -/
def closersFrom (i : Nat) : Nat → List Char → List Closer
  | _, [] => []
  | skip + 1, _ :: s => closersFrom (i + 1) skip s
  | 0, c :: s =>
    match closerAt (c :: s) with
    | some (name, rest) =>
      ⟨backrefKey name, i, i + (s.length + 1 - rest.length)⟩ :: closersFrom (i + 1) (s.length - rest.length) s
    | none => closersFrom (i + 1) 0 s

/-- The first match of `BLOCK_OPENER_RE` in a text that starts at `i`: its index, its name and where the body starts. -/
def openerFrom (isWord : Char → Bool) (i : Nat) : List Char → Option (Nat × List Char × Nat)
  | [] => none
  | c :: s =>
    match openerAt isWord (c :: s) with
    | some (name, rest) => some (i, name, i + (s.length + 1 - rest.length))
    | none => openerFrom isWord (i + 1) s

/-- `text.slice(start, stop)`. -/
def slice (text : List Char) (start stop : Nat) : List Char := (text.drop start).take (stop - start)

/-- The loop of `dropBlocks`, of at most `fuel` turns. -/
def dropBlocksLoop (isWord : Char → Bool) (text : List Char) (closers : Map (List Char) (List Closer)) :
    Nat → Map (List Char) Nat → List Char → Nat → List Char
  | 0, _, out, cursor => out ++ text.drop cursor
  | fuel + 1, pointers, out, cursor =>
    match openerFrom isWord cursor (text.drop cursor) with
    | none => out ++ text.drop cursor
    | some (index, name, bodyStart) =>
      let key := backrefKey name
      let list := (closers.get? key).getD []
      let k := (pointers.get? key).getD 0
      let k := k + (list.drop k).findIdx (bodyStart ≤ ·.index)
      match list[k]? with
      | none =>
        dropBlocksLoop isWord text closers fuel (pointers.set key k) (out ++ slice text cursor (index + 1)) (index + 1)
      | some found =>
        dropBlocksLoop isWord text closers fuel (pointers.set key k) (out ++ (slice text cursor index ++ [' '])) found.stop

def dropBlocks (isWord : Char → Bool) (text : List Char) : List Char :=
  let closers := groupBy Closer.key (closersFrom 0 0 text)
  if closers.size = 0 then text else dropBlocksLoop isWord text closers (text.length + 1) .empty [] 0

/-- `text.indexOf(c, start)`. -/
def indexFrom (c : Char) (text : List Char) (start : Nat) : Option Nat :=
  ((text.drop start).findIdx? (· = c)).map (start + ·)

/-- The loop of `dropTags`, of at most `fuel` turns. -/
def dropTagsLoop (text : List Char) : Nat → List Char → Nat → List Char
  | 0, out, cursor => out ++ text.drop cursor
  | fuel + 1, out, cursor =>
    match indexFrom '<' text cursor with
    | none => out ++ text.drop cursor
    | some start =>
      match indexFrom '>' text (start + 1) with
      | none => out ++ text.drop cursor
      | some close =>
        if close = start + 1 then dropTagsLoop text fuel (out ++ slice text cursor (start + 1)) (start + 1)
        else dropTagsLoop text fuel (out ++ (slice text cursor start ++ [' '])) (close + 1)

def dropTags (text : List Char) : List Char := dropTagsLoop text (text.length + 1) [] 0

/-! ## The regular expressions -/

/-- `.*?</\1>`: what is behind the first closing tag of the name. -/
def lazyClose (key : List Char) : List Char → Option (List Char)
  | [] => none
  | c :: s =>
    match closerAt (c :: s) with
    | some (name, rest) => if backrefKey name = key then some rest else lazyClose key s
    | none => lazyClose key s

/-- `<(script|style|noscript|svg|head)\b.*?</\1>`: what is behind a match at the start of a text. -/
def blockAt (isWord : Char → Bool) (s : List Char) : Option (List Char) :=
  (openerAt isWord s).bind fun m => lazyClose (backrefKey m.1) m.2

/-- `<[^>]+>`: what is behind a match at the start of a text. -/
def anyTagAt : List Char → Option (List Char)
  | '<' :: s =>
    if s.takeWhile (· != '>') = [] ∨ '>' ∉ s then none else some (s.dropWhile (· != '>')).tail
  | _ => none

/-- Every match replaced by a space. The first `skip` characters belong to a match. -/
def replaceEach (matchAt : List Char → Option (List Char)) : Nat → List Char → List Char
  | _, [] => []
  | skip + 1, _ :: s => replaceEach matchAt skip s
  | 0, c :: s =>
    match matchAt (c :: s) with
    | some rest => ' ' :: replaceEach matchAt (s.length - rest.length) s
    | none => c :: replaceEach matchAt 0 s

/-! ## Replacing -/

section

variable {matchAt : List Char → Option (List Char)} {c : Char} {s rest : List Char}

theorem replaceEach_skip (n : Nat) : replaceEach matchAt n s = replaceEach matchAt 0 (s.drop n) := by
  induction n generalizing s with
  | zero => rfl
  | succ n ih =>
    cases s with
    | nil => simp [replaceEach]
    | cons c s => exact ih

theorem replaceEach_of_none (h : matchAt (c :: s) = none) :
    replaceEach matchAt 0 (c :: s) = c :: replaceEach matchAt 0 s := by
  rw [replaceEach, h]

theorem replaceEach_of_some (h : matchAt (c :: s) = some rest) (hrest : rest <:+ s) :
    replaceEach matchAt 0 (c :: s) = ' ' :: replaceEach matchAt 0 rest := by
  rw [replaceEach, h]
  dsimp only
  rw [replaceEach_skip, ← suffix_iff_eq_drop.mp hrest]

theorem replaceEach_of_nothing (h : ∀ t, t <:+ s → matchAt t = none) : replaceEach matchAt 0 s = s := by
  induction s with
  | nil => rfl
  | cons c s ih =>
    rw [replaceEach_of_none (h _ (suffix_refl _)), ih fun t ht => h t (ht.trans (suffix_cons c s))]

end

/-! ## Finding tags -/

variable {isWord : Char → Bool} {start name rest after s text key pre : List Char} {i b cursor index bodyStart skip : Nat}
  {close : List Char → Option (List Char)}

theorem nameAt_some {ps : List (List Char)} (h : nameAt ps s = some after) :
    s = s.take ps.length ++ after ∧ ∀ c ∈ s.take ps.length, ∃ p ∈ ps, c ∈ p := by
  induction ps generalizing s with
  | nil =>
    cases h
    exact ⟨rfl, by simp⟩
  | cons p ps ih =>
    cases s with
    | nil => cases h
    | cons c s =>
      rw [nameAt, Option.ite_none_right_eq_some] at h
      obtain ⟨hs, hmem⟩ := ih h.2
      refine ⟨by rw [length_cons, take_succ_cons, cons_append, ← hs], ?_⟩
      rw [length_cons, take_succ_cons, forall_mem_cons]
      exact ⟨⟨p, mem_cons_self, contains_iff_mem.mp h.1⟩, fun d hd =>
        (hmem d hd).imp fun q hq => ⟨mem_cons_of_mem _ hq.1, hq.2⟩⟩

/-- A tag, its name and what is behind it. -/
theorem tagAt_some (h : tagAt start close s = some (name, rest)) :
    ∃ after, s = start ++ (name ++ after) ∧ close after = some rest ∧ '<' ∉ name := by
  rw [tagAt, Option.ite_none_right_eq_some] at h
  obtain ⟨t, rfl⟩ := isPrefixOf_iff_prefix.mp h.1
  obtain ⟨classes, hclasses, hname⟩ := exists_of_findSome?_eq_some h.2
  rw [drop_left, Option.bind_eq_some_iff] at hname
  obtain ⟨after, hafter, hname⟩ := hname
  obtain ⟨rest', hrest, heq⟩ := Option.map_eq_some_iff.mp hname
  cases heq
  obtain ⟨ht, hmem⟩ := nameAt_some hafter
  refine ⟨after, by rw [← ht], hrest, fun hlt => ?_⟩
  obtain ⟨p, hp, hc⟩ := hmem _ hlt
  have hno : tagNames.all (fun name => name.all fun p => !p.contains '<') = true := by decide +kernel
  have := all_eq_true.mp (all_eq_true.mp hno classes hclasses) p hp
  simp [hc] at this

theorem openerAt_some (h : openerAt isWord s = some (name, rest)) : s = '<' :: (name ++ rest) := by
  obtain ⟨after, hs, hrest, -⟩ := tagAt_some h
  split at hrest
  · cases hrest
  · cases hrest
    exact hs

/-- A closing tag has one `<`, at its start. -/
theorem closerAt_some (h : closerAt s = some (name, rest)) : ∃ body, s = '<' :: (body ++ rest) ∧ '<' ∉ body := by
  obtain ⟨after, hs, hrest, hname⟩ := tagAt_some h
  rw [Option.ite_none_right_eq_some, Option.some.injEq] at hrest
  obtain ⟨hclose, rfl⟩ := hrest
  refine ⟨'/' :: (name ++ ['>']), ?_, ?_⟩
  · rw [hs]
    cases after with
    | nil => cases hclose
    | cons c after =>
      cases hclose
      simp
  · simp [hname]

theorem closerAt_of_ne {c : Char} (h : c ≠ '<') : closerAt (c :: s) = none := by
  cases hm : closerAt (c :: s) with
  | none => rfl
  | some m =>
    obtain ⟨body, hs, -⟩ := closerAt_some hm
    exact absurd (cons.inj hs).1 h

theorem lazyClose_of_none {c : Char} (h : closerAt (c :: s) = none) : lazyClose key (c :: s) = lazyClose key s := by
  rw [lazyClose, h]

/-- The closers of a name that are found in a text. -/
def closersOf (key text : List Char) : List Closer := groupOf Closer.key (closersFrom 0 0 text) key

theorem getD_groupBy (key text : List Char) :
    ((groupBy Closer.key (closersFrom 0 0 text)).get? key).getD [] = closersOf key text := by
  rw [get?_groupBy, closersOf]
  split
  · next h => simp [h]
  · rfl

theorem index_lt_stop {e : Closer} (h : e ∈ closersFrom i skip s) : e.index < e.stop := by
  induction s generalizing i skip with
  | nil => simp [closersFrom] at h
  | cons c s ih =>
    cases skip with
    | succ skip => exact ih h
    | zero =>
      rw [closersFrom] at h
      split at h
      · next name rest hm =>
        rcases mem_cons.mp h with rfl | h
        · obtain ⟨body, hs, -⟩ := closerAt_some hm
          have hlength := congrArg length hs
          simp only [length_cons, length_append] at hlength
          dsimp only
          omega
        · exact ih h
      · exact ih h

/-- The first closer of a name from a place on is that of the lazy match. -/
theorem find?_closersFrom (hs : s = text.drop i) (hskip : '<' ∉ s.take skip) :
    ((groupOf Closer.key (closersFrom i skip s) key).find? (b ≤ ·.index)).map (fun e => text.drop e.stop) =
      lazyClose key (text.drop (max b i)) := by
  induction s generalizing i skip with
  | nil =>
    have hnil : text.drop (max b i) = [] := drop_eq_nil_of_le (Nat.le_trans (drop_eq_nil_iff.mp hs.symm) (Nat.le_max_right b i))
    rw [hnil]
    rfl
  | cons c s ih =>
    have htail : s = text.drop (i + 1) := by rw [← drop_drop, ← hs, drop_succ_cons, drop_zero]
    -- a place with no closer is passed by both
    have hpass : closerAt (c :: s) = none → lazyClose key (text.drop (max b (i + 1))) = lazyClose key (text.drop (max b i)) := by
      intro hnone
      rcases Nat.lt_or_ge i b with hb | hb
      · rw [Nat.max_eq_left hb, Nat.max_eq_left (Nat.le_of_lt hb)]
      · rw [Nat.max_eq_right (Nat.le_succ_of_le hb), Nat.max_eq_right hb, ← hs, lazyClose_of_none hnone, htail]
    cases skip with
    | succ skip =>
      rw [take_succ_cons, mem_cons, not_or] at hskip
      rw [closersFrom, ih htail hskip.2, hpass (closerAt_of_ne (Ne.symm hskip.1))]
    | zero =>
      rw [closersFrom]
      cases hm : closerAt (c :: s) with
      | none =>
        dsimp only
        rw [ih htail (by simp), hpass hm]
      | some m =>
        obtain ⟨name, rest⟩ := m
        obtain ⟨body, hcut, hbody⟩ := closerAt_some hm
        obtain ⟨rfl, rfl⟩ := cons.inj hcut
        have hrest : rest = text.drop (i + (body.length + 1)) := by
          rw [← drop_drop, ← hs, drop_succ_cons, drop_left]
        have hih := @ih (i + 1) body.length htail (by rwa [take_left])
        have hlength : (body ++ rest).length - rest.length = body.length := by simp
        have hstop : i + ((body ++ rest).length + 1 - rest.length) = i + (body.length + 1) := by
          rw [length_append]
          omega
        dsimp only
        rw [hlength, hstop, groupOf, filter_cons]
        rcases Nat.lt_or_ge i b with hb | hb
        · rw [Nat.max_eq_left hb] at hih
          rw [Nat.max_eq_left (Nat.le_of_lt hb), ← hih]
          split
          · rw [find?_cons_of_neg (by simp [hb])]
            rfl
          · rfl
        · rw [Nat.max_eq_right (Nat.le_succ_of_le hb), ← htail] at hih
          rw [Nat.max_eq_right hb, ← hs, lazyClose, hm]
          dsimp only
          by_cases hkey : backrefKey name = key
          · rw [if_pos (by simp [hkey]), if_pos hkey, find?_cons_of_pos (by simp [hb]), Option.map_some, ← hrest]
          · rw [if_neg (by simp [hkey]), if_neg hkey]
            exact hih

theorem find?_closersOf (key text : List Char) (b : Nat) :
    ((closersOf key text).find? (b ≤ ·.index)).map (fun e => text.drop e.stop) = lazyClose key (text.drop b) := by
  rw [closersOf, find?_closersFrom (s := text) (i := 0) rfl (by simp), Nat.max_eq_left b.zero_le]

theorem slice_eq (h : text.drop cursor = pre ++ after) : slice text cursor (cursor + pre.length) = pre := by
  rw [slice, h, Nat.add_sub_cancel_left, take_left]

theorem slice_succ {c : Char} (h : text.drop cursor = pre ++ c :: after) :
    slice text cursor (cursor + pre.length + 1) = pre ++ [c] := by
  rw [slice, h, Nat.add_assoc, Nat.add_sub_cancel_left, take_length_add_append]
  rfl

/-! ## The blocks -/

theorem openerFrom_none (h : openerFrom isWord i s = none) : replaceEach (blockAt isWord) 0 s = s := by
  induction s generalizing i with
  | nil => rfl
  | cons c s ih =>
    rw [openerFrom] at h
    split at h
    · cases h
    · next hm =>
      have hblock : blockAt isWord (c :: s) = none := by rw [blockAt, hm, Option.bind_none]
      rw [replaceEach_of_none hblock, ih h]

/-- Up to the first opener nothing is replaced. -/
theorem openerFrom_some (h : openerFrom isWord i s = some (index, name, bodyStart)) :
    ∃ pre rest, s = pre ++ '<' :: (name ++ rest) ∧ index = i + pre.length ∧ bodyStart = index + (name.length + 1) ∧
      openerAt isWord ('<' :: (name ++ rest)) = some (name, rest) ∧
        replaceEach (blockAt isWord) 0 s = pre ++ replaceEach (blockAt isWord) 0 ('<' :: (name ++ rest)) := by
  induction s generalizing i with
  | nil => cases h
  | cons c s ih =>
    rw [openerFrom] at h
    split at h
    · next name' rest hm =>
      cases h
      have hs := openerAt_some hm
      obtain ⟨rfl, rfl⟩ := cons.inj hs
      refine ⟨[], rest, rfl, rfl, ?_, hm, rfl⟩
      rw [length_append]
      omega
    · next hm =>
      obtain ⟨pre, rest, rfl, hindex, hbody, hopen, hpre⟩ := ih h
      have hblock : blockAt isWord (c :: (pre ++ '<' :: (name ++ rest))) = none := by rw [blockAt, hm, Option.bind_none]
      refine ⟨c :: pre, rest, rfl, by rw [length_cons]; omega, hbody, hopen, ?_⟩
      rw [replaceEach_of_none hblock, hpre, cons_append]

/-- The search goes on where it has stopped, when all before is too early. -/
theorem search_from {es : List Closer} {k : Nat} (h : ∀ e ∈ es.take k, e.index < b) :
    (∀ e ∈ es.take (k + (es.drop k).findIdx (b ≤ ·.index)), e.index < b) ∧
      es[k + (es.drop k).findIdx (b ≤ ·.index)]? = es.find? (b ≤ ·.index) := by
  constructor
  · intro e he
    rw [take_add, mem_append] at he
    rcases he with he | he
    · exact h e he
    · obtain ⟨i, hi, rfl⟩ := mem_take_iff_getElem.mp he
      have hearly := not_of_lt_findIdx (Nat.lt_of_lt_of_le hi (Nat.min_le_left _ _))
      exact Nat.not_le.mp (of_decide_eq_false hearly)
  · have hnone : (es.take k).find? (b ≤ ·.index) = none :=
      find?_eq_none.mpr fun e he => by simpa using h e he
    conv_rhs => rw [← take_append_drop k es, find?_append, hnone, Option.none_or, find?_eq_getElem?_findIdx]
    exact getElem?_drop.symm

/-- In front of the pointers there are only closers in front of the bodies of the openers from the cursor on. -/
def Ahead (text : List Char) (pointers : Map (List Char) Nat) (cursor : Nat) : Prop :=
  ∀ key, ∀ e ∈ (closersOf key text).take ((pointers.get? key).getD 0), e.index < cursor + (key.length + 1)

theorem Ahead.set {pointers : Map (List Char) Nat} {next k : Nat} (h : Ahead text pointers cursor) (hle : cursor ≤ next)
    (hk : ∀ e ∈ (closersOf key text).take k, e.index < next + (key.length + 1)) :
    Ahead text (pointers.set key k) next := by
  intro key' e he
  rw [Map.get?_set] at he
  split at he
  · next heq =>
    subst heq
    exact hk e he
  · have := h key' e he
    omega

theorem dropBlocksLoop_eq {fuel : Nat} {pointers : Map (List Char) Nat} {out : List Char}
    (hfuel : text.length < fuel + cursor) (h : Ahead text pointers cursor) :
    dropBlocksLoop isWord text (groupBy Closer.key (closersFrom 0 0 text)) fuel pointers out cursor =
      out ++ replaceEach (blockAt isWord) 0 (text.drop cursor) := by
  induction fuel generalizing pointers out cursor with
  | zero =>
    rw [dropBlocksLoop, drop_eq_nil_of_le (by omega)]
    rfl
  | succ fuel ih =>
    rw [dropBlocksLoop]
    cases hopener : openerFrom isWord cursor (text.drop cursor) with
    | none =>
      dsimp only
      rw [openerFrom_none hopener]
    | some m =>
      obtain ⟨index, name, bodyStart⟩ := m
      obtain ⟨pre, rest, hcut, rfl, rfl, hopen, hpre⟩ := openerFrom_some hopener
      have hafter : text.drop (cursor + pre.length) = '<' :: (name ++ rest) := by rw [← drop_drop, hcut, drop_left]
      have hrest : text.drop (cursor + pre.length + (name.length + 1)) = rest := by
        rw [← drop_drop, hafter, drop_succ_cons, drop_left]
      have hlength : cursor + pre.length < text.length := by
        have := congrArg length hafter
        rw [length_drop, length_cons] at this
        omega
      have hkey : (backrefKey name).length = name.length := length_map _
      obtain ⟨hbefore, hat⟩ := @search_from (cursor + pre.length + (name.length + 1)) (closersOf (backrefKey name) text)
        ((pointers.get? (backrefKey name)).getD 0) fun e he => by
          have := h _ e he
          omega
      have hfound := find?_closersOf (backrefKey name) text (cursor + pre.length + (name.length + 1))
      rw [hrest, ← hat] at hfound
      have hblock : blockAt isWord ('<' :: (name ++ rest)) = lazyClose (backrefKey name) rest := by
        rw [blockAt, hopen, Option.bind_some]
      dsimp only
      rw [getD_groupBy, hpre]
      split
      · next hnone =>
        rw [hnone, Option.map_none] at hfound
        rw [ih (by omega) (h.set (by omega) fun e he => by have := hbefore e he; omega), ← drop_drop, hafter,
          replaceEach_of_none (hblock.trans hfound.symm), slice_succ hcut, append_assoc, append_assoc]
        rfl
      · next e hsome =>
        have hmem : e ∈ closersFrom 0 0 text := (mem_filter.mp (mem_of_getElem? hsome)).1
        have hindex : cursor + pre.length + (name.length + 1) ≤ e.index :=
          of_decide_eq_true (@find?_some _ (fun e : Closer => decide (_ ≤ e.index)) _ _ (hat.symm.trans hsome))
        have hstop := index_lt_stop hmem
        rw [hsome, Option.map_some] at hfound
        have hsuffix : text.drop e.stop <:+ name ++ rest := by
          have hle : cursor + pre.length + 1 ≤ e.stop := by omega
          have := drop_suffix_drop_left text hle
          rwa [← drop_drop, hafter, drop_succ_cons, drop_zero] at this
        rw [ih (by omega) (h.set (by omega) fun e he => by have := hbefore e he; omega),
          replaceEach_of_some (hblock.trans hfound.symm) hsuffix, slice_eq hcut, append_assoc, append_assoc]
        rfl

theorem dropBlocks_eq (isWord : Char → Bool) (text : List Char) :
    dropBlocks isWord text = replaceEach (blockAt isWord) 0 text := by
  rw [dropBlocks]
  split
  · next hsize =>
    -- without a closer no match ends
    have hnone (key : List Char) : closersOf key text = [] := by
      rw [← getD_groupBy, Map.get?, length_eq_zero_iff.mp hsize]
      rfl
    refine (replaceEach_of_nothing fun t ht => ?_).symm
    cases hopen : openerAt isWord t with
    | none => rw [blockAt, hopen, Option.bind_none]
    | some m =>
      have hm : m.2 <:+ text := by
        have hcut := openerAt_some hopen
        exact IsSuffix.trans ⟨'<' :: m.1, hcut.symm⟩ ht
      rw [blockAt, hopen, Option.bind_some, suffix_iff_eq_drop.mp hm, ← find?_closersOf, hnone]
      rfl
  · rw [dropBlocksLoop_eq (by omega) (fun key e he => by simp [Map.get?_empty] at he)]
    rfl

/-! ## The tags -/

theorem indexFrom_some {c : Char} {start index : Nat} (h : indexFrom c text start = some index) :
    ∃ pre after, text.drop start = pre ++ c :: after ∧ index = start + pre.length ∧ c ∉ pre := by
  obtain ⟨n, hn, rfl⟩ := Option.map_eq_some_iff.mp h
  obtain ⟨hlt, hc, hbefore⟩ := findIdx?_eq_some_iff_getElem.mp hn
  refine ⟨(text.drop start).take n, (text.drop start).drop (n + 1), ?_, ?_, fun hmem => ?_⟩
  · rw [← of_decide_eq_true hc, ← drop_eq_getElem_cons hlt, take_append_drop]
  · rw [length_take, Nat.min_eq_left (Nat.le_of_lt hlt)]
  · obtain ⟨j, hj, heq⟩ := mem_take_iff_getElem.mp hmem
    exact hbefore j (by omega) (decide_eq_true heq)

theorem indexFrom_none {c : Char} {start : Nat} (h : indexFrom c text start = none) : c ∉ text.drop start := by
  intro hmem
  have := findIdx?_eq_none_iff.mp (Option.map_eq_none_iff.mp h) c hmem
  simp at this

theorem anyTagAt_of_ne {c : Char} (h : c ≠ '<') : anyTagAt (c :: s) = none := by
  rw [anyTagAt]
  rintro _ heq
  exact h (cons.inj heq).1

theorem anyTagAt_of_not_mem (h : '>' ∉ s) : anyTagAt s = none := by
  cases s with
  | nil => rfl
  | cons c s =>
    by_cases hc : c = '<'
    · subst hc
      rw [anyTagAt, if_pos (.inr fun hs => h (mem_cons_of_mem _ hs))]
    · exact anyTagAt_of_ne hc

theorem replaceEach_outside {pre : List Char} (h : '<' ∉ pre) :
    replaceEach anyTagAt 0 (pre ++ s) = pre ++ replaceEach anyTagAt 0 s := by
  induction pre with
  | nil => rfl
  | cons c pre ih =>
    rw [mem_cons, not_or] at h
    rw [cons_append, replaceEach_of_none (anyTagAt_of_ne (Ne.symm h.1)), ih h.2, cons_append]

theorem dropTagsLoop_eq {fuel : Nat} {out : List Char} (hfuel : text.length < fuel + cursor) :
    dropTagsLoop text fuel out cursor = out ++ replaceEach anyTagAt 0 (text.drop cursor) := by
  induction fuel generalizing out cursor with
  | zero =>
    rw [dropTagsLoop, drop_eq_nil_of_le (by omega)]
    rfl
  | succ fuel ih =>
    rw [dropTagsLoop]
    cases hopen : indexFrom '<' text cursor with
    | none =>
      have h := @replaceEach_outside [] _ (indexFrom_none hopen)
      rw [append_nil] at h
      dsimp only
      rw [h, replaceEach, append_nil]
    | some start =>
      obtain ⟨pre, after, hcut, rfl, hpre⟩ := indexFrom_some hopen
      have hafter : text.drop (cursor + pre.length + 1) = after := by
        rw [Nat.add_assoc, ← drop_drop, hcut, ← drop_drop, drop_left, drop_one, tail_cons]
      have hlength : cursor + pre.length < text.length := by
        have := congrArg length hcut
        rw [length_drop, length_append, length_cons] at this
        omega
      dsimp only
      rw [hcut, replaceEach_outside hpre]
      cases hclose : indexFrom '>' text (cursor + pre.length + 1) with
      | none =>
        have hno := indexFrom_none hclose
        rw [hafter] at hno
        dsimp only
        rw [replaceEach_of_nothing fun t ht => anyTagAt_of_not_mem fun hmem => ?_]
        rcases mem_cons.mp (ht.mem hmem) with heq | hmem
        · cases heq
        · exact hno hmem
      | some close =>
        obtain ⟨inner, rest, hcut', rfl, hinner⟩ := indexFrom_some hclose
        rw [hafter] at hcut'
        subst hcut'
        have hrest : text.drop (cursor + pre.length + 1 + inner.length + 1) = rest := by
          rw [← drop_drop, ← drop_drop, hafter, drop_left, drop_one, tail_cons]
        dsimp only
        split
        · next hempty =>
          obtain rfl : inner = [] := length_eq_zero_iff.mp (by omega)
          rw [ih (by omega), hafter, replaceEach_of_none (by rw [anyTagAt, if_pos (.inl (takeWhile_ne_append hinner rest))]), slice_succ hcut,
            append_assoc, append_assoc]
          rfl
        · next hne =>
          have hinner' : inner ≠ [] := fun hnil => hne (by simp [hnil])
          have hat : anyTagAt ('<' :: (inner ++ '>' :: rest)) = some rest := by
            rw [anyTagAt, takeWhile_ne_append hinner, dropWhile_ne_append hinner, if_neg (by simp [hinner']), tail_cons]
          rw [ih (by omega), hrest, replaceEach_of_some hat ⟨inner ++ ['>'], by simp⟩, slice_eq hcut, append_assoc,
            append_assoc]
          rfl

/-- The scans are the replacements they stand for. -/
theorem scans_eq_replaceEach : (∀ (isWord : Char → Bool) (text : List Char),
      dropBlocks isWord text = replaceEach (blockAt isWord) 0 text) ∧
    ∀ text, dropTags text = replaceEach anyTagAt 0 text :=
  ⟨dropBlocks_eq, fun text => dropTagsLoop_eq (by omega)⟩

end PrReviewer.Context
