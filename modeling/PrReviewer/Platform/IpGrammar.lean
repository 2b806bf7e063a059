import PrReviewer.Js.Cut
import PrReviewer.Js.Digits
import PrReviewer.Js.Join
import PrReviewer.Platform.IpPolicy

/-!
# The grammars of IP literals

What a dotted quad (`DottedQuad`) and an IPv6 text (`Ipv6Text`) denote, and that the parsers accept exactly these and
return what is denoted (`parseIPv4_iff`, `parseIPv6_iff`).

- A text of groups is a join at `:`, so its groups are what `splitOn` gives; `::` is where a split at `:` has an empty
  part between others.
- An embedded IPv4 address is parsed as the two groups that it denotes. The last two parts of the rewritten text are
  those, so the groups before them are groups of the text itself (`expand_embedded`).
-/

open Js List

namespace PrReviewer.Platform

/-! ## The grammars -/

/-- Four decimal numbers below 256, without zeros in front. -/
inductive DottedQuad : List Char → Nat → Prop
  | mk {a b c d : Nat} (ha : a < 256) (hb : b < 256) (hc : c < 256) (hd : d < 256) :
    DottedQuad (join '.' [Nat.toDigits 10 a, Nat.toDigits 10 b, Nat.toDigits 10 c, Nat.toDigits 10 d])
      (((a * 256 + b) * 256 + c) * 256 + d)

/-- Groups of hexadecimal digits; the last two may be written as a dotted quad. -/
inductive Ipv6Groups : List Char → List Nat → Prop
  | plain {gs : List (List Char)} (h : ∀ g ∈ gs, isGroup g = true) : Ipv6Groups (join ':' gs) (gs.map hexNumber)
  | embedded {gs : List (List Char)} {quad : List Char} {v : Nat} (h : ∀ g ∈ gs, isGroup g = true)
    (hquad : DottedQuad quad v) :
    Ipv6Groups (join ':' (gs ++ [quad])) (gs.map hexNumber ++ [v / 0x10000, v % 0x10000])

/-- The number of 16-bit groups. -/
def groupsValue (ns : List Nat) : Nat := ns.foldl (fun acc n => acc * 0x10000 + n) 0

/-- Eight groups, or fewer with `::` in place of at least one group of zeros. -/
inductive Ipv6Address : List Char → Nat → Prop
  | full {cs : List Char} {ns : List Nat} (h : Ipv6Groups cs ns) (hlength : ns.length = 8) :
    Ipv6Address cs (groupsValue ns)
  | compressed {gs : List (List Char)} {cs : List Char} {ns : List Nat} (hgs : ∀ g ∈ gs, isGroup g = true)
    (h : Ipv6Groups cs ns) (hlength : gs.length + ns.length ≤ 7) :
    Ipv6Address (join ':' gs ++ ':' :: ':' :: cs)
      (groupsValue (gs.map hexNumber ++ List.replicate (8 - gs.length - ns.length) 0 ++ ns))

/-- An IPv6 address, with a zone that is not empty or without one. -/
inductive Ipv6Text : List Char → Nat → Prop
  | bare {cs : List Char} {v : Nat} (h : Ipv6Address cs v) : Ipv6Text cs v
  | zoned {cs zone : List Char} {v : Nat} (h : Ipv6Address cs v) (hne : zone ≠ []) (hzone : '%' ∉ zone) :
    Ipv6Text (cs ++ '%' :: zone) v

/-! ## Dotted quads -/

theorem decimal_eq (cs : List Char) : decimal cs = Nat.ofDigitChars 10 cs 0 := by
  unfold decimal Nat.ofDigitChars
  congr 1
  funext n c
  rw [Nat.mul_comm]

theorem isDigit_eq (c : Char) : Js.isDigit c = c.isDigit := rfl

variable {part g : List Char} {n : Nat}

/-- An octet is the text of a number below 256. -/
theorem isOctet_iff :
    (isOctetText part = true ∧ decimal part ≤ 255 ∧ decimal part = n) ↔ n < 256 ∧ part = Nat.toDigits 10 n := by
  constructor
  · rintro ⟨htext, hle, rfl⟩
    refine ⟨by omega, ?_⟩
    rw [isOctetText, Bool.or_eq_true, beq_iff_eq] at htext
    rcases htext with rfl | htext
    · rfl
    · rw [isPositiveDecimal, String.toList_ofList] at htext
      cases part with
      | nil => exact nomatch htext
      | cons c cs =>
        simp only [Bool.and_eq_true, decide_eq_true_eq, all_eq_true] at htext
        obtain ⟨⟨⟨hlow, hhigh⟩, -⟩, hdigits⟩ := htext
        have hne : c ≠ '0' := by
          rintro rfl
          exact absurd hlow (by decide)
        have hc : c.isDigit = true := by
          rw [← isDigit_eq, Js.isDigit, Bool.and_eq_true, decide_eq_true_eq, decide_eq_true_eq]
          exact ⟨Char.le_trans (by decide) hlow, hhigh⟩
        rw [decimal_eq, toDigits_ofDigitChars hne]
        exact forall_mem_cons.mpr ⟨hc, hdigits⟩
  · rintro ⟨hlt, rfl⟩
    have hoctet : ∀ m < 256, isOctetText (Nat.toDigits 10 m) = true := by decide +kernel
    have hvalue : decimal (Nat.toDigits 10 n) = n := by rw [decimal_eq, Nat.ofDigitChars_ten_toDigits]
    rw [hvalue]
    exact ⟨hoctet n hlt, by omega, rfl⟩

theorem dot_not_mem (n : Nat) : '.' ∉ Nat.toDigits 10 n := fun h =>
  absurd (Nat.isDigit_of_mem_toDigits (by decide) (by decide) h) (by decide)

/-- `parseIPv4` accepts the dotted quads, and returns what they denote. -/
theorem parseIPv4_iff {text : String} {v : Nat} : parseIPv4 text = some v ↔ DottedQuad text.toList v := by
  constructor
  · intro h
    rw [parseIPv4] at h
    split at h
    · next hparts =>
      obtain ⟨hlength, hall⟩ := hparts
      obtain ⟨a, b, c, d, hsplit⟩ := length_eq_four.mp hlength
      have htext : join '.' (text.toList.splitOn '.') = text.toList := join_splitOn _
      rw [hsplit] at hall h htext
      simp only [all_eq_true, Bool.and_eq_true, decide_eq_true_eq, forall_mem_cons] at hall
      obtain ⟨ha, hb, hc, hd, -⟩ := hall
      obtain ⟨ha, ha'⟩ := isOctet_iff.mp ⟨ha.1, ha.2, rfl⟩
      obtain ⟨hb, hb'⟩ := isOctet_iff.mp ⟨hb.1, hb.2, rfl⟩
      obtain ⟨hc, hc'⟩ := isOctet_iff.mp ⟨hc.1, hc.2, rfl⟩
      obtain ⟨hd, hd'⟩ := isOctet_iff.mp ⟨hd.1, hd.2, rfl⟩
      have hquad := DottedQuad.mk ha hb hc hd
      rw [← ha', ← hb', ← hc', ← hd', htext] at hquad
      simp only [foldl_cons, foldl_nil, Nat.zero_mul, Nat.zero_add, Option.some.injEq] at h
      rw [← h]
      exact hquad
    · cases h
  · intro h
    obtain ⟨cs, hcs⟩ : ∃ cs, cs = text.toList := ⟨_, rfl⟩
    rw [parseIPv4, ← hcs]
    rw [← hcs] at h
    cases h with
    | @mk a b c d ha hb hc hd =>
      have hsplit := @splitOn_join '.' [Nat.toDigits 10 a, Nat.toDigits 10 b, Nat.toDigits 10 c, Nat.toDigits 10 d]
        (by simp [dot_not_mem]) (by simp)
      have ha' := isOctet_iff.mpr ⟨ha, rfl⟩
      have hb' := isOctet_iff.mpr ⟨hb, rfl⟩
      have hc' := isOctet_iff.mpr ⟨hc, rfl⟩
      have hd' := isOctet_iff.mpr ⟨hd, rfl⟩
      rw [hsplit, if_pos]
      · simp [ha'.2.2, hb'.2.2, hc'.2.2, hd'.2.2]
      · simp [ha'.1, hb'.1, hc'.1, hd'.1, ha'.2.1, hb'.2.1, hc'.2.1, hd'.2.1]

/-! ## Groups -/

theorem length_group (h : isGroup g = true) : 1 ≤ g.length ∧ g.length ≤ 4 := by
  rw [isGroup, Bool.and_eq_true, Bool.and_eq_true, decide_eq_true_eq, decide_eq_true_eq] at h
  exact h.1

theorem hexValue_of_group (h : isGroup g = true) {c : Char} (hc : c ∈ g) :
    (Json.hexValue c).isSome = true := by
  rw [isGroup, Bool.and_eq_true] at h
  exact all_eq_true.mp h.2 c hc

theorem colon_not_mem (h : isGroup g = true) : ':' ∉ g := fun hc =>
  absurd (hexValue_of_group h hc) (by decide)

theorem group_ne_nil (h : isGroup g = true) : g ≠ [] :=
  ne_nil_of_length_pos (length_group h).1

theorem isGroup_toDigits (h : n < 0x10000) : isGroup (Nat.toDigits 16 n) = true := by
  have hlength : (Nat.toDigits 16 n).length ≤ 4 := (Nat.length_toDigits_le_iff (by decide) (by decide)).mpr h
  rw [isGroup, Bool.and_eq_true, Bool.and_eq_true, decide_eq_true_eq, decide_eq_true_eq]
  exact ⟨⟨Nat.length_toDigits_pos, hlength⟩, all_eq_true.mpr fun c hc => hexValue_of_mem hc⟩

theorem hexNumber_toDigits (n : Nat) : hexNumber (Nat.toDigits 16 n) = n := ofHexDigits_toDigits n

variable {gs : List (List Char)}

theorem join_groups_ne_nil (h : ∀ g ∈ gs, isGroup g = true) (hne : gs ≠ []) : join ':' gs ≠ [] := by
  obtain ⟨g, rest, rfl⟩ := exists_cons_of_ne_nil hne
  have hg := group_ne_nil (h g mem_cons_self)
  rcases eq_or_ne rest [] with rfl | hrest
  · simpa using hg
  · rw [join_cons g hrest]
    simp

theorem splitOn_groups (h : ∀ g ∈ gs, isGroup g = true) (hne : gs ≠ []) : (join ':' gs).splitOn ':' = gs :=
  splitOn_join (fun g hg => colon_not_mem (h g hg)) hne

/-- `groupsOf` accepts the joins of groups. -/
theorem groupsOf_iff : groupsOf part = some gs ↔ part = join ':' gs ∧ ∀ g ∈ gs, isGroup g = true := by
  unfold groupsOf
  split
  · next hempty =>
    subst hempty
    constructor
    · intro h
      cases h
      exact ⟨rfl, nofun⟩
    · rintro ⟨hjoin, hgs⟩
      by_cases hne : gs = []
      · rw [hne]
      · exact absurd hjoin.symm (join_groups_ne_nil hgs hne)
  · next hne =>
    dsimp only
    split
    · next hall =>
      rw [Option.some.injEq]
      constructor
      · rintro rfl
        exact ⟨(join_splitOn part).symm, all_eq_true.mp hall⟩
      · rintro ⟨rfl, hgs⟩
        exact splitOn_groups hgs fun hnil => hne (by rw [hnil, join_nil])
    · next hall =>
      refine ⟨nofun, ?_⟩
      rintro ⟨rfl, hgs⟩
      rw [splitOn_groups hgs fun hnil => hne (by rw [hnil, join_nil])] at hall
      exact absurd (all_eq_true.mpr hgs) hall

/-! ## The place of `::` -/

theorem splitDouble_ne_nil (cs : List Char) : splitDouble cs ≠ [] := by
  unfold splitDouble
  split
  · simp
  · split <;> simp
  · simp

theorem splitDouble_double (cs : List Char) : splitDouble (':' :: ':' :: cs) = [] :: splitDouble cs := by
  rw [splitDouble]

theorem splitDouble_cons {c : Char} {cs : List Char} (h : c = ':' → cs.head? ≠ some ':') :
    splitDouble (c :: cs) = (splitDouble cs).modifyHead (c :: ·) := by
  rw [splitDouble]
  · obtain ⟨part, parts, hparts⟩ := exists_cons_of_ne_nil (splitDouble_ne_nil cs)
    rw [hparts]
    rfl
  · rintro ds rfl rfl
    exact h rfl rfl

theorem splitDouble_append (h : ':' ∉ g) (cs : List Char) :
    splitDouble (g ++ cs) = (splitDouble cs).modifyHead (g ++ ·) := by
  induction g with
  | nil => 
    obtain ⟨part, parts, hparts⟩ := exists_cons_of_ne_nil (splitDouble_ne_nil cs)
    simp [hparts]
  | cons c g ih =>
    rw [mem_cons, not_or] at h
    rw [cons_append, splitDouble_cons fun hc => absurd hc.symm h.1, ih h.2]
    obtain ⟨part, parts, hparts⟩ := exists_cons_of_ne_nil (splitDouble_ne_nil cs)
    simp [hparts]

/-- Groups hold no `::`. -/
theorem splitDouble_groups (h : ∀ g ∈ gs, isGroup g = true) (cs : List Char) :
    splitDouble (join ':' gs ++ cs) = (splitDouble cs).modifyHead (join ':' gs ++ ·) := by
  induction gs with
  | nil => exact splitDouble_append not_mem_nil cs
  | cons g gs ih =>
    have hg := h g mem_cons_self
    have hgs := fun x hx => h x (mem_cons_of_mem _ hx)
    by_cases hne : gs = []
    · rw [hne, join_singleton]
      exact splitDouble_append (colon_not_mem hg) cs
    · rw [join_cons g hne, append_assoc, splitDouble_append (colon_not_mem hg), cons_append,
        splitDouble_cons, ih hgs]
      · obtain ⟨part, parts, hparts⟩ := exists_cons_of_ne_nil (splitDouble_ne_nil cs)
        simp [hparts]
      · intro _
        obtain ⟨g', rest, rfl⟩ := exists_cons_of_ne_nil hne
        have hg' := hgs g' mem_cons_self
        obtain ⟨c, tail, rfl⟩ := exists_cons_of_ne_nil (group_ne_nil hg')
        have hc : c ≠ ':' := fun heq => colon_not_mem hg' (heq ▸ mem_cons_self)
        rcases eq_or_ne rest [] with rfl | hrest
        · simpa using hc
        · rw [join_cons _ hrest]
          simpa using hc

/-- The parts, joined at `::`, are the text. -/
theorem intercalate_splitDouble (cs : List Char) : [':', ':'].intercalate (splitDouble cs) = cs := by
  fun_induction splitDouble cs with
  | case1 cs ih =>
    rw [intercalate_cons_of_ne_nil (splitDouble_ne_nil cs), ih]
    rfl
  | case2 c cs _ hnil => exact absurd hnil (splitDouble_ne_nil cs)
  | case3 c cs _ part parts hparts ih =>
    rw [hparts] at ih
    cases parts with
    | nil =>
      rw [← ih]
      simp
    | cons next rest =>
      rw [← ih]
      simp
  | case4 => rfl

/-! ## Addresses without a dotted quad -/

/-- An address of groups only, with the groups it stands for. -/
inductive PlainAddress : List Char → List (List Char) → Prop
  | full {gs : List (List Char)} (h : ∀ g ∈ gs, isGroup g = true) (hlength : gs.length = 8) :
    PlainAddress (join ':' gs) gs
  | compressed {left right : List (List Char)} (hleft : ∀ g ∈ left, isGroup g = true)
    (hright : ∀ g ∈ right, isGroup g = true) (hlength : left.length + right.length ≤ 7) :
    PlainAddress (join ':' left ++ ':' :: ':' :: join ':' right)
      (left ++ List.replicate (8 - left.length - right.length) ['0'] ++ right)

/-- The groups of an address without a dotted quad. -/
def plainGroups (addr : List Char) : Option (List (List Char)) :=
  match splitDouble addr with
  | [whole] => do
    let head ← groupsOf whole
    if head.length = 8 then some head else none
  | [left, right] => do
    let head ← groupsOf left
    let tail ← groupsOf right
    if head.length + tail.length ≤ 7 then
      some (head ++ List.replicate (8 - head.length - tail.length) ['0'] ++ tail)
    else none
  | _ => none

theorem plainGroups_iff {addr : List Char} : plainGroups addr = some gs ↔ PlainAddress addr gs := by
  constructor
  · intro h
    have hjoin := intercalate_splitDouble addr
    rw [plainGroups] at h
    split at h
    · next whole hsplit =>
      rw [hsplit, intercalate_singleton] at hjoin
      obtain ⟨head, hhead, h⟩ := Option.bind_eq_some_iff.mp h
      split at h
      · next hlength =>
        obtain ⟨hwhole, hgroups⟩ := groupsOf_iff.mp hhead
        cases h
        rw [← hjoin, hwhole]
        exact .full hgroups hlength
      · cases h
    · next left right hsplit =>
      rw [hsplit, intercalate_cons_cons, intercalate_singleton] at hjoin
      obtain ⟨head, hhead, h⟩ := Option.bind_eq_some_iff.mp h
      obtain ⟨tail, htail, h⟩ := Option.bind_eq_some_iff.mp h
      split at h
      · next hlength =>
        obtain ⟨hleft, hgroups⟩ := groupsOf_iff.mp hhead
        obtain ⟨hright, hgroups'⟩ := groupsOf_iff.mp htail
        cases h
        have haddr := PlainAddress.compressed hgroups hgroups' hlength
        rw [← hleft, ← hright] at haddr
        rw [← hjoin]
        simpa using haddr
      · cases h
    · cases h
  · intro h
    cases h with
    | full h hlength =>
      have hsplit := splitDouble_groups h []
      have hempty : splitDouble [] = [[]] := rfl
      rw [append_nil, hempty, modifyHead_cons, append_nil] at hsplit
      rw [plainGroups, hsplit]
      dsimp only
      rw [groupsOf_iff.mpr ⟨rfl, h⟩]
      exact if_pos hlength
    | @compressed left right hleft hright hlength =>
      have hsplit := splitDouble_groups hleft (':' :: ':' :: join ':' right)
      have hrest := splitDouble_groups hright []
      have hempty : splitDouble [] = [[]] := rfl
      rw [append_nil, hempty, modifyHead_cons, append_nil] at hrest
      rw [splitDouble_double, hrest, modifyHead_cons, append_nil] at hsplit
      rw [plainGroups, hsplit]
      dsimp only
      rw [groupsOf_iff.mpr ⟨rfl, hleft⟩, groupsOf_iff.mpr ⟨rfl, hright⟩]
      exact if_pos hlength

/-! ## Embedded addresses -/

section Embedded

variable {quad : List Char} {v : Nat}

theorem dottedQuad_lt (h : DottedQuad quad v) : v < 2 ^ 32 := by
  cases h
  omega

/-- The characters of an IPv6 address. -/
def isAddressChar (c : Char) : Bool := (Json.hexValue c).isSome || c == ':' || c == '.'

theorem mem_dottedQuad (h : DottedQuad quad v) :
    '.' ∈ quad ∧ ':' ∉ quad ∧ quad ≠ [] ∧ ∀ c ∈ quad, isAddressChar c = true := by
  cases h with
  | @mk a b c d =>
    have hdigit : ∀ n : Nat, ∀ x ∈ Nat.toDigits 10 n, isAddressChar x = true := by
      intro n x hx
      have hx' := Nat.isDigit_of_mem_toDigits (by decide) (by decide) hx
      have hvalue : (Json.hexValue x).isSome = true := by
        rw [← isDigit_eq, Js.isDigit, Bool.and_eq_true, decide_eq_true_eq, decide_eq_true_eq] at hx'
        rw [Json.hexValue, if_pos hx']
        rfl
      rw [isAddressChar, hvalue]
      rfl
    have hcolon : ∀ n : Nat, ':' ∉ Nat.toDigits 10 n := fun n h =>
      absurd (Nat.isDigit_of_mem_toDigits (by decide) (by decide) h) (by decide)
    have htext : join '.' [Nat.toDigits 10 a, Nat.toDigits 10 b, Nat.toDigits 10 c, Nat.toDigits 10 d] =
        Nat.toDigits 10 a ++ '.' :: (Nat.toDigits 10 b ++ '.' :: (Nat.toDigits 10 c ++ '.' :: Nat.toDigits 10 d)) := by
      rw [join_cons _ (by simp), join_cons _ (by simp), join_cons _ (by simp), join_singleton]
    rw [htext]
    refine ⟨by simp, by simp [hcolon], by simp, fun x hx => ?_⟩
    simp only [mem_append, mem_cons] at hx
    rcases hx with hx | rfl | hx | rfl | hx | rfl | hx
    · exact hdigit _ x hx
    · rfl
    · exact hdigit _ x hx
    · rfl
    · exact hdigit _ x hx
    · rfl
    · exact hdigit _ x hx

variable {front addr : List Char} {groups : List (List Char)}

/-- A dotted quad behind the last colon is replaced by the groups it denotes. -/
theorem embedded_append (hquad : ':' ∉ quad) (hdot : '.' ∈ front ++ ':' :: quad) :
    embedded (front ++ ':' :: quad) = (parseIPv4 (String.ofList quad)).map fun v4 =>
      front ++ ':' :: (Nat.toDigits 16 (v4 / 0x10000) ++ ':' :: Nat.toDigits 16 (v4 % 0x10000)) := by
  have hreverse : (front ++ ':' :: quad).reverse = quad.reverse ++ ':' :: front.reverse := by simp
  have hquad' : ':' ∉ quad.reverse := by simpa using hquad
  have hhead : (quad.reverse ++ ':' :: front.reverse).dropWhile (· != ':') = ':' :: front.reverse :=
    dropWhile_ne_append hquad' _
  rw [embedded, if_pos (contains_iff_mem.mpr hdot), hreverse, takeWhile_ne_append hquad', hhead,
    reverse_reverse, reverse_cons, reverse_reverse]
  dsimp only
  rw [if_neg (by simp)]
  simp

theorem embedded_of_not_mem (hcolon : ':' ∉ addr) (hdot : '.' ∈ addr) : embedded addr = none := by
  have hall : ∀ c ∈ addr.reverse, (c != ':') = true := by
    intro c hc
    rw [bne_iff_ne]
    rintro rfl
    exact hcolon (mem_reverse.mp hc)
  rw [embedded, if_pos (contains_iff_mem.mpr hdot), dropWhile_eq_nil_iff.mpr hall]
  rfl

theorem splitOn_colon_cons (cs : List Char) : (':' :: cs).splitOn ':' = [] :: cs.splitOn ':' :=
  splitOn_append_cons_self [] cs

/-- A plain address that ends with two given groups ends so before they replace a dotted quad. -/
theorem exists_groups {first second : List Char} (hfirst : isGroup first = true)
    (hsecond : isGroup second = true)
    (h : PlainAddress (front ++ ':' :: (first ++ ':' :: second)) groups) (quad : List Char) :
    (∃ gs, (∀ g ∈ gs, isGroup g = true) ∧ groups = gs ++ [first, second] ∧ groups.length = 8 ∧
        front ++ ':' :: quad = join ':' (gs ++ [quad])) ∨
      ∃ left gs, (∀ g ∈ left, isGroup g = true) ∧ (∀ g ∈ gs, isGroup g = true) ∧ left.length + gs.length ≤ 5 ∧
        groups = left ++ List.replicate (6 - left.length - gs.length) ['0'] ++ (gs ++ [first, second]) ∧
        front ++ ':' :: quad = join ':' left ++ ':' :: ':' :: join ':' (gs ++ [quad]) := by
  have hparts : (front ++ ':' :: (first ++ ':' :: second)).splitOn ':' = front.splitOn ':' ++ [first, second] := by
    rw [splitOn_append_cons_self, splitOn_append_cons_self,
      splitOn_eq_singleton (colon_not_mem hfirst), splitOn_eq_singleton (colon_not_mem hsecond)]
    rfl
  obtain ⟨addr, haddr⟩ : ∃ addr, addr = front ++ ':' :: (first ++ ':' :: second) := ⟨_, rfl⟩
  rw [← haddr] at h hparts
  cases h with
  | full h hlength =>
    rw [splitOn_groups h (by rintro rfl; cases hlength)] at hparts
    left
    refine ⟨front.splitOn ':', fun g hg => h g (by rw [hparts]; exact mem_append_left _ hg), hparts, hlength, ?_⟩
    rw [join_append (splitOn_ne_nil _ _) (by simp), join_splitOn, join_singleton]
  | @compressed left right hleft hright hlength =>
    right
    rw [splitOn_append_cons_self, splitOn_colon_cons] at hparts
    rcases eq_or_ne right [] with rfl | hne
    · rw [join_nil, splitOn_nil] at hparts
      have hlast : [[]] ++ [[]] = [first, second] := (append_inj' hparts rfl).2
      exact absurd (List.cons.inj hlast).1.symm (group_ne_nil hfirst)
    · rw [splitOn_groups hright hne] at hparts
      rcases eq_nil_or_concat' right with rfl | ⟨rest, last, rfl⟩
      · exact absurd rfl hne
      rcases eq_nil_or_concat' rest with rfl | ⟨gs, x, rfl⟩
      · have hlast : [[], last] = [first, second] := (append_inj' hparts rfl).2
        exact absurd (List.cons.inj hlast).1.symm (group_ne_nil hfirst)
      · have hsplit : ((join ':' left).splitOn ':' ++ [] :: gs) ++ [x, last] = front.splitOn ':' ++ [first, second] := by
          rw [← hparts]
          simp
        obtain ⟨hfront, hpair⟩ := append_inj' hsplit rfl
        obtain ⟨rfl, hpair'⟩ := List.cons.inj hpair
        obtain ⟨rfl, -⟩ := List.cons.inj hpair'
        rw [length_append, length_append, length_singleton, length_singleton] at hlength
        refine ⟨left, gs, hleft, fun g hg => hright g (by simp [hg]), by omega, ?_, ?_⟩
        · have hzeros : 8 - left.length - (gs ++ [x] ++ [last]).length = 6 - left.length - gs.length := by
            rw [length_append, length_append, length_singleton, length_singleton]
            omega
          rw [hzeros]
          simp
        · have htext : front ++ ':' :: quad = join ':' (front.splitOn ':' ++ [quad]) := by
            rw [join_append (splitOn_ne_nil _ _) (by simp), join_splitOn, join_singleton]
          rw [htext, ← hfront, append_assoc, join_append (splitOn_ne_nil _ _) (by simp), join_splitOn,
            cons_append, join_cons _ (by simp), nil_append]

/-- A zero group is written as `0`. -/
theorem map_hexNumber_zeros (n : Nat) : (List.replicate n ['0']).map hexNumber = List.replicate n 0 := by
  rw [map_replicate]
  rfl

theorem dot_not_mem_groups {gs : List (List Char)} (h : ∀ g ∈ gs, isGroup g = true) : '.' ∉ join ':' gs := by
  induction gs with
  | nil => exact not_mem_nil
  | cons g gs ih =>
    have hg : '.' ∉ g := fun hc => absurd (hexValue_of_group (h g mem_cons_self) hc) (by decide)
    rcases eq_or_ne gs [] with rfl | hne
    · simpa using hg
    · rw [join_cons g hne]
      simpa [hg] using ih fun x hx => h x (mem_cons_of_mem _ hx)

theorem dot_mem_embedded {gs : List (List Char)} (hquad : DottedQuad quad v) : '.' ∈ join ':' (gs ++ [quad]) := by
  have hdot := (mem_dottedQuad hquad).1
  rcases eq_or_ne gs [] with rfl | hne
  · simpa using hdot
  · rw [join_append hne (by simp)]
    simpa using .inr hdot

/-- An address without a dotted quad. -/
theorem plainAddress_iff (hdot : '.' ∉ addr) :
    (∃ groups, PlainAddress addr groups ∧ groupsValue (groups.map hexNumber) = v) ↔ Ipv6Address addr v := by
  constructor
  · rintro ⟨groups, h, rfl⟩
    cases h with
    | full h hlength => exact .full (.plain h) (by rw [length_map, hlength])
    | @compressed left right hleft hright hlength =>
      have haddr := Ipv6Address.compressed hleft (.plain hright) (by rw [length_map]; exact hlength)
      rw [length_map, ← map_hexNumber_zeros, ← map_append, ← map_append] at haddr
      exact haddr
  · intro h
    cases h with
    | full h hlength =>
      cases h with
      | plain h =>
        rw [length_map] at hlength
        exact ⟨_, .full h hlength, rfl⟩
      | embedded h hquad => exact absurd (dot_mem_embedded hquad) hdot
    | @compressed left cs ns hleft h hlength =>
      cases h with
      | @plain right h =>
        rw [length_map] at hlength
        refine ⟨_, .compressed hleft h hlength, ?_⟩
        rw [length_map, map_append, map_append, map_hexNumber_zeros]
      | embedded h hquad =>
        refine absurd ?_ hdot
        rw [mem_append, mem_cons, mem_cons]
        exact .inr (.inr (.inr (dot_mem_embedded hquad)))

/-- The groups of a dotted quad. -/
theorem isGroup_quad (hquad : DottedQuad quad v) :
    isGroup (Nat.toDigits 16 (v / 0x10000)) = true ∧ isGroup (Nat.toDigits 16 (v % 0x10000)) = true := by
  have hlt := dottedQuad_lt hquad
  exact ⟨isGroup_toDigits (by omega), isGroup_toDigits (by omega)⟩

theorem map_hexNumber_quad (gs : List (List Char)) (v : Nat) :
    (gs ++ [Nat.toDigits 16 (v / 0x10000), Nat.toDigits 16 (v % 0x10000)]).map hexNumber =
      gs.map hexNumber ++ [v / 0x10000, v % 0x10000] := by
  rw [map_append, map_cons, map_singleton, hexNumber_toDigits, hexNumber_toDigits]

/-- What stands before a last part. -/
theorem exists_front (left gs : List (List Char)) :
    ∃ front, ∀ {ts : List (List Char)}, ts ≠ [] →
      join ':' left ++ ':' :: ':' :: join ':' (gs ++ ts) = front ++ ':' :: join ':' ts := by
  rcases eq_or_ne gs [] with rfl | hne
  · exact ⟨join ':' left ++ [':'], fun _ => by simp⟩
  · exact ⟨join ':' left ++ ':' :: ':' :: join ':' gs, fun hts => by rw [join_append hne hts]; simp⟩

/-- Groups in place of a dotted quad. -/
theorem address_of_plain {w : Nat} (hquad : DottedQuad quad w)
    (h : PlainAddress (front ++ ':' :: (Nat.toDigits 16 (w / 0x10000) ++ ':' :: Nat.toDigits 16 (w % 0x10000)))
      groups) : Ipv6Address (front ++ ':' :: quad) (groupsValue (groups.map hexNumber)) := by
  obtain ⟨hfirst, hsecond⟩ := isGroup_quad hquad
  rcases exists_groups hfirst hsecond h quad with
    ⟨gs, hgs, rfl, hlength, htext⟩ | ⟨left, gs, hleft, hgs, hlength, rfl, htext⟩
  · rw [htext, map_hexNumber_quad]
    refine .full (.embedded hgs hquad) ?_
    rw [← map_hexNumber_quad, length_map, hlength]
  · have haddr := Ipv6Address.compressed hleft (.embedded hgs hquad)
      (by rw [length_append, length_map, length_cons, length_singleton]; omega)
    have hzeros : 8 - left.length - (gs.map hexNumber ++ [w / 0x10000, w % 0x10000]).length =
        6 - left.length - gs.length := by
      rw [length_append, length_map, length_cons, length_singleton]
      omega
    rw [hzeros] at haddr
    rw [htext, map_append, map_append, map_hexNumber_quad, map_hexNumber_zeros]
    exact haddr

theorem forall_groups_quad {gs : List (List Char)} (h : ∀ g ∈ gs, isGroup g = true) (hquad : DottedQuad quad v) :
    ∀ g ∈ gs ++ [Nat.toDigits 16 (v / 0x10000), Nat.toDigits 16 (v % 0x10000)], isGroup g = true := by
  obtain ⟨hfirst, hsecond⟩ := isGroup_quad hquad
  simpa [or_imp, forall_and] using ⟨h, hfirst, hsecond⟩

/-- An address with a dot ends with a dotted quad, and is one with the groups in its place. -/
theorem exists_quad (h : Ipv6Address addr v) (hdot : '.' ∈ addr) :
    ∃ front quad w groups, addr = front ++ ':' :: quad ∧ DottedQuad quad w ∧
      PlainAddress (front ++ ':' :: (Nat.toDigits 16 (w / 0x10000) ++ ':' :: Nat.toDigits 16 (w % 0x10000))) groups ∧
      groupsValue (groups.map hexNumber) = v := by
  cases h with
  | full h hlength =>
    cases h with
    | plain h => exact absurd hdot (dot_not_mem_groups h)
    | @embedded gs quad w h hquad =>
      have hgs : gs.length = 6 := by
        rw [length_append, length_map, length_cons, length_singleton] at hlength
        omega
      have hne : gs ≠ [] := ne_nil_of_length_pos (by omega)
      have hplain := PlainAddress.full (forall_groups_quad h hquad) (by simp [hgs])
      rw [join_append hne (by simp), join_cons _ (by simp), join_singleton] at hplain
      refine ⟨join ':' gs, quad, w, _, ?_, hquad, hplain, by rw [map_hexNumber_quad]⟩
      rw [join_append hne (by simp), join_singleton]
  | @compressed left cs ns hleft h hlength =>
    cases h with
    | @plain right h =>
      rw [mem_append, mem_cons, mem_cons] at hdot
      rcases hdot with hdot | hdot | hdot | hdot
      · exact absurd hdot (dot_not_mem_groups hleft)
      · cases hdot
      · cases hdot
      · exact absurd hdot (dot_not_mem_groups h)
    | @embedded gs quad w h hquad =>
      obtain ⟨front, hfront⟩ := exists_front left gs
      rw [length_append, length_map, length_cons, length_singleton] at hlength
      have hplain := PlainAddress.compressed hleft (forall_groups_quad h hquad)
        (by rw [length_append, length_cons, length_singleton]; omega)
      rw [hfront (by simp), join_cons _ (by simp), join_singleton] at hplain
      refine ⟨front, quad, w, _, ?_, hquad, hplain, ?_⟩
      · rw [hfront (by simp), join_singleton]
      · rw [map_append, map_append, map_hexNumber_quad, map_hexNumber_zeros]
        simp

/-- Embedded addresses are read as the groups they denote. -/
theorem exists_embedded_iff :
    (∃ addr' groups, embedded addr = some addr' ∧ PlainAddress addr' groups ∧ groupsValue (groups.map hexNumber) = v) ↔
      Ipv6Address addr v := by
  by_cases hdot : '.' ∈ addr
  · constructor
    · rintro ⟨addr', groups, hembedded, h, rfl⟩
      by_cases hcolon : ':' ∈ addr
      · obtain ⟨front, tail, rfl, htail, -⟩ := exists_cutAtLast hcolon
        rw [embedded_append htail hdot] at hembedded
        obtain ⟨w, hw, rfl⟩ := Option.map_eq_some_iff.mp hembedded
        rw [parseIPv4_iff, String.toList_ofList] at hw
        exact address_of_plain hw h
      · rw [embedded_of_not_mem hcolon hdot] at hembedded
        cases hembedded
    · intro h
      obtain ⟨front, quad, w, groups, rfl, hquad, h⟩ := exists_quad h hdot
      have hparse : parseIPv4 (String.ofList quad) = some w := by
        rw [parseIPv4_iff, String.toList_ofList]
        exact hquad
      refine ⟨_, groups, ?_, h⟩
      rw [embedded_append (mem_dottedQuad hquad).2.1 hdot, hparse, Option.map_some]
  · have hsame : embedded addr = some addr := by
      rw [embedded, if_neg (by simpa using hdot)]
    rw [hsame, ← plainAddress_iff hdot]
    simp

end Embedded

/-! ## IPv6 texts -/

section Text

variable {cs : List Char} {v : Nat}

theorem isAddressChar_group {g : List Char} (h : isGroup g = true) : ∀ c ∈ g, isAddressChar c = true := by
  intro c hc
  rw [isAddressChar, hexValue_of_group h hc]
  rfl

theorem isAddressChar_join {parts : List (List Char)} (h : ∀ part ∈ parts, ∀ c ∈ part, isAddressChar c = true) :
    ∀ c ∈ join ':' parts, isAddressChar c = true := by
  induction parts with
  | nil => exact forall_mem_nil _
  | cons part parts ih =>
    have hpart := h part mem_cons_self
    have hrest := ih fun p hp => h p (mem_cons_of_mem _ hp)
    rcases eq_or_ne parts [] with rfl | hne
    · simpa using hpart
    · rw [join_cons part hne, forall_mem_append, forall_mem_cons]
      exact ⟨hpart, rfl, hrest⟩

theorem isAddressChar_groups {ns : List Nat} (h : Ipv6Groups cs ns) : ∀ c ∈ cs, isAddressChar c = true := by
  cases h with
  | plain h => exact isAddressChar_join fun g hg => isAddressChar_group (h g hg)
  | embedded h hquad =>
    refine isAddressChar_join fun g hg => ?_
    rcases mem_append.mp hg with hg | hg
    · exact isAddressChar_group (h g hg)
    · rw [mem_singleton.mp hg]
      exact (mem_dottedQuad hquad).2.2.2

theorem address_chars (h : Ipv6Address cs v) : cs ≠ [] ∧ ∀ c ∈ cs, isAddressChar c = true := by
  cases h with
  | full h hlength =>
    refine ⟨?_, isAddressChar_groups h⟩
    rintro rfl
    have hplain : embedded [] = some [] := rfl
    obtain ⟨addr, groups, haddr, h, -⟩ := exists_embedded_iff.mpr (Ipv6Address.full h hlength)
    rw [hplain] at haddr
    cases haddr
    rw [← plainGroups_iff] at h
    cases h
  | compressed hleft h hlength =>
    refine ⟨by simp, ?_⟩
    rw [forall_mem_append, forall_mem_cons, forall_mem_cons]
    exact ⟨isAddressChar_join fun g hg => isAddressChar_group (hleft g hg), rfl, rfl, isAddressChar_groups h⟩

theorem percent_not_mem (h : Ipv6Address cs v) : '%' ∉ cs := fun hmem =>
  absurd ((address_chars h).2 _ hmem) (by decide)

/-- The parser without its zone. -/
def parseAddress (addr : List Char) : Option Nat :=
  if addr.isEmpty || !addr.all isAddressChar then none
  else do
    let addr ← embedded addr
    let groups ← plainGroups addr
    some (groups.foldl (fun acc g => acc * 0x10000 + hexNumber g) 0)

theorem parseAddress_iff : parseAddress cs = some v ↔ Ipv6Address cs v := by
  rw [parseAddress, ← exists_embedded_iff]
  split
  · next hbad =>
    refine ⟨nofun, fun h => ?_⟩
    obtain ⟨hne, hall⟩ := address_chars (exists_embedded_iff.mp h)
    rw [Bool.or_eq_true, List.isEmpty_iff, Bool.not_eq_true', all_eq_false] at hbad
    rcases hbad with rfl | ⟨c, hc, hbad⟩
    · exact absurd rfl hne
    · exact absurd (hall c hc) hbad
  · simp only [Option.bind_eq_bind, Option.bind_eq_some_iff, plainGroups_iff, Option.some.injEq, groupsValue,
      foldl_map]
    exact ⟨fun ⟨addr, haddr, groups, h⟩ => ⟨addr, groups, haddr, h⟩,
      fun ⟨addr, groups, haddr, h⟩ => ⟨addr, haddr, groups, h⟩⟩

theorem parseIPv6_eq (text : String) : parseIPv6 text =
    if text.toList.contains '%' &&
        (((text.toList.dropWhile (· != '%')).drop 1).isEmpty || ((text.toList.dropWhile (· != '%')).drop 1).contains '%')
    then none else parseAddress (text.toList.takeWhile (· != '%')) := by
  unfold parseIPv6 parseAddress isAddressChar plainGroups
  dsimp only
  split
  · rfl
  split
  · rfl
  · congr 1
    funext addr
    rcases splitDouble addr with _ | ⟨left, _ | ⟨right, _ | ⟨third, rest⟩⟩⟩
    · rfl
    · simp only [Option.bind_eq_bind, Option.bind_assoc]
      congr 1
      funext head
      split <;> rfl
    · simp only [Option.bind_eq_bind, Option.bind_assoc]
      congr 1
      funext head
      congr 1
      funext tail
      split <;> rfl
    · rfl

/-- The zone starts at the first `%`. -/
theorem zoned_iff {addr zone : List Char} (haddr : '%' ∉ addr) :
    Ipv6Text (addr ++ '%' :: zone) v ↔ Ipv6Address addr v ∧ zone ≠ [] ∧ '%' ∉ zone := by
  constructor
  · intro h
    generalize htext : addr ++ '%' :: zone = text at h
    cases h with
    | bare h => exact absurd (by rw [← htext]; simp) (percent_not_mem h)
    | zoned h hne hzone =>
      obtain ⟨rfl, rfl⟩ := append_sep_inj haddr (percent_not_mem h) htext
      exact ⟨h, hne, hzone⟩
  · rintro ⟨h, hne, hzone⟩
    exact .zoned h hne hzone

/-- `parseIPv6` accepts the IPv6 texts, and returns what they denote. -/
theorem parseIPv6_iff {text : String} : parseIPv6 text = some v ↔ Ipv6Text text.toList v := by
  rw [parseIPv6_eq]
  generalize text.toList = cs
  by_cases hmem : '%' ∈ cs
  · obtain ⟨addr, zone, rfl, haddr⟩ := eq_append_cons_of_mem hmem
    rw [takeWhile_ne_append haddr, dropWhile_ne_append haddr, drop_succ_cons, drop_zero,
      contains_iff_mem.mpr hmem, Bool.true_and]
    rw [zoned_iff haddr]
    split
    · next hbad =>
      rw [Bool.or_eq_true, List.isEmpty_iff, contains_iff_mem] at hbad
      exact ⟨nofun, fun h => absurd hbad (not_or.mpr h.2)⟩
    · next hgood =>
      rw [Bool.or_eq_true, List.isEmpty_iff, contains_iff_mem] at hgood
      rw [parseAddress_iff, and_iff_left (not_or.mp hgood)]
  · have htake : cs.takeWhile (· != '%') = cs := takeWhile_eq_self_iff.mpr fun c hc => by
      rw [bne_iff_ne]
      rintro rfl
      exact hmem hc
    rw [if_neg (by simp [hmem]), htake, parseAddress_iff]
    constructor
    · exact .bare
    · intro h
      cases h with
      | bare h => exact h
      | zoned => exact absurd (by simp) hmem

end Text

end PrReviewer.Platform
