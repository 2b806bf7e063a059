import PrReviewer.Platform.IpGrammar

/-!
# Addresses are classified by value

What the policy says of a value (`PublicV4`, `PublicV6`), with a network as the range of addresses that it holds
(`InRange`), and that `isPublicAddress` says this of every text of the value (`isPublicAddress_exact`).
-/

open Js List

namespace PrReviewer.Platform

/-! ## Networks as ranges -/

/-- The network holds the address: its base is what the text denotes, and the bits that do not count are any. -/
def InRange (Denotes : List Char → Nat → Prop) (width : Nat) (net : String × Nat) (v : Nat) : Prop :=
  ∃ base, Denotes net.1.toList base ∧ base ≤ v ∧ v < base + 2 ^ (width - net.2)

/-- The base of a network has no other bits than those that count. -/
def IsNetwork (parse : String → Option Nat) (width : Nat) (net : String × Nat) : Prop :=
  ∃ base ∈ parse net.1, base % 2 ^ (width - net.2) = 0

instance (parse : String → Option Nat) (width : Nat) (net : String × Nat) : Decidable (IsNetwork parse width net) :=
  match h : parse net.1 with
  | none => .isFalse fun ⟨_, hbase, _⟩ => by rw [h] at hbase; cases hbase
  | some base =>
    decidable_of_iff (base % 2 ^ (width - net.2) = 0)
      ⟨fun hmod => ⟨base, h, hmod⟩, fun ⟨_, hbase, hmod⟩ => by rw [h] at hbase; cases hbase; exact hmod⟩

section InRange

variable {parse : String → Option Nat} {Denotes : List Char → Nat → Prop} {width : Nat}

theorem inNetwork_iff (hparse : ∀ {text v}, parse text = some v ↔ Denotes text.toList v) {net : String × Nat}
    (hnet : IsNetwork parse width net) (v : Nat) : inNetwork parse width v net = true ↔ InRange Denotes width net v := by
  obtain ⟨base, hbase, hmod⟩ := hnet
  have hpos : 0 < 2 ^ (width - net.2) := Nat.two_pow_pos _
  have hdiv := Nat.div_add_mod base (2 ^ (width - net.2))
  rw [hmod, Nat.add_zero] at hdiv
  have hrange : v / 2 ^ (width - net.2) = base / 2 ^ (width - net.2) ↔ base ≤ v ∧ v < base + 2 ^ (width - net.2) := by
    rw [Nat.div_eq_iff hpos, Nat.mul_comm, hdiv]
    omega
  rw [inNetwork, Option.mem_def.mp hbase, Option.any_some, beq_iff_eq, hrange]
  constructor
  · exact fun h => ⟨base, hparse.mp hbase, h⟩
  · rintro ⟨base', hbase', h⟩
    rw [← hparse, Option.mem_def.mp hbase] at hbase'
    cases hbase'
    exact h

theorem any_inNetwork_iff (hparse : ∀ {text v}, parse text = some v ↔ Denotes text.toList v)
    {nets : List (String × Nat)} (hnets : ∀ net ∈ nets, IsNetwork parse width net) (v : Nat) :
    nets.any (inNetwork parse width v) = true ↔ ∃ net ∈ nets, InRange Denotes width net v := by
  rw [any_eq_true]
  exact exists_congr fun net => and_congr_right fun hmem => inNetwork_iff hparse (hnets net hmem) v

end InRange

theorem isNetwork_v4 : ∀ net ∈ (v2BlockedIPv4 ++ v3ExtraBlockedIPv4) ++ v2PrivateIPv4 ++ v2PrivateIPv4Exceptions,
    IsNetwork parseIPv4 32 net := by decide +kernel

theorem isNetwork_v6 : ∀ net ∈ (v2BlockedIPv6 ++ v3ExtraBlockedIPv6) ++ v2PrivateIPv6 ++ v2PrivateIPv6Exceptions,
    IsNetwork parseIPv6 128 net := by decide +kernel

/-- `a >>> shift`: the low 32 bits without a sign, moved by the low five bits of the shift. -/
def ushr (a shift : Nat) : Nat := a % 2 ^ 32 / 2 ^ (shift % 32)

/-- `in4` as the source computes it: a shift by 32 would move nothing, hence the test of the bits. -/
theorem in4_eq {ip : Nat} {net : String × Nat} (hip : ip < 2 ^ 32) (hbits : net.2 ≤ 32) : in4 ip net =
    (parseIPv4 net.1).any fun base => net.2 == 0 || ushr ip (32 - net.2) == ushr base (32 - net.2) := by
  rw [in4, inNetwork]
  cases hbase : parseIPv4 net.1 with
  | none => rfl
  | some base =>
    have hlt := dottedQuad_lt (parseIPv4_iff.mp hbase)
    rw [Option.any_some, Option.any_some]
    rcases Nat.eq_zero_or_pos net.2 with hzero | hpos
    · rw [hzero, Nat.sub_zero, Nat.div_eq_of_lt hip, Nat.div_eq_of_lt hlt]
      rfl
    · have hshift : (32 - net.2) % 32 = 32 - net.2 := Nat.mod_eq_of_lt (by omega)
      rw [ushr, ushr, hshift, Nat.mod_eq_of_lt hip, Nat.mod_eq_of_lt hlt, beq_false_of_ne hpos.ne', Bool.false_or]

/-! ## The policy of values -/

/-- In no blocked network, and in no private one without being an exception. -/
def PublicV4 (v : Nat) : Prop :=
  (¬ ∃ net ∈ v2BlockedIPv4 ++ v3ExtraBlockedIPv4, InRange DottedQuad 32 net v) ∧
    ((∃ net ∈ v2PrivateIPv4, InRange DottedQuad 32 net v) →
      ∃ net ∈ v2PrivateIPv4Exceptions, InRange DottedQuad 32 net v)

/-- The same of the other tables; an IPv4-mapped address is public when the embedded one is. -/
def PublicV6 (v : Nat) : Prop :=
  if v / 2 ^ 32 = 0xffff then PublicV4 (v % 2 ^ 32)
  else
    (¬ ∃ net ∈ v2BlockedIPv6 ++ v3ExtraBlockedIPv6, InRange Ipv6Text 128 net v) ∧
      ((∃ net ∈ v2PrivateIPv6, InRange Ipv6Text 128 net v) →
        ∃ net ∈ v2PrivateIPv6Exceptions, InRange Ipv6Text 128 net v)

theorem ipv4Blocked_iff (v : Nat) : ipv4Blocked v = false ↔ PublicV4 v := by
  have hnets := isNetwork_v4
  rw [forall_mem_append, forall_mem_append] at hnets
  obtain ⟨⟨hblocked, hprivate⟩, hexceptions⟩ := hnets
  rw [PublicV4, ← any_inNetwork_iff parseIPv4_iff hblocked, ← any_inNetwork_iff parseIPv4_iff hprivate,
    ← any_inNetwork_iff parseIPv4_iff hexceptions, ipv4Blocked]
  have hin : in4 v = inNetwork parseIPv4 32 v := rfl
  rw [hin]
  grind

theorem ipv6Blocked_iff (v : Nat) : ipv6Blocked v = false ↔ PublicV6 v := by
  have hnets := isNetwork_v6
  rw [forall_mem_append, forall_mem_append] at hnets
  obtain ⟨⟨hblocked, hprivate⟩, hexceptions⟩ := hnets
  rw [PublicV6, ← any_inNetwork_iff parseIPv6_iff hblocked, ← any_inNetwork_iff parseIPv6_iff hprivate,
    ← any_inNetwork_iff parseIPv6_iff hexceptions, ipv6Blocked]
  have hin : in6 v = inNetwork parseIPv6 128 v := rfl
  rw [hin]
  split
  · exact ipv4Blocked_iff _
  · grind

/-! ## Texts -/

/-- The text is a literal of the address. -/
inductive IsLiteral : List Char → IpFamily × Nat → Prop
  | v4 {cs : List Char} {v : Nat} (h : DottedQuad cs v) : IsLiteral cs (.v4, v)
  | v6 {cs : List Char} {v : Nat} (h : Ipv6Text cs v) : IsLiteral cs (.v6, v)

/-- What may be fetched from, by its value. -/
def Public : IpFamily × Nat → Prop
  | (.v4, v) => PublicV4 v
  | (.v6, v) => PublicV6 v

variable {text text' : String} {v : Nat} {address : IpFamily × Nat}

variable {cs : List Char} {ns : List Nat}

/-- A literal has a colon if it is an IPv6 text, and no other has one. -/
theorem colon_mem_address (h : Ipv6Address cs v) : ':' ∈ cs := by
  cases h with
  | full h hlength =>
    cases h with
    | @plain gs h =>
      rw [length_map] at hlength
      match gs, hlength with
      | g :: g' :: rest, _ =>
        rw [join_cons g (by simp)]
        simp
    | @embedded gs quad w h hquad =>
      rw [length_append, length_map, length_cons, length_singleton] at hlength
      have hne : gs ≠ [] := ne_nil_of_length_pos (by omega)
      rw [join_append hne (by simp)]
      simp
  | compressed => simp

theorem colon_mem_ipv6Text (h : Ipv6Text cs v) : ':' ∈ cs := by
  cases h with
  | bare h => exact colon_mem_address h
  | zoned h hne hzone => exact mem_append_left _ (colon_mem_address h)

theorem parseIpLiteral_iff : parseIpLiteral text = some address ↔ IsLiteral text.toList address := by
  obtain ⟨family, v⟩ := address
  rw [parseIpLiteral]
  cases h4 : parseIPv4 text with
  | some w =>
    have hquad := parseIPv4_iff.mp h4
    constructor
    · intro h
      cases h
      exact .v4 hquad
    · intro h
      cases h with
      | v4 h =>
        rw [parseIPv4_iff.mpr h] at h4
        cases h4
        rfl
      | v6 h => exact absurd (colon_mem_ipv6Text h) (mem_dottedQuad hquad).2.1
  | none =>
    constructor
    · intro h
      obtain ⟨w, hw, heq⟩ := Option.map_eq_some_iff.mp h
      cases heq
      exact .v6 (parseIPv6_iff.mp hw)
    · intro h
      cases h with
      | v4 h =>
        rw [parseIPv4_iff.mpr h] at h4
        cases h4
      | v6 h => rw [parseIPv6_iff.mpr h, Option.map_some]

theorem isPublicAddress_of_isLiteral (h : IsLiteral text.toList address) : isPublicAddress text = true ↔ Public address := by
  rw [isPublicAddress, parseIpLiteral_iff.mpr h]
  cases h with
  | v4 => rw [Bool.not_eq_true', ipv4Blocked_iff, Public]
  | v6 => rw [Bool.not_eq_true', ipv6Blocked_iff, Public]

/-! ## Bounds -/

theorem foldl_lt {α : Type} {f : α → Nat} {base : Nat} {xs : List α} (h : ∀ x ∈ xs, f x < base) (acc : Nat) :
    xs.foldl (fun acc x => acc * base + f x) acc < (acc + 1) * base ^ xs.length := by
  induction xs generalizing acc with
  | nil => simp
  | cons x xs ih =>
    have hx := h x mem_cons_self
    have hstep : acc * base + f x + 1 ≤ (acc + 1) * base := by
      rw [Nat.add_mul, Nat.one_mul]
      omega
    calc xs.foldl (fun acc x => acc * base + f x) (acc * base + f x)
        < (acc * base + f x + 1) * base ^ xs.length := ih (fun y hy => h y (mem_cons_of_mem _ hy)) _
      _ ≤ (acc + 1) * base * base ^ xs.length := Nat.mul_le_mul_right _ hstep
      _ = (acc + 1) * base ^ (x :: xs).length := by rw [length_cons, Nat.pow_succ', Nat.mul_assoc]

theorem hexNumber_lt {g : List Char} (h : isGroup g = true) : hexNumber g < 0x10000 := by
  have hdigits : ∀ c ∈ g, (Json.hexValue c).getD 0 < 16 := by
    intro c hc
    obtain ⟨n, hn⟩ := Option.isSome_iff_exists.mp (hexValue_of_group h hc)
    rw [hn]
    exact hexValue_lt hn
  calc hexNumber g < (0 + 1) * 16 ^ g.length := foldl_lt hdigits 0
    _ ≤ 1 * 16 ^ 4 := Nat.mul_le_mul_left _ (Nat.pow_le_pow_right (by decide) (length_group h).2)

theorem groups_lt (h : Ipv6Groups cs ns) : ∀ n ∈ ns, n < 0x10000 := by
  cases h with
  | plain h => exact forall_mem_map.mpr fun g hg => hexNumber_lt (h g hg)
  | embedded h hquad =>
    have hlt := dottedQuad_lt hquad
    rw [forall_mem_append, forall_mem_map]
    refine ⟨fun g hg => hexNumber_lt (h g hg), ?_⟩
    rw [forall_mem_cons, forall_mem_singleton]
    omega

theorem groupsValue_lt (h : ∀ n ∈ ns, n < 0x10000) (hlength : ns.length = 8) :
    groupsValue ns < 2 ^ 128 := by
  have hlt := foldl_lt h 0
  rwa [hlength] at hlt

theorem ipv6Address_lt (h : Ipv6Address cs v) : v < 2 ^ 128 := by
  cases h with
  | full h hlength => exact groupsValue_lt (groups_lt h) hlength
  | @compressed gs cs ns hgs h hlength =>
    refine groupsValue_lt ?_ (by simp; omega)
    rw [forall_mem_append, forall_mem_append, forall_mem_map]
    refine ⟨⟨fun g hg => hexNumber_lt (hgs g hg), fun n hn => ?_⟩, groups_lt h⟩
    rw [eq_of_mem_replicate hn]
    decide

theorem ipv6Text_lt (h : Ipv6Text cs v) : v < 2 ^ 128 := by
  cases h with
  | bare h => exact ipv6Address_lt h
  | zoned h => exact ipv6Address_lt h

/-! ## IPv4-mapped addresses -/

/-- A mapped address is public when the embedded one is. -/
theorem publicV6_mapped (h : v < 2 ^ 32) : PublicV6 (0xffff * 2 ^ 32 + v) ↔ PublicV4 v := by
  have hdiv : (0xffff * 2 ^ 32 + v) / 2 ^ 32 = 0xffff := by omega
  have hmod : (0xffff * 2 ^ 32 + v) % 2 ^ 32 = v := by omega
  rw [PublicV6, if_pos hdiv, hmod]

theorem ipv6Text_mapped {quad : List Char} (h : DottedQuad quad v) :
    Ipv6Text ("::ffff:".toList ++ quad) (0xffff * 2 ^ 32 + v) := by
  have hgroup : ∀ g ∈ [['f', 'f', 'f', 'f']], isGroup g = true := by decide
  have haddr := Ipv6Address.compressed (forall_mem_nil _) (.embedded hgroup h) (by simp)
  have hvalue : groupsValue ([0, 0, 0, 0, 0, 0xffff, v / 0x10000, v % 0x10000]) = 0xffff * 2 ^ 32 + v := by
    simp only [groupsValue, foldl_cons, foldl_nil]
    omega
  have htext : "::ffff:".toList ++ quad = join ':' [] ++ ':' :: ':' :: join ':' ([['f', 'f', 'f', 'f']] ++ [quad]) := by
    rw [singleton_append, join_cons _ (by simp), join_singleton]
    rfl
  rw [← hvalue, htext]
  exact .bare haddr

/-! ## Every text -/

/-- The parsers accept the grammars and return what is denoted, and an address is public by its value alone. -/
theorem isPublicAddress_exact :
    (∀ (text : String) v, parseIPv4 text = some v ↔ DottedQuad text.toList v) ∧
    (∀ (text : String) v, parseIPv6 text = some v ↔ Ipv6Text text.toList v) ∧
    (∀ (text : String) v, DottedQuad text.toList v → v < 2 ^ 32) ∧
    (∀ (text : String) v, Ipv6Text text.toList v → v < 2 ^ 128) ∧
    (∀ (text text' : String) address, IsLiteral text.toList address → IsLiteral text'.toList address →
      isPublicAddress text = isPublicAddress text') ∧
    (∀ (text text' : String) v, DottedQuad text.toList v → Ipv6Text text'.toList (0xffff * 2 ^ 32 + v) →
      isPublicAddress text' = isPublicAddress text) ∧
    (∀ (text : String) v, DottedQuad text.toList v → isPublicAddress ("::ffff:" ++ text) = isPublicAddress text) ∧
    (∀ text : String, (∀ address, ¬ IsLiteral text.toList address) → isPublicAddress text = false) ∧
    ∀ (text : String) address, IsLiteral text.toList address → (isPublicAddress text = true ↔ Public address) := by
  have hmapped : ∀ {text text' v}, DottedQuad text.toList v → Ipv6Text text'.toList (0xffff * 2 ^ 32 + v) →
      isPublicAddress text' = isPublicAddress text := by
    intro text text' v h h'
    rw [Bool.eq_iff_iff, isPublicAddress_of_isLiteral (.v6 h'), isPublicAddress_of_isLiteral (.v4 h)]
    exact publicV6_mapped (dottedQuad_lt h)
  refine ⟨fun _ _ => parseIPv4_iff, fun _ _ => parseIPv6_iff, fun _ _ => dottedQuad_lt, fun _ _ => ipv6Text_lt,
    fun text text' address h h' => ?_, fun _ _ _ => hmapped, fun text v h => ?_, fun text h => ?_,
    fun _ _ => isPublicAddress_of_isLiteral⟩
  · rw [Bool.eq_iff_iff, isPublicAddress_of_isLiteral h, isPublicAddress_of_isLiteral h']
  · refine hmapped h ?_
    rw [String.toList_append]
    exact ipv6Text_mapped h
  · rw [isPublicAddress]
    cases hparse : parseIpLiteral text with
    | none => rfl
    | some address => exact absurd (parseIpLiteral_iff.mp hparse) (h address)

end PrReviewer.Platform
