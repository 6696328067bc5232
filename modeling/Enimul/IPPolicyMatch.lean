import Enimul.LoadOrder
import Mathlib.Data.List.Pairwise

/-! The rule for an address.
The configuration has one table of address rules, the program has one trie for each family and
picks the trie by looking for a colon, in the rule when it is loaded and in the address when it is
looked up. -/
namespace Enimul
namespace LoadConfig

open GoSlice GoText NetIP Policies PolicyDecode GoRun GenPolicy PathLookup IPTrie

def familyOf (rule : Str) : Family := if isIPv6 rule then ipv6 else ipv4

/-- The networks of a rule that was installed. The rule for everything is a network of either
family. -/
def networks (rule : Str) : List Prefix :=
  if rule = str "*" then [wholeNet ipv4,wholeNet ipv6]
  else (ruleNet (familyOf rule) rule).toList

/-- The two are written with the same address bits, perhaps with other host bits. -/
def SameNet (net other : Prefix) : Prop :=
  net.addr.is4 = other.addr.is4 ∧ netBits net = netBits other

/-- The two rules do not stand for one network. -/
def Apart {α : Type} (e e' : Str × α) : Prop :=
  ∀ net ∈ networks e.1, ∀ other ∈ networks e'.1, ¬ SameNet net other

instance (net other : Prefix) : Decidable (SameNet net other) :=
  inferInstanceAs (Decidable (_ ∧ _))

instance {α : Type} (e e' : Str × α) : Decidable (Apart e e') :=
  inferInstanceAs (Decidable (∀ net ∈ networks e.1, ∀ other ∈ networks e'.1, ¬ SameNet net other))

instance {α : Type} : Std.Symm (Apart (α := α)) where
  symm _ _ h net hnet other hother hsame := h other hother net hnet ⟨hsame.1.symm,hsame.2.symm⟩

/-- The rule has a network around the address, where a mapped address counts as IPv4. -/
def Covers (a : Addr) (rule : Str) : Prop :=
  ∃ net ∈ networks rule, net.contains (lookupAddr a) = true

/-- The rule has a network around the address, and no rule of the log has a longer one. -/
def LongestIn {α : Type} (log : List (Str × α)) (a : Addr) (rule : Str) : Prop :=
  ∃ net ∈ networks rule, net.contains (lookupAddr a) = true ∧
    ∀ e ∈ log, ∀ other ∈ networks e.1, other.contains (lookupAddr a) = true → other.bits ≤ net.bits

/-- The value belongs to a rule with the longest network around the address. -/
def LongestMatch {α : Type} (log : List (Str × α)) (a : Addr) (v : α) : Prop :=
  ∃ e ∈ log, e.2 = v ∧ LongestIn log a e.1

instance {α : Type} (log : List (Str × α)) (a : Addr) (rule : Str) :
    Decidable (LongestIn log a rule) :=
  inferInstanceAs (Decidable (∃ net ∈ networks rule, net.contains (lookupAddr a) = true ∧
    ∀ e ∈ log, ∀ other ∈ networks e.1, other.contains (lookupAddr a) = true →
      other.bits ≤ net.bits))

instance {α : Type} [DecidableEq α] (log : List (Str × α)) (a : Addr) (v : α) :
    Decidable (LongestMatch log a v) :=
  inferInstanceAs (Decidable (∃ e ∈ log, e.2 = v ∧ LongestIn log a e.1))

theorem is4_of_not_isIPv6 {s : Str} {a : Addr} (h : parseAddr s = some a) (hs : isIPv6 s = false) :
    a.is4 = true := by
  rw [parseAddr] at h
  split at h
  · obtain ⟨fields,-,rfl⟩ := Option.map_eq_some_iff.mp h
    rfl
  · rename_i hfind
    have hmem := List.mem_of_find?_eq_some hfind
    exact absurd hs (by simpa [isIPv6,contains] using hmem)
  · simp at h

section Contains

variable {net other : Prefix} {a : Addr}

theorem bits_le_max (net : Prefix) : net.bits ≤ 128 := by
  refine net.bits_le.trans ?_
  cases net.addr <;> simp [Addr.bitLen]

theorem contains_is4 (h : net.contains a = true) :
    net.addr ≠ .invalid ∧ a ≠ .invalid ∧ net.addr.is4 = a.is4 := by
  cases hn : net.addr <;> cases a <;> simp_all [Prefix.contains,Addr.is4]

theorem lookupAddr_is4 (a : Addr) : (lookupAddr a).is4 = a.unmap.is4 := by
  rw [lookupAddr]
  split
  · rename_i h
    rw [h]
    rfl
  · rfl

theorem is4_of_contains (h : net.contains (lookupAddr a) = true) : net.addr.is4 = a.unmap.is4 :=
  (contains_is4 h).2.2.trans (lookupAddr_is4 a)

theorem prefix_of_contains (h : net.contains (lookupAddr a) = true) :
    netBits net <+: a.unmap.bits := by
  obtain ⟨hnet,ha,-⟩ := contains_is4 h
  have hvalid : a.unmap ≠ .invalid := by
    intro hu
    rw [lookupAddr,hu] at ha
    exact ha rfl
  have hiff := contains_iff_prefix hnet hvalid (is4_of_contains h)
  exact hiff.mp h

/-- Two networks around one address that are equally long are the same. -/
theorem sameNet_of_contains (h : net.contains (lookupAddr a) = true)
    (ho : other.contains (lookupAddr a) = true) (hlen : net.bits = other.bits) :
    SameNet net other := by
  refine ⟨(is4_of_contains h).trans (is4_of_contains ho).symm,?_⟩
  have hbits : (netBits net).length = (netBits other).length := by
    rw [length_netBits,length_netBits,hlen]
  exact (List.prefix_of_prefix_length_le (prefix_of_contains h) (prefix_of_contains ho)
    hbits.le).eq_of_length hbits

end Contains

section Distinct

variable {α : Type} {log : List (Str × α)} {a : Addr} {v : α}

theorem eq_of_sameNet (h : log.Pairwise Apart) {e e' : Str × α} (he : e ∈ log) (he' : e' ∈ log)
    {net other : Prefix} (hnet : net ∈ networks e.1) (hother : other ∈ networks e'.1)
    (hsame : SameNet net other) : e = e' := by
  by_contra hne
  exact h.forall he he' hne net hnet other hother hsame

theorem agree_of_apart (h : log.Pairwise Apart) (a : Addr) : Agree (LongestIn log a) log := by
  rintro e he e' he' ⟨net,hnet,hc,hmax⟩ ⟨other,hother,hc',hmax'⟩
  have hlen := le_antisymm (hmax' e he net hnet hc) (hmax e' he' other hother hc')
  exact congrArg Prod.snd (eq_of_sameNet h he he' hnet hother (sameNet_of_contains hc hc' hlen))

/-- Rules that cover the address only shortly do not count besides the others. -/
theorem longestMatch_filter (mine : Str → Bool)
    (h : ∀ e ∈ log, mine e.1 = false → ∀ net ∈ networks e.1, net.contains (lookupAddr a) = true →
      ∃ e' ∈ log, mine e'.1 = true ∧ ∃ other ∈ networks e'.1,
        other.contains (lookupAddr a) = true ∧ net.bits < other.bits) :
    LongestMatch (log.filter fun e => mine e.1) a v ↔ LongestMatch log a v := by
  constructor
  · rintro ⟨e,he,hv,net,hnet,hc,hmax⟩
    obtain ⟨he,-⟩ := List.mem_filter.mp he
    refine ⟨e,he,hv,net,hnet,hc,fun e' he' other hother hc' => ?_⟩
    cases hm : mine e'.1 with
    | true => exact hmax e' (List.mem_filter.mpr ⟨he',hm⟩) other hother hc'
    | false =>
      obtain ⟨e'',he'',hm'',longer,hlonger,hc'',hlt⟩ := h e' he' hm other hother hc'
      exact hlt.le.trans (hmax e'' (List.mem_filter.mpr ⟨he'',hm''⟩) longer hlonger hc'')
  · rintro ⟨e,he,hv,net,hnet,hc,hmax⟩
    refine ⟨e,List.mem_filter.mpr ⟨he,?_⟩,hv,net,hnet,hc,fun e' he' =>
      hmax e' (List.mem_filter.mp he').1⟩
    by_contra hm
    obtain ⟨e',he',-,longer,hlonger,hc',hlt⟩ := h e he (by simpa using hm) net hnet hc
    exact absurd (hmax e' he' longer hlonger hc') (not_le.mpr hlt)

theorem exists_longestMatch {e : Str × α} (he : e ∈ log) {net : Prefix} (hnet : net ∈ networks e.1)
    (hc : net.contains (lookupAddr a) = true) : ∃ v, LongestMatch log a v := by
  -- a network that is not the longest makes room for a longer one
  generalize hroom : 128-net.bits = room
  induction room using Nat.strong_induction_on generalizing e net with
  | _ room ih =>
    by_cases hmax : ∀ e' ∈ log, ∀ other ∈ networks e'.1, other.contains (lookupAddr a) = true →
        other.bits ≤ net.bits
    · exact ⟨e.2,e,he,rfl,net,hnet,hc,hmax⟩
    · push Not at hmax
      obtain ⟨e',he',other,hother,hc',hlt⟩ := hmax
      have hbits := bits_le_max other
      exact ih (128-other.bits) (by omega) he' hother hc' rfl

end Distinct

section Part

variable {α : Type} {a : Addr} {rule : Str} {v : α}

theorem wholeNet_is4 : (wholeNet ipv4).addr.is4 = true ∧ (wholeNet ipv6).addr.is4 = false := by
  decide

/-- For an IPv4 address the networks of a rule without a colon are those of the table. -/
theorem networks_ipv4 (hrule : isIPv6 rule = false) (ha : a.unmap.is4 = true) (Q : Prefix → Prop) :
    (∃ net ∈ networks rule, net.contains (lookupAddr a) = true ∧ Q net) ↔
      ∃ net, ruleNet ipv4 rule = some net ∧ net.contains (lookupAddr a) = true ∧ Q net := by
  by_cases hstar : rule = str "*"
  · rw [networks,if_pos hstar,ruleNet,if_pos hstar]
    have hno : ¬ (wholeNet ipv6).contains (lookupAddr a) = true := fun hc => by
      have h4 := is4_of_contains hc
      rw [ha,wholeNet_is4.2] at h4
      exact Bool.false_ne_true h4
    simp [hno]
  · rw [networks,if_neg hstar,familyOf,hrule,if_neg Bool.false_ne_true]
    simp

theorem ne_star_of_isIPv6 (hrule : isIPv6 rule = true) : rule ≠ str "*" := by
  rintro rfl
  simp [isIPv6,contains,str] at hrule

theorem networks_ipv6 (hrule : isIPv6 rule = true) (Q : Prefix → Prop) :
    (∃ net ∈ networks rule, net.contains (lookupAddr a) = true ∧ Q net) ↔
      ∃ net, ruleNet ipv6 rule = some net ∧ net.contains (lookupAddr a) = true ∧ Q net := by
  rw [networks,if_neg (ne_star_of_isIPv6 hrule),familyOf,hrule,if_pos rfl]
  simp

/-- The rules of one table have the networks that the table files them under. -/
def PartOf (family : Family) (mine : Str → Bool) (a : Addr) : Prop :=
  ∀ rule, mine rule = true → ∀ Q : Prefix → Prop,
    (∃ net ∈ networks rule, net.contains (lookupAddr a) = true ∧ Q net) ↔
      ∃ net, ruleNet family rule = some net ∧ net.contains (lookupAddr a) = true ∧ Q net

variable {family : Family} {mine : Str → Bool} {log : List (Str × α)}

theorem PartOf.forall_iff (h : PartOf family mine a) (hrule : mine rule = true)
    (Q : Prefix → Prop) :
    (∀ net ∈ networks rule, net.contains (lookupAddr a) = true → Q net) ↔
      ∀ net, ruleNet family rule = some net → net.contains (lookupAddr a) = true → Q net := by
  have hnot := not_congr (h rule hrule fun net => ¬ Q net)
  push Not at hnot
  exact hnot

theorem PartOf.longestIn_iff (h : PartOf family mine a) (hlog : ∀ e ∈ log, mine e.1 = true)
    (hrule : mine rule = true) : LongestIn log a rule ↔ IPTrie.Decides family log a rule := by
  refine (h rule hrule _).trans (exists_congr fun net => and_congr_right fun _ =>
    and_congr_right fun _ => forall₂_congr fun e he => ?_)
  exact h.forall_iff (hlog e he) fun other => other.bits ≤ net.bits

/-- One table finds the longest match among its own rules. -/
theorem PartOf.find_iff (hf : family = ipv4 ∨ family = ipv6) (h : PartOf family mine a)
    {rules : List (Str × α)} (hapart : (entriesOf mine rules).Pairwise Apart) {ipStr : Str}
    (ha : parseAddr ipStr = some a) (hcovers : family.covers a.unmap = true) :
    find family (ipTable family mine rules) ipStr = some v ↔
      LongestMatch (entriesOf mine rules) a v := by
  have hmine : ∀ e ∈ entriesOf mine rules, mine e.1 = true := fun e he => (List.mem_filter.mp he).2
  have hdecided := IPTrie.find_decided hf ha hcovers (entriesOf mine rules) _ fun _ => Iff.rfl
  dsimp only at hdecided
  rw [ipTable_eq,hdecided,lastWith_congr fun e he => (h.longestIn_iff hmine (hmine e he)).symm]
  exact lastWith_iff_of_agree (agree_of_apart hapart a)

end Part

section Lookup

variable {conf : Config} {t : Tables} {rules : List (Str × Policy)} {ipStr : Str} {a : Addr}

theorem getIPPolicy_eq (hload : loadTables conf = .ok t)
    (hrules : decodeRules conf.ipPolicies = .ok rules) (ip : Str) :
    getIPPolicy t ip = if isIPv6 ip then find ipv6 (ipTable ipv6 isIPv6 rules) ip
      else find ipv4 (ipTable ipv4 (fun s => !isIPv6 s) rules) ip := by
  obtain ⟨_,_,rules',-,-,hrules',rfl⟩ := loadTables_iff.mp hload
  obtain rfl := Except.ok.inj (hrules.symm.trans hrules')
  rfl

/-- A rule with a colon covers no IPv4 address. -/
theorem not_contains_of_isIPv6 {rule : Str} (hrule : isIPv6 rule = true) (h4 : a.unmap.is4 = true)
    {net : Prefix} (hnet : net ∈ networks rule) : ¬ net.contains (lookupAddr a) = true := by
  intro hc
  obtain ⟨net',hnet',hc',-⟩ := (networks_ipv6 hrule fun _ => True).mp ⟨net,hnet,hc,trivial⟩
  have hcov := (ruleNet_covered (.inr rfl) hnet').2
  rw [show ipv6.covers net'.addr = !net'.addr.is4 from rfl,is4_of_contains hc',h4] at hcov
  simp at hcov

/-- Of the rules without a colon only the one for everything covers an IPv6 address. -/
theorem bits_of_not_isIPv6 {rule : Str} (hrule : isIPv6 rule = false) (h6 : a.unmap.is4 = false)
    {net : Prefix} (hnet : net ∈ networks rule) (hc : net.contains (lookupAddr a) = true) :
    net.bits = 0 := by
  by_cases hstar : rule = str "*"
  · rw [networks,if_pos hstar] at hnet
    rcases List.mem_cons.mp hnet with rfl | hnet
    · rfl
    · rw [List.mem_singleton.mp hnet]
      rfl
  · rw [networks,if_neg hstar,familyOf,hrule,if_neg Bool.false_ne_true] at hnet
    have hcov := (ruleNet_covered (.inl rfl) (Option.mem_toList.mp hnet)).2
    rw [show ipv4.covers net.addr = net.addr.is4 from rfl,is4_of_contains hc,h6] at hcov
    simp at hcov

theorem longestMatch_ipv4 {log : List (Str × Policy)} (h4 : a.unmap.is4 = true) (v : Policy) :
    LongestMatch (log.filter fun e => !isIPv6 e.1) a v ↔ LongestMatch log a v := by
  refine longestMatch_filter (fun s => !isIPv6 s) fun e _ hm net hnet hc => ?_
  exact absurd hc (not_contains_of_isIPv6 (by simpa using hm) h4 hnet)

theorem longestMatch_ipv6 {log : List (Str × Policy)} (hapart : log.Pairwise Apart)
    (h6 : a.unmap.is4 = false) (hex : ∃ e ∈ log, isIPv6 e.1 = true ∧ Covers a e.1) (v : Policy) :
    LongestMatch (log.filter fun e => isIPv6 e.1) a v ↔ LongestMatch log a v := by
  obtain ⟨e',he',hm',other,hother,hc'⟩ := hex
  refine longestMatch_filter isIPv6 fun e he hm net hnet hc => ⟨e',he',hm',other,hother,hc',?_⟩
  have hzero := bits_of_not_isIPv6 hm h6 hnet hc
  refine Nat.pos_of_ne_zero (fun hlen => ?_) |>.trans_le' hzero.le
  have hsame := eq_of_sameNet hapart he he' hnet hother
    (sameNet_of_contains hc hc' (hzero.trans hlen.symm))
  rw [hsame,hm'] at hm
  simp at hm

theorem not_longestMatch_iff {log : List (Str × Policy)} :
    (∀ v, ¬ LongestMatch log a v) ↔ ∀ e ∈ log, ¬ Covers a e.1 := by
  constructor
  · rintro h e he ⟨net,hnet,hc⟩
    obtain ⟨v,hv⟩ := exists_longestMatch he hnet hc
    exact h v hv
  · rintro h v ⟨e,he,-,net,hnet,hc,-⟩
    exact h e he ⟨net,hnet,hc⟩

/-- A literal with a colon is looked up among the rules with a colon only. -/
theorem getIPPolicy_ipv6_iff (hload : loadTables conf = .ok t)
    (hrules : decodeRules conf.ipPolicies = .ok rules) (hapart : (entries rules).Pairwise Apart)
    (ha : parseAddr ipStr = some a) (hcolon : isIPv6 ipStr = true) (v : Policy) :
    getIPPolicy t ipStr = some v ↔ LongestMatch (entriesOf isIPv6 rules) a v := by
  rw [getIPPolicy_eq hload hrules,if_pos hcolon]
  cases h4 : a.unmap.is4 with
  | false =>
    have hpart : PartOf ipv6 isIPv6 a := fun rule hrule => networks_ipv6 hrule
    exact hpart.find_iff (.inr rfl) (hapart.filter _) ha (by simp [ipv6,h4])
  | true =>
    have hnone : find ipv6 (ipTable ipv6 isIPv6 rules) ipStr = none := by
      rw [find,ha]
      exact if_neg (by simp [ipv6,h4])
    rw [hnone]
    refine ⟨fun h => by simp at h,?_⟩
    rintro ⟨e,he,-,net,hnet,hc,-⟩
    exact absurd hc (not_contains_of_isIPv6 (List.mem_filter.mp he).2 h4 hnet)

/-- The rule with the longest network is found for every address written without a colon. With a
colon it is found exactly if a rule with a colon covers the address or no rule does. -/
theorem getIPPolicy_longest_iff (hload : loadTables conf = .ok t)
    (hrules : decodeRules conf.ipPolicies = .ok rules) (hapart : (entries rules).Pairwise Apart)
    (ha : parseAddr ipStr = some a) :
    (∀ v, getIPPolicy t ipStr = some v ↔ LongestMatch (entries rules) a v) ↔
      isIPv6 ipStr = false ∨ (∃ e ∈ entries rules, isIPv6 e.1 = true ∧ Covers a e.1) ∨
        ∀ e ∈ entries rules, ¬ Covers a e.1 := by
  cases hcolon : isIPv6 ipStr with
  | false =>
    have h4 : a.unmap.is4 = true := unmap_is4.mpr (.inl (is4_of_not_isIPv6 ha hcolon))
    have hpart : PartOf ipv4 (fun s => !isIPv6 s) a :=
      fun rule hrule => networks_ipv4 (by simpa using hrule) h4
    refine iff_of_true (fun v => ?_) (.inl rfl)
    rw [getIPPolicy_eq hload hrules,hcolon,if_neg Bool.false_ne_true,
      hpart.find_iff (.inl rfl) (hapart.filter _) ha h4]
    exact longestMatch_ipv4 h4 v
  | true =>
    simp only [getIPPolicy_ipv6_iff hload hrules hapart ha hcolon,Bool.true_eq_false,false_or]
    by_cases hex : ∃ e ∈ entries rules, isIPv6 e.1 = true ∧ Covers a e.1
    · have h6 : a.unmap.is4 = false := by
        obtain ⟨e,-,hm,net,hnet,hc⟩ := hex
        by_contra h4
        exact not_contains_of_isIPv6 hm (by simpa using h4) hnet hc
      exact iff_of_true (longestMatch_ipv6 hapart h6 hex) (.inl hex)
    · have hnone : ∀ v, ¬ LongestMatch (entriesOf isIPv6 rules) a v :=
        not_longestMatch_iff.mpr fun e he hc =>
          hex ⟨e,(List.mem_filter.mp he).1,(List.mem_filter.mp he).2,hc⟩
      rw [or_iff_right hex,← not_longestMatch_iff]
      exact forall_congr' fun v => iff_false_left (hnone v)

end Lookup

def blocked : Policy := {mergeStart with mode := .block}

theorem getIPPolicy_longest_iff_dotted :
    let conf : Config := {ipPolicies := [(str "10.0.0.0/8",{mode := some (str "block")}),
      (str "10.0.0.0/16;*",{mode := some (str "raw")})]}
    ∃ t rules, loadTables conf = .ok t ∧ decodeRules conf.ipPolicies = .ok rules ∧
      (entries rules).Pairwise Apart ∧
      (getIPPolicy t (str "10.1.2.3") = some blocked ↔
        LongestMatch (entries rules) (.v4 0x0a010203) blocked) := by
  intro conf
  obtain ⟨rules,hrules,hapart⟩ : ∃ rules, decodeRules conf.ipPolicies = .ok rules ∧
      (entries rules).Pairwise Apart := ⟨_,rfl,by decide +kernel⟩
  obtain ⟨t,ht⟩ : ∃ t, loadTables conf = .ok t := ⟨_,rfl⟩
  refine ⟨t,rules,ht,hrules,hapart,?_⟩
  exact (getIPPolicy_longest_iff ht hrules hapart (by decide +kernel)).mpr (.inl (by decide))
    blocked

/-- A mapped literal misses the rule for the IPv4 network, and an IPv6 address the rule for
everything. -/
theorem getIPPolicy_colon_bypass :
    let conf : Config := {ipPolicies := [(str "10.0.0.0/8",{mode := some (str "block")}),
      (str "*",{mode := some (str "block")})]}
    ∃ t rules, loadTables conf = .ok t ∧ decodeRules conf.ipPolicies = .ok rules ∧
      (entries rules).Pairwise Apart ∧
      getIPPolicy t (str "10.1.2.3") = some blocked ∧
      getIPPolicy t (str "::ffff:10.1.2.3") = none ∧ getIPPolicy t (str "2001:db8::1") = none ∧
      parseAddr (str "::ffff:10.1.2.3") = some (.v6 0xffff0a010203 []) ∧
      LongestMatch (entries rules) (.v6 0xffff0a010203 []) blocked ∧
      parseAddr (str "2001:db8::1") = some (.v6 0x20010db8000000000000000000000001 []) ∧
      LongestMatch (entries rules) (.v6 0x20010db8000000000000000000000001 []) blocked :=
  ⟨_,_,rfl,rfl,by decide +kernel,by decide +kernel,by decide +kernel,by decide +kernel,
    by decide +kernel,by decide +kernel,by decide +kernel,by decide +kernel⟩

end LoadConfig
end Enimul
