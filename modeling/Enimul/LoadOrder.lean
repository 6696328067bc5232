import Enimul.LoadConfig
import Enimul.LongestPrefix
import Enimul.MostSpecific
import Mathlib.Data.List.Perm.Basic

/-! The order in which a configuration is loaded.
The maps of a configuration are visited in any order, and of the entries for one place the last
one counts. A lookup is independent of the order exactly if the entries that decide it have one
value. -/
namespace Enimul

open GoSlice GoText NetIP Policies PolicyDecode GoRun GenPolicy PathLookup

namespace DomainMatcher

variable {α : Type}

/-- The labels of a name that have a dot in front of them. -/
def above (d : Str) : List Str := ((labels d).filter Prod.snd).map Prod.fst

theorem above_append_dot {x : Str} (hx : 46 ∉ x) (a : Str) : above (a++46::x) = x::above a := by
  rw [above,labels_append_dot hx]
  rfl

theorem labels_shape (d : Str) :
    ∃ rest : List Label, labels d = (above d).map (·,true)++rest ∧ ∀ l ∈ rest, l.2 = false := by
  induction d using dotInduction with
  | undotted x hx =>
    by_cases hne : x = []
    · exact ⟨[],by rw [hne]; rfl,by simp⟩
    · rw [above,labels_undotted hx hne]
      exact ⟨[(x,false)],rfl,by simp⟩
  | dot a x hx ih =>
    obtain ⟨rest,hshape,hrest⟩ := ih
    refine ⟨rest,?_,hrest⟩
    rw [labels_append_dot hx,above_append_dot hx,hshape]
    rfl

/-- The value of the name itself, or that of the longest suffix that has one. -/
theorem find_addAll_eq (log : List (Str × α)) (d : Str) :
    find (addAll log) d = (filed (key .exact) log (path d)).or
      (deepest (filed (key .wildcard) log) (above d) none) := by
  obtain ⟨rest,hshape,hrest⟩ := labels_shape d
  rw [find_eq_or hshape hrest,valueAt_addAll]
  exact congrArg (fun f => Option.or _ (deepest f _ none)) (funext (valueAt_addAll .wildcard log))

/-- The patterns that decide the lookup of a name: those for the name itself and, failing that,
those for the names below the longest suffix that has one. -/
def Decides (log : List (Str × α)) (d p : Str) : Prop :=
  key .exact p = some (path d) ∨
    ((∀ e ∈ log, key .exact e.1 ≠ some (path d)) ∧ Longest (key .wildcard) log (above d) p)

theorem find_decided (log : List (Str × α)) (d : Str) :
    DecidedBy (fun log => find (addAll log) d) log (Decides log d) := by
  have hfind : (fun log : List (Str × α) => find (addAll log) d) = fun log =>
      (filed (key .exact) log (path d)).or
        (deepest (filed (key .wildcard) log) (above d) none) :=
    funext fun log => find_addAll_eq log d
  rw [hfind]
  exact (deepest_decided (key .wildcard) log (above d)).or (key .exact) (path d)

end DomainMatcher

namespace IPTrie

variable {α : Type} {family : Family}

/-- The rules that decide the lookup of an address: those for the longest network around it. -/
def Decides (family : Family) (log : List (Str × α)) (a : Addr) (rule : Str) : Prop :=
  ∃ net, ruleNet family rule = some net ∧ net.contains (lookupAddr a) = true ∧
    ∀ e ∈ log, ∀ other, ruleNet family e.1 = some other →
      other.contains (lookupAddr a) = true → other.bits ≤ net.bits

variable (hf : family = ipv4 ∨ family = ipv6) {ipStr : Str} {a : Addr}
  (ha : parseAddr ipStr = some a) (hcovers : family.covers a.unmap = true)
include hf ha hcovers

theorem longest_iff_decides (log : List (Str × α)) (rule : Str) :
    Longest (ruleBits family) log a.unmap.bits rule ↔ Decides family log a rule := by
  have hall := forall_ruleBits_iff (α := α) hf ha hcovers log
  constructor
  · rintro ⟨q,hq,hpath,hmax⟩
    obtain ⟨net,hnet,rfl⟩ := Option.map_eq_some_iff.mp hq
    rw [length_netBits] at hmax
    have hcontains := (contains_iff_ruleBits hf hnet ha hcovers).mpr hpath
    exact ⟨net,hnet,hcontains,(hall (· ≤ net.bits)).mp hmax⟩
  · rintro ⟨net,hnet,hcontains,hmax⟩
    have hpath := (contains_iff_ruleBits hf hnet ha hcovers).mp hcontains
    refine ⟨netBits net,ruleBits_of_ruleNet hnet,hpath,?_⟩
    rw [length_netBits]
    exact (hall (· ≤ net.bits)).mpr hmax

theorem find_insertAll_eq_deepest (log : List (Str × α)) :
    find family (insertAll family log) ipStr =
      deepest (filed (ruleBits family) log) a.unmap.bits none := by
  rw [find_eq_deepest ha hcovers]
  exact congrArg (deepest · _ _) (funext (valueAt_insertAll hf log))

theorem find_decided (log : List (Str × α)) :
    DecidedBy (fun log => find family (insertAll family log) ipStr) log (Decides family log a) := by
  have hfind : (fun log : List (Str × α) => find family (insertAll family log) ipStr) = fun log =>
      deepest (filed (ruleBits family) log) a.unmap.bits none :=
    funext (find_insertAll_eq_deepest hf ha hcovers)
  have hdecides : Longest (ruleBits family) log a.unmap.bits = Decides family log a :=
    funext fun rule => propext (longest_iff_decides hf ha hcovers log rule)
  rw [hfind,← hdecides]
  exact deepest_decided (ruleBits family) log a.unmap.bits

end IPTrie

namespace LoadConfig

variable {α : Type}

/-- The entries of one rule. -/
def ruleEntries (rule : Str × α) : List (Str × α) :=
  (patternsOf rule.1).map fun pattern => (pattern,rule.2)

theorem ruleEntries_value (rule : Str × α) : ∀ e ∈ ruleEntries rule, e.2 = rule.2 := by
  intro e he
  obtain ⟨pattern,-,rfl⟩ := List.mem_map.mp he
  rfl

theorem domainTable_eq (rules : List (Str × α)) :
    domainTable rules = DomainMatcher.addAll (entries rules) := by
  have hstep : addOrSkip DomainMatcher.add = DomainMatcher.addOrSkip (α := α) := by
    funext m e
    rw [addOrSkip,DomainMatcher.addOrSkip]
    cases DomainMatcher.add m e.1 e.2 <;> rfl
  rw [domainTable,hstep]
  rfl

theorem domainTable_order_iff (rules : List (Str × α)) (d : Str) :
    (∀ rules' : List (Str × α), rules'.Perm rules →
      DomainMatcher.find (domainTable rules') d = DomainMatcher.find (domainTable rules) d) ↔
    Agree (DomainMatcher.Decides (entries rules) d) (entries rules) := by
  simp only [domainTable_eq]
  exact (DomainMatcher.find_decided (rules.flatMap ruleEntries) d).order_iff rules ruleEntries_value

/-- The entries that go into one of the two tables for addresses. -/
def entriesOf (mine : Str → Bool) (rules : List (Str × α)) : List (Str × α) :=
  (entries rules).filter fun e => mine e.1

theorem ipTable_eq (family : IPTrie.Family) (mine : Str → Bool) (rules : List (Str × α)) :
    ipTable family mine rules = IPTrie.insertAll family (entriesOf mine rules) := by
  have hstep : addOrSkip (IPTrie.insert family) = IPTrie.insertOrSkip (α := α) family := by
    funext t e
    rw [addOrSkip,IPTrie.insertOrSkip]
    cases IPTrie.insert family t e.1 e.2 <;> rfl
  rw [ipTable,hstep]
  rfl

theorem ipTable_order_iff {family : IPTrie.Family}
    (hf : family = IPTrie.ipv4 ∨ family = IPTrie.ipv6) (mine : Str → Bool)
    (rules : List (Str × α)) (ipStr : Str) :
    (∀ rules' : List (Str × α), rules'.Perm rules →
      IPTrie.find family (ipTable family mine rules') ipStr =
        IPTrie.find family (ipTable family mine rules) ipStr) ↔
    ∀ a, parseAddr ipStr = some a → family.covers a.unmap = true →
      Agree (IPTrie.Decides family (entriesOf mine rules) a) (entriesOf mine rules) := by
  have hentries : ∀ rules : List (Str × α), entriesOf mine rules =
      rules.flatMap fun rule => (ruleEntries rule).filter fun e => mine e.1 :=
    fun rules => List.filter_flatMap
  simp only [ipTable_eq,hentries]
  by_cases hlook : ∃ a, parseAddr ipStr = some a ∧ family.covers a.unmap = true
  · obtain ⟨a,ha,hcovers⟩ := hlook
    have hblock : ∀ rule : Str × α, ∀ e ∈ (ruleEntries rule).filter fun e => mine e.1,
        e.2 = rule.2 :=
      fun rule e he => ruleEntries_value rule e (List.mem_filter.mp he).1
    refine ((IPTrie.find_decided hf ha hcovers _).order_iff rules hblock).trans ?_
    refine ⟨fun h b hb _ => ?_,fun h => h a ha hcovers⟩
    obtain rfl := Option.some.inj (ha.symm.trans hb)
    exact h
  · have hnone : ∀ t : IPTrie.Trie α, IPTrie.find family t ipStr = none := by
      intro t
      rw [IPTrie.find]
      cases ha : parseAddr ipStr with
      | none => rfl
      | some a => exact if_neg fun hc => hlook ⟨a,ha,hc⟩
    exact ⟨fun _ a ha hc => absurd ⟨a,ha,hc⟩ hlook,fun _ _ _ => by rw [hnone,hnone]⟩

/-- The same configuration, with its maps visited in another order. -/
structure Reorders (conf conf' : Config) : Prop where
  hosts : conf'.hosts.Perm conf.hosts
  defaultPolicy : conf'.defaultPolicy = conf.defaultPolicy
  domainPolicies : conf'.domainPolicies.Perm conf.domainPolicies
  ipPolicies : conf'.ipPolicies.Perm conf.ipPolicies

/-- Any two orders give the same result. -/
def OrderIndependent {β : Type} (conf : Config) (lookup : Tables → β) : Prop :=
  ∀ conf₁ conf₂ t₁ t₂, Reorders conf conf₁ → Reorders conf conf₂ →
    loadTables conf₁ = .ok t₁ → loadTables conf₂ = .ok t₂ → lookup t₁ = lookup t₂

def Decoded (raw : Str × PolicyJSON) (rule : Str × Policy) : Prop :=
  rule.1 = raw.1 ∧ unmarshalJSON raw.2 = .ok rule.2

theorem decodeRules_iff {raws : List (Str × PolicyJSON)} {rules : List (Str × Policy)} :
    decodeRules raws = .ok rules ↔ List.Forall₂ Decoded raws rules := by
  induction raws generalizing rules with
  | nil =>
    rw [List.forall₂_nil_left_iff]
    exact ⟨fun h => (Except.ok.inj h).symm,fun h => h ▸ rfl⟩
  | cons raw raws ih =>
    rw [List.forall₂_cons_left_iff]
    constructor
    · intro h
      obtain ⟨p,hp,h⟩ := except_bind_ok h
      obtain ⟨rest,hrest,h⟩ := except_bind_ok h
      exact ⟨(raw.1,p),rest,⟨rfl,hp⟩,ih.mp hrest,(Except.ok.inj h).symm⟩
    · rintro ⟨⟨name,p⟩,rest,⟨rfl,hp⟩,hrest,rfl⟩
      exact except_bind_of_ok hp (except_bind_of_ok (ih.mpr hrest) rfl)

/-- The tables that decoded rules are put into. -/
def tables (defaultPolicy : Policy) (hosts : List (Str × Str))
    (domainPolicies ipPolicies : List (Str × Policy)) : Tables where
  defaultPolicy := defaultPolicy
  domainMatcher := domainTable domainPolicies
  hostsMatcher := domainTable hosts
  ipMatcher := ipTable IPTrie.ipv4 (fun s => !isIPv6 s) ipPolicies
  ipv6Matcher := ipTable IPTrie.ipv6 isIPv6 ipPolicies

theorem loadTables_iff {conf : Config} {t : Tables} :
    loadTables conf = .ok t ↔ ∃ defaultPolicy domainPolicies ipPolicies,
      decodeDefault conf.defaultPolicy = .ok defaultPolicy ∧
      decodeRules conf.domainPolicies = .ok domainPolicies ∧
      decodeRules conf.ipPolicies = .ok ipPolicies ∧
      t = tables defaultPolicy conf.hosts domainPolicies ipPolicies := by
  constructor
  · intro h
    obtain ⟨defaultPolicy,hdefault,h⟩ := except_bind_ok h
    obtain ⟨domainPolicies,hdomain,h⟩ := except_bind_ok h
    obtain ⟨ipPolicies,hip,h⟩ := except_bind_ok h
    exact ⟨_,_,_,hdefault,hdomain,hip,(Except.ok.inj h).symm⟩
  · rintro ⟨defaultPolicy,domainPolicies,ipPolicies,hdefault,hdomain,hip,rfl⟩
    exact except_bind_of_ok hdefault (except_bind_of_ok hdomain (except_bind_of_ok hip rfl))

section Order

variable {conf : Config} {defaultPolicy : Policy} {domainPolicies ipPolicies : List (Str × Policy)}
  (hdefault : decodeDefault conf.defaultPolicy = .ok defaultPolicy)
  (hdomain : decodeRules conf.domainPolicies = .ok domainPolicies)
  (hip : decodeRules conf.ipPolicies = .ok ipPolicies)

/-- The maps are decoded before they are visited, so an order of the objects is an order of the
rules, -/
theorem decodeRules_perm {raws raws' : List (Str × PolicyJSON)} {rules : List (Str × Policy)}
    (h : decodeRules raws = .ok rules) (hperm : raws'.Perm raws) :
    ∃ rules', decodeRules raws' = .ok rules' ∧ rules'.Perm rules := by
  obtain ⟨rules',hdecoded,hperm'⟩ := List.perm_comp_forall₂ hperm (decodeRules_iff.mp h)
  exact ⟨rules',decodeRules_iff.mpr hdecoded,hperm'⟩

/-- and the other way round. -/
theorem perm_decodeRules {raws : List (Str × PolicyJSON)} {rules rules' : List (Str × Policy)}
    (h : decodeRules raws = .ok rules) (hperm : rules'.Perm rules) :
    ∃ raws', decodeRules raws' = .ok rules' ∧ raws'.Perm raws := by
  obtain ⟨raws',hdecoded,hperm'⟩ := List.perm_comp_forall₂ hperm (decodeRules_iff.mp h).flip
  exact ⟨raws',decodeRules_iff.mpr hdecoded.flip,hperm'⟩

include hdefault hdomain hip

theorem loadTables_of_reorders {conf' : Config} {t' : Tables} (h : Reorders conf conf')
    (ht : loadTables conf' = .ok t') :
    ∃ domainPolicies' ipPolicies', domainPolicies'.Perm domainPolicies ∧
      ipPolicies'.Perm ipPolicies ∧
      t' = tables defaultPolicy conf'.hosts domainPolicies' ipPolicies' := by
  obtain ⟨default',domain',ip',hdefault',hdomain',hip',rfl⟩ := loadTables_iff.mp ht
  obtain ⟨domain'',hdomain'',hperm⟩ := decodeRules_perm hdomain h.domainPolicies
  obtain ⟨ip'',hip'',hperm'⟩ := decodeRules_perm hip h.ipPolicies
  rw [h.defaultPolicy] at hdefault'
  obtain rfl := Except.ok.inj (hdefault.symm.trans hdefault')
  obtain rfl := Except.ok.inj (hdomain'.symm.trans hdomain'')
  obtain rfl := Except.ok.inj (hip'.symm.trans hip'')
  exact ⟨_,_,hperm,hperm',rfl⟩

theorem reorders_of_perm {hosts' : List (Str × Str)} {domain' ip' : List (Str × Policy)}
    (hhosts : hosts'.Perm conf.hosts) (hperm : domain'.Perm domainPolicies)
    (hperm' : ip'.Perm ipPolicies) :
    ∃ conf', Reorders conf conf' ∧
      loadTables conf' = .ok (tables defaultPolicy hosts' domain' ip') := by
  obtain ⟨raws,hraws,hp⟩ := perm_decodeRules hdomain hperm
  obtain ⟨raws',hraws',hp'⟩ := perm_decodeRules hip hperm'
  exact ⟨⟨hosts',conf.defaultPolicy,raws,raws'⟩,⟨hhosts,rfl,hp,hp'⟩,
    loadTables_iff.mpr ⟨_,_,_,hdefault,hraws,hraws',rfl⟩⟩

/-- A lookup that reads one of the maps. -/
theorem orderIndependent_iff {β ρ : Type} (lookup : Tables → β) (rules : List ρ) (f : List ρ → β)
    (hread : ∀ hosts' domain' ip', hosts'.Perm conf.hosts → domain'.Perm domainPolicies →
      ip'.Perm ipPolicies → ∃ rules' : List ρ, rules'.Perm rules ∧
        lookup (tables defaultPolicy hosts' domain' ip') = f rules')
    (hwrite : ∀ rules' : List ρ, rules'.Perm rules → ∃ hosts' domain' ip',
      hosts'.Perm conf.hosts ∧ domain'.Perm domainPolicies ∧ ip'.Perm ipPolicies ∧
        lookup (tables defaultPolicy hosts' domain' ip') = f rules') :
    OrderIndependent conf lookup ↔ ∀ rules' : List ρ, rules'.Perm rules → f rules' = f rules := by
  have hreach : ∀ rules' : List ρ, rules'.Perm rules → ∃ conf' t', Reorders conf conf' ∧
      loadTables conf' = .ok t' ∧ lookup t' = f rules' := by
    intro rules' hperm
    obtain ⟨hosts',domain',ip',hh,hd,hi,hf⟩ := hwrite rules' hperm
    obtain ⟨conf',hre,hload⟩ := reorders_of_perm hdefault hdomain hip hh hd hi
    exact ⟨conf',_,hre,hload,hf⟩
  constructor
  · intro h rules' hperm
    obtain ⟨conf₁,t₁,hre₁,hload₁,hf₁⟩ := hreach rules' hperm
    obtain ⟨conf₂,t₂,hre₂,hload₂,hf₂⟩ := hreach rules (List.Perm.refl _)
    rw [← hf₁,← hf₂]
    exact h conf₁ conf₂ t₁ t₂ hre₁ hre₂ hload₁ hload₂
  · intro h
    have hbase : ∀ conf' t', Reorders conf conf' → loadTables conf' = .ok t' →
        lookup t' = f rules := by
      intro conf' t' hre hload
      obtain ⟨domain',ip',hd,hi,rfl⟩ := loadTables_of_reorders hdefault hdomain hip hre hload
      obtain ⟨rules',hperm,hf⟩ := hread conf'.hosts domain' ip' hre.hosts hd hi
      rw [hf,h rules' hperm]
    intro conf₁ conf₂ t₁ t₂ hre₁ hre₂ hload₁ hload₂
    rw [hbase conf₁ t₁ hre₁ hload₁,hbase conf₂ t₂ hre₂ hload₂]

/-- A query has the same result in every order exactly if the entries that decide it have one
value. -/
theorem loadTables_order_iff :
    (∀ d, OrderIndependent conf (fun t => DomainMatcher.find t.hostsMatcher d) ↔
      Agree (DomainMatcher.Decides (entries conf.hosts) d) (entries conf.hosts)) ∧
    (∀ d, OrderIndependent conf (fun t => DomainMatcher.find t.domainMatcher d) ↔
      Agree (DomainMatcher.Decides (entries domainPolicies) d) (entries domainPolicies)) ∧
    (∀ ip, OrderIndependent conf (fun t => IPTrie.find IPTrie.ipv4 t.ipMatcher ip) ↔
      ∀ a, parseAddr ip = some a → IPTrie.ipv4.covers a.unmap = true →
        Agree (IPTrie.Decides IPTrie.ipv4 (entriesOf (fun s => !isIPv6 s) ipPolicies) a)
          (entriesOf (fun s => !isIPv6 s) ipPolicies)) ∧
    ∀ ip, OrderIndependent conf (fun t => IPTrie.find IPTrie.ipv6 t.ipv6Matcher ip) ↔
      ∀ a, parseAddr ip = some a → IPTrie.ipv6.covers a.unmap = true →
        Agree (IPTrie.Decides IPTrie.ipv6 (entriesOf isIPv6 ipPolicies) a)
          (entriesOf isIPv6 ipPolicies) := by
  have hiff {β ρ : Type} {lookup : Tables → β} {rules : List ρ} {f : List ρ → β} :=
    orderIndependent_iff hdefault hdomain hip lookup rules f
  have hr {ρ : Type} (l : List ρ) := List.Perm.refl l
  refine ⟨fun d => ?_,fun d => ?_,fun ip => ?_,fun ip => ?_⟩
  · rw [← domainTable_order_iff]
    exact hiff (fun hosts' _ _ h _ _ => ⟨hosts',h,rfl⟩)
      fun hosts' h => ⟨hosts',_,_,h,hr _,hr _,rfl⟩
  · rw [← domainTable_order_iff]
    exact hiff (fun _ domain' _ _ h _ => ⟨domain',h,rfl⟩)
      fun domain' h => ⟨_,domain',_,hr _,h,hr _,rfl⟩
  · rw [← ipTable_order_iff (.inl rfl)]
    exact hiff (fun _ _ ip' _ _ h => ⟨ip',h,rfl⟩) fun ip' h => ⟨_,_,ip',hr _,hr _,h,rfl⟩
  · rw [← ipTable_order_iff (.inr rfl)]
    exact hiff (fun _ _ ip' _ _ h => ⟨ip',h,rfl⟩) fun ip' h => ⟨_,_,ip',hr _,hr _,h,rfl⟩

end Order

/-- Two rules for the names below one name, with the same policy. -/
theorem loadTables_order_iff_twice :
    let conf : Config := {domainPolicies := [(str "*.a.com",{mode := some (str "raw")}),
      (str "*a.com",{mode := some (str "raw")})]}
    ∃ domainPolicies, decodeRules conf.domainPolicies = .ok domainPolicies ∧
      OrderIndependent conf fun t => DomainMatcher.find t.domainMatcher (str "x.a.com") := by
  intro conf
  have hdomain : ∃ rules, decodeRules conf.domainPolicies = .ok rules ∧
      ∀ e ∈ entries rules, e.2 = {mergeStart with mode := .raw} := ⟨_,rfl,by decide⟩
  obtain ⟨rules,hrules,hall⟩ := hdomain
  have hdefault : decodeDefault conf.defaultPolicy = .ok {} := rfl
  have hip : decodeRules conf.ipPolicies = .ok [] := rfl
  refine ⟨rules,hrules,((loadTables_order_iff hdefault hrules hip).2.1 _).mpr ?_⟩
  exact fun e he e' he' _ _ => (hall e he).trans (hall e' he').symm

/-- A name and the pattern for it and the names below it are two keys for one place. -/
theorem loadTables_order_dependent :
    let conf : Config := {hosts := [(str "a.com",str "1.1.1.1"),(str "*a.com",str "2.2.2.2")]}
    let conf' : Config := {hosts := [(str "*a.com",str "2.2.2.2"),(str "a.com",str "1.1.1.1")]}
    Reorders conf conf' ∧ (conf.hosts.map Prod.fst).Nodup ∧
      ∃ t t', loadTables conf = .ok t ∧ loadTables conf' = .ok t' ∧
        DomainMatcher.find t.hostsMatcher (str "a.com") = some (str "2.2.2.2") ∧
        DomainMatcher.find t'.hostsMatcher (str "a.com") = some (str "1.1.1.1") :=
  ⟨⟨List.Perm.swap _ _ _,rfl,.refl _,.refl _⟩,by decide,_,_,rfl,rfl,by decide,by decide⟩

end LoadConfig
end Enimul
