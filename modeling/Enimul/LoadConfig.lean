import Enimul.GenPolicy
import Enimul.PolicyDecode

/-! Loading the rule tables.
A key of the configuration is a list of patterns, a pattern may hold groups of
alternatives, and every expansion of every pattern becomes one entry of a table. The
order of the lists stands for the order in which the maps are visited. -/
namespace Enimul
namespace LoadConfig

open GoSlice GoText NetIP Policies PolicyDecode GoRun Resolve GenPolicy

def isContinuation (c : UInt8) : Bool := 0x80 ≤ c ∧ c ≤ 0xbf

/-- The bytes of the first character; an invalid sequence is one byte long. -/
def runeLen (s : Str) : ℕ :=
  let b₀ := s.getD 0 0
  let b₁ := s.getD 1 0
  if 0xc2 ≤ b₀ ∧ b₀ ≤ 0xdf ∧ isContinuation b₁ then 2
  else if 0xe0 ≤ b₀ ∧ b₀ ≤ 0xef ∧ ((s.drop 1).take 2).all isContinuation ∧
    3 ≤ s.length ∧ (b₀ = 0xe0 → 0xa0 ≤ b₁) ∧ (b₀ = 0xed → b₁ ≤ 0x9f) then 3
  else if 0xf0 ≤ b₀ ∧ b₀ ≤ 0xf4 ∧ ((s.drop 1).take 3).all isContinuation ∧
    4 ≤ s.length ∧ (b₀ = 0xf0 → 0x90 ≤ b₁) ∧ (b₀ = 0xf4 → b₁ ≤ 0x8f) then 4
  else 1

/-- `string(b)` for a byte: the character with that number. -/
def stringOfByte (b : UInt8) : Str :=
  if b < 0x80 then [b] else [(0xc0 : UInt8) ||| (b >>> 6),(0x80 : UInt8) ||| (b &&& 0x3f)]

/-- The loop of `splitByPipe`: of every character it looks at the first byte only. -/
def splitLoop : ℕ → Str → Str → List Str → List Str
  | 0, _, curr, result => result++[curr]
  | rounds+1, s, curr, result =>
    match s with
    | [] => result++[curr]
    | b::_ =>
      if b = 124 then splitLoop rounds (s.drop (runeLen s)) [] (result++[curr])
      else splitLoop rounds (s.drop (runeLen s)) (curr++stringOfByte b) result

def splitByPipe (s : Str) : List Str := if s = [] then [[]] else splitLoop s.length s [] []

/-- The place of the bracket that closes `depth` open ones. -/
def closing : Str → ℕ → Option ℕ
  | [], _ => none
  | c::rest, depth =>
    if c = 40 then (closing rest (depth+1)).map (· + 1)
    else if c = 41 then if depth = 1 then some 0 else (closing rest (depth-1)).map (· + 1)
    else (closing rest depth).map (· + 1)

/-- Expand the groups from the left; each round takes one group off the string. -/
def expandUpTo : ℕ → Str → List Str
  | 0, s => splitByPipe s
  | rounds+1, s =>
    match s.findIdx? fun c => c = 40 with
    | none => splitByPipe s
    | some left =>
      match closing (s.drop (left+1)) 1 with
      | none => splitByPipe s
      | some right =>
        let inner := (s.drop (left+1)).take right
        let suffixResults := expandUpTo rounds (s.drop (left+1+right+1))
        (splitByPipe inner).flatMap fun part =>
          suffixResults.map fun suff => s.take left++part++suff

def expandPattern (s : Str) : List Str := expandUpTo s.length s

/-- `strings.Split(s, ";")`. -/
def splitSemicolon : Str → List Str
  | [] => [[]]
  | c::rest =>
    if c = 59 then []::splitSemicolon rest
    else
      match splitSemicolon rest with
      | part::parts => (c::part)::parts
      | [] => [[c]]

def patternsOf (key : Str) : List Str := (splitSemicolon key).flatMap expandPattern

/-- The entries of a map, one for each pattern of its keys. -/
def entries {α : Type} (rules : List (Str × α)) : List (Str × α) :=
  rules.flatMap fun rule => (patternsOf rule.1).map fun pattern => (pattern,rule.2)

/-- A pattern that the table does not take is skipped. -/
def addOrSkip {α τ : Type} (add : τ → Str → α → Except String τ) (table : τ) (e : Str × α) : τ :=
  match add table e.1 e.2 with
  | .ok table' => table'
  | .error _ => table

def domainTable {α : Type} (rules : List (Str × α)) : DomainMatcher.Matcher α :=
  (entries rules).foldl (addOrSkip DomainMatcher.add) DomainMatcher.newDomainMatcher

def ipTable {α : Type} (family : IPTrie.Family) (mine : Str → Bool) (rules : List (Str × α)) :
    IPTrie.Trie α :=
  ((entries rules).filter fun e => mine e.1).foldl (addOrSkip (IPTrie.insert family))
    IPTrie.BitNode.empty

/-- The parts of the configuration that the rule tables are built from. -/
structure Config where
  hosts : List (Str × Str) := []
  defaultPolicy : Option PolicyJSON := none
  domainPolicies : List (Str × PolicyJSON) := []
  ipPolicies : List (Str × PolicyJSON) := []

def decodeRules : List (Str × PolicyJSON) → Except String (List (Str × Policy))
  | [] => .ok []
  | rule::rules => do
    let p ← unmarshalJSON rule.2
    let rest ← decodeRules rules
    return (rule.1,p)::rest

/-- A configuration without a default policy leaves it at its zero value. -/
def decodeDefault : Option PolicyJSON → Except String Policy
  | none => .ok {}
  | some json => unmarshalJSON json

/-- The rule tables of `LoadConfig`. Its other steps can only turn the configuration down. -/
def loadTables (conf : Config) : Except String Tables := do
  let defaultPolicy ← decodeDefault conf.defaultPolicy
  let domainPolicies ← decodeRules conf.domainPolicies
  let ipPolicies ← decodeRules conf.ipPolicies
  return {
    defaultPolicy
    domainMatcher := domainTable domainPolicies
    hostsMatcher := domainTable conf.hosts
    ipMatcher := ipTable IPTrie.ipv4 (fun s => !isIPv6 s) ipPolicies
    ipv6Matcher := ipTable IPTrie.ipv6 isIPv6 ipPolicies}

section Tables

variable {α τ : Type} {P : α → Prop}

/-- What every accepted entry preserves holds of the whole table. -/
theorem foldl_addOrSkip {add : τ → Str → α → Except String τ} {Inv : τ → Prop}
    (hadd : ∀ {table table' pattern v}, add table pattern v = .ok table' → Inv table → P v →
      Inv table')
    {es : List (Str × α)} (hes : ∀ e ∈ es, P e.2) {table : τ} (h : Inv table) :
    Inv (es.foldl (addOrSkip add) table) := by
  induction es generalizing table with
  | nil => exact h
  | cons e es ih =>
    refine ih (fun x hx => hes x (List.mem_cons_of_mem e hx)) ?_
    rw [addOrSkip]
    split
    · rename_i hok
      exact hadd hok h (hes e List.mem_cons_self)
    · exact h

theorem entries_all {rules : List (Str × α)} (h : ∀ e ∈ rules, P e.2) :
    ∀ e ∈ entries rules, P e.2 := by
  intro e he
  obtain ⟨rule,hrule,hmem⟩ := List.mem_flatMap.mp he
  obtain ⟨pattern,-,rfl⟩ := List.mem_map.mp hmem
  exact h rule hrule

theorem domainTable_all {rules : List (Str × α)} (h : ∀ e ∈ rules, P e.2) :
    (domainTable rules).All P :=
  foldl_addOrSkip DomainMatcher.add_all (entries_all h) DomainMatcher.LabelNode.All.empty

theorem ipTable_all {family : IPTrie.Family} {mine : Str → Bool} {rules : List (Str × α)}
    (h : ∀ e ∈ rules, P e.2) : (ipTable family mine rules).All P :=
  foldl_addOrSkip IPTrie.insert_all (fun e he => entries_all h e (List.mem_filter.mp he).1)
    IPTrie.BitNode.All.empty

end Tables

theorem decodeRules_wellTimed {rules : List (Str × PolicyJSON)} {out : List (Str × Policy)}
    (h : decodeRules rules = .ok out) : ∀ e ∈ out, WellTimed e.2 := by
  induction rules generalizing out with
  | nil => simp [← Except.ok.inj h]
  | cons rule rules ih =>
    obtain ⟨p,hp,h⟩ := except_bind_ok h
    obtain ⟨rest,hrest,h⟩ := except_bind_ok h
    rw [← Except.ok.inj h]
    intro e he
    rcases List.mem_cons.mp he with rfl | he
    · exact unmarshalJSON_wellTimed hp
    · exact ih hrest e he

/-- Every rule of a loaded configuration. -/
def RulesAre (P : Policy → Prop) (t : Tables) : Prop :=
  t.domainMatcher.All P ∧ t.ipMatcher.All P ∧ t.ipv6Matcher.All P

theorem loadTables_wellTimed {conf : Config} {t : Tables} (h : loadTables conf = .ok t) :
    RulesAre WellTimed t := by
  obtain ⟨defaultPolicy,-,h⟩ := except_bind_ok h
  obtain ⟨domainPolicies,hdomain,h⟩ := except_bind_ok h
  obtain ⟨ipPolicies,hip,h⟩ := except_bind_ok h
  rw [← Except.ok.inj h]
  have hrules := decodeRules_wellTimed hip
  refine ⟨domainTable_all (decodeRules_wellTimed hdomain),?_,?_⟩
  · dsimp only
    exact ipTable_all hrules
  · dsimp only
    exact ipTable_all hrules

section Complete

variable {σ : Type} {t : Tables} {w : World σ} {req : Request} {s : σ}

theorem RulesAre.getIPPolicy {P : Policy → Prop} (h : RulesAre P t) {ip : Str} {q : Policy}
    (hq : getIPPolicy t ip = some q) : P q := by
  rw [GenPolicy.getIPPolicy] at hq
  split at hq
  · exact IPTrie.find_all h.2.2 hq
  · exact IPTrie.find_all h.2.1 hq

theorem RulesAre.domainRule {P : Policy → Prop} (h : RulesAre P t) {q : Policy}
    (hq : domainRule t req = some q) : P q := DomainMatcher.find_all h.1 hq

/-- The rules that apply to a request are rules of the configuration. -/
theorem RulesAre.applies {P : Policy → Prop} (h : RulesAre P t) {rules : List Policy}
    (happ : Applies t w req s rules) : ∀ q ∈ rules, P q := by
  intro q hq
  cases happ with
  | address => exact h.getIPPolicy (Option.mem_toList.mp hq)
  | name => exact h.domainRule (Option.mem_toList.mp hq)
  | redirected _ _ _ _ hip =>
    rcases List.mem_append.mp hq with hq | hq
    · exact h.domainRule (Option.mem_toList.mp hq)
    · exact List.mem_singleton.mp hq ▸ h.getIPPolicy hip

/-- A policy that the connection code can use as it is. -/
def Complete (p : Policy) : Prop := p.mode ≠ .unset ∧ p.dnsMode ≠ .unset ∧ 0 < p.connectTimeout

/-- A rule is merged with the default modes, and someone sets the timeout. -/
def Covered (d : Policy) (rules : List Policy) : Prop :=
  (rules ≠ [] ∨ (d.mode ≠ .unset ∧ d.dnsMode ≠ .unset)) ∧
    ((∃ q ∈ rules, q.connectTimeout ≠ unsetInt) ∨ 0 < d.connectTimeout)

theorem firstSet_connectTimeout_pos {rules : List Policy} (h : ∀ q ∈ rules, WellTimed q) (d : ℤ) :
    0 < firstSet unsetInt (rules.map Policy.connectTimeout++[d]) ↔
      (∃ q ∈ rules, q.connectTimeout ≠ unsetInt) ∨ 0 < d := by
  have hd : firstSet unsetInt [d] = d := by
    by_cases hu : d = unsetInt <;> simp [firstSet,hu]
  rw [firstSet_append,hd]
  by_cases hu : firstSet unsetInt (rules.map Policy.connectTimeout) = unsetInt
  · rw [if_pos hu]
    have hall := firstSet_eq_unset.mp hu
    constructor
    · exact .inr
    · rintro (⟨q,hq,hne⟩ | hpos)
      · exact absurd (hall _ (List.mem_map_of_mem hq)) hne
      · exact hpos
  · rw [if_neg hu]
    obtain ⟨q,hq,he⟩ := List.mem_map.mp (firstSet_mem hu)
    rw [← he] at hu ⊢
    have hpos := (h q hq).resolve_left hu
    exact ⟨fun _ => .inl ⟨q,hq,hu⟩,fun _ => hpos⟩

theorem complete_effective {rules : List Policy} (h : ∀ q ∈ rules, WellTimed q) :
    Complete (effective t rules) ↔ Covered t.defaultPolicy rules := by
  cases rules with
  | nil => simp [Complete,Covered,effective,and_assoc]
  | cons q qs =>
    have hpos := firstSet_connectTimeout_pos h t.defaultPolicy.connectTimeout
    have he : effective t (q::qs) = mergePolicies ((q::qs)++[t.defaultPolicy]) := if_neg (by simp)
    have hct : (effective t (q::qs)).connectTimeout =
        firstSet unsetInt ((q::qs).map Policy.connectTimeout++[t.defaultPolicy.connectTimeout]) := by
      rw [he,mergePolicies_connectTimeout,List.map_append]
      rfl
    rw [Complete,Covered,hct,hpos,he]
    simp [mergePolicies_mode_ne_unset,mergePolicies_dnsMode_ne_unset]

theorem domainPolicy_dnsMode_ne_unset :
    (domainPolicy t req).dnsMode ≠ .unset ↔
      domainRule t req ≠ none ∨ t.defaultPolicy.dnsMode ≠ .unset := by
  cases hr : domainRule t req with
  | none => simp [domainPolicy,hr,effective]
  | some q => simp [domainPolicy,hr,effective,mergePolicies_dnsMode_ne_unset]

theorem genPolicy_complete_iff {conf : Config} (hload : loadTables conf = .ok t) (w : World σ)
    (req : Request) (s : σ) :
    ((∀ dstHost p s₁, genPolicy t w req s = (.routed dstHost p,s₁) → Complete p) ∧
        ∀ name, resolvedName t req = some name → (domainPolicy t req).dnsMode ≠ .unset) ↔
      (∀ rules, Applies t w req s rules → Covered t.defaultPolicy rules) ∧
        (resolvedName t req ≠ none →
          domainRule t req ≠ none ∨ t.defaultPolicy.dnsMode ≠ .unset) := by
  have hrules := loadTables_wellTimed hload
  refine and_congr ⟨fun hall rules happ => ?_,fun hall dstHost p s₁ hrun => ?_⟩
    ⟨fun hall hname => ?_,fun hall name hname => ?_⟩
  · obtain ⟨dstHost,s₁,hrun⟩ := happ.routed
    exact (complete_effective (hrules.applies happ)).mp (hall dstHost _ s₁ hrun)
  · obtain ⟨rules,happ,rfl⟩ := genPolicy_routed hrun
    exact (complete_effective (hrules.applies happ)).mpr (hall rules happ)
  · obtain ⟨name,hsome⟩ := Option.ne_none_iff_exists'.mp hname
    exact domainPolicy_dnsMode_ne_unset.mp (hall name hsome)
  · exact domainPolicy_dnsMode_ne_unset.mpr (hall (by simp [hname]))

end Complete

/-- A default policy that sets what a connection needs, and one rule. -/
def smallConfig : Config where
  defaultPolicy := some {
    mode := some (str "direct")
    dnsMode := some (str "prefer_ipv4")
    connectTimeout := some (str "5s")}
  domainPolicies := [(str "*.example.com",{mode := some (str "tls-rf")})]

theorem genPolicy_complete_smallConfig :
    ∃ t, loadTables smallConfig = .ok t ∧
      ∀ dstHost p s₁, genPolicy t (answering [1,2,3,4]) ⟨str "1.2.3.4",true,false⟩ () =
        (.routed dstHost p,s₁) → Complete p := by
  have hload : ∃ t, loadTables smallConfig = .ok t := ⟨_,rfl⟩
  obtain ⟨t,ht⟩ := hload
  have hd : t.defaultPolicy.mode = .direct ∧ t.defaultPolicy.dnsMode = .preferIPv4 ∧
      t.defaultPolicy.connectTimeout = 5*10^9 := by
    rw [← Except.ok.inj ht]
    decide
  refine ⟨t,ht,((genPolicy_complete_iff ht (answering [1,2,3,4])
    ⟨str "1.2.3.4",true,false⟩ ()).mpr ⟨fun rules _ => ?_,fun _ => ?_⟩).1⟩
  · simp [Covered,hd]
  · simp [hd]

/-- Without a default policy, an address without a rule is routed with nothing set, and a
name without a rule is resolved to the text of no address. -/
theorem genPolicy_incomplete :
    ∃ t, loadTables {} = .ok t ∧
      genPolicy t (answering [1,2,3,4]) ⟨str "1.2.3.4",true,false⟩ () =
        (.routed (str "1.2.3.4") {},()) ∧
      genPolicy t (answering [1,2,3,4]) ⟨str "a.b",false,false⟩ () =
        (.routed (str "<nil>") {},()) ∧ ¬ Complete {} :=
  ⟨_,rfl,rfl,rfl,fun h => h.1 rfl⟩

end LoadConfig
end Enimul
