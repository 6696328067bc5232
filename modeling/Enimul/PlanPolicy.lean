import Enimul.PlanRecovery
import Enimul.PolicyDecode
import Enimul.PolicyFields

/-! The policy of a plan.
The rules that apply to a request give it a policy. A name with a rule keeps it; for a name
without one the built-in policy of its route takes its place, with the default policy below
and with the zero values of its own fields on top. -/
namespace Enimul
namespace PlanRequest

open GoSlice GoText NetIP Policies PolicyDecode GoRun Resolve GenPolicy FakeIP DNSHijack

section Policy

variable {σ : Type} {rt : Runtime σ} {req : RequestContext} {now : ℤ} {s : Stores × σ}
variable {plan : DialPlan} {sub : Subject} {stores : Stores} {w : σ}

/-- The rules behind the policy of a plan. Without a destination there are none. -/
theorem planRequest_policy (hplan : (planRequest rt req now s).1 = .ok plan)
    (hblocked : plan.blocked = false) (hsub : recoverDomain rt req.host now s = (sub,stores,w)) :
    ∃ rules, plan.policy = (applyFallback rt sub (effective rt.tables rules)).1 ∧
      (Applies rt.tables rt.world (policyRequest req sub) w rules ∨ (rules = [] ∧
        ∃ w₁, genPolicy rt.tables rt.world (policyRequest req sub) w = (.domainNotFound,w₁))) := by
  have hne : req.host ≠ [] := by
    intro hnil
    simp [planRequest,hnil] at hplan
  rw [planRequest_of_ne_nil hne,hsub] at hplan
  obtain ⟨decision,w₁,hdecision,⟨-,rfl⟩ | ⟨policy,hpolicy,-,-,hfinal⟩⟩ :=
    planSubject_ok (Prod.ext hplan rfl)
  · simp [blockedPlan] at hblocked
  have hplanned : plan.policy = (applyFallback rt sub policy).1 := congrArg Prod.fst hfinal
  cases decision with
  | failed => simp [decidedPolicy] at hpolicy
  | blocked => simp [decidedPolicy] at hpolicy
  | domainNotFound =>
    obtain rfl := Option.some.inj hpolicy
    exact ⟨[],hplanned,.inr ⟨rfl,w₁,hdecision⟩⟩
  | routed dstHost p =>
    obtain rfl := Option.some.inj hpolicy
    obtain ⟨rules,happ,rfl⟩ := genPolicy_routed hdecision
    exact ⟨rules,hplanned,.inl happ⟩

/-- The policy that takes over for a name without a rule. -/
def builtinPolicy : DomainRouteClass → Option Policy
  | .plain => some plainFallbackPolicy
  | .gfw => some gfwFallbackPolicy
  | .rule => none

theorem applyFallback_no_rule (hip : sub.isIP = false)
    (hrule : DomainMatcher.find rt.tables.domainMatcher sub.planningHost = none) (policy : Policy) :
    (applyFallback rt sub policy).1 =
      match builtinPolicy (classifyDomainRoute rt sub.planningHost) with
      | some builtin => mergePolicies [builtin,rt.tables.defaultPolicy]
      | none => policy := by
  have hmatch : matchesDomain rt sub = false := by simp [matchesDomain,hrule]
  rw [applyFallback,hip,hmatch]
  cases classifyDomainRoute rt sub.planningHost <;> rfl

theorem isIP_of_isIPRequest (h : isIPRequest (policyRequest req sub) = false) : sub.isIP = false := by
  have hno : ¬(sub.isIP = true ∨ isIPLiteral sub.planningHost = true) := of_decide_eq_false h
  exact Bool.eq_false_iff.mpr fun hip => hno (.inl hip)

/-- The destination of a name, before any redirect. -/
def plannedDestination (rt : Runtime σ) (req : RequestContext) (sub : Subject) : Run σ (Option Str) :=
  destination rt.world (domainPolicy rt.tables (policyRequest req sub))
    (hostChoice rt.tables (policyRequest req sub)) (policyRequest req sub)

/-- The plan for a name that has a destination. -/
theorem planRequest_of_destination (hplan : (planRequest rt req now s).1 = .ok plan)
    (hblocked : plan.blocked = false) (hsub : recoverDomain rt req.host now s = (sub,stores,w))
    (hname : isIPRequest (policyRequest req sub) = false) {host : Str} {w₁ : σ}
    (hd : plannedDestination rt req sub w = (.ok (some host),w₁)) :
    plan.policy = (applyFallback rt sub (effective rt.tables
      ((domainRule rt.tables (policyRequest req sub)).toList++
        ipRules rt.tables (policyRequest req sub) host))).1 := by
  obtain ⟨rules,hpolicy,happ | ⟨-,w₂,hnone⟩⟩ := planRequest_policy hplan hblocked hsub
  · obtain ⟨host',w',hd',rfl⟩ := happ.of_name hname
    have hsome := congrArg Prod.fst (hd'.symm.trans hd)
    obtain rfl : host' = host := Option.some.inj (Except.ok.inj hsome)
    exact hpolicy
  · obtain ⟨-,-,hd'⟩ := genPolicy_domainNotFound hnone
    have hsome := congrArg Prod.fst (hd'.symm.trans hd)
    simp at hsome

/-- A name without a rule, and a destination with one: the fields that this rule sets have its
values if and only if no built-in policy takes over, or one that happens to agree. -/
theorem planRequest_ip_rule_iff (hplan : (planRequest rt req now s).1 = .ok plan)
    (hblocked : plan.blocked = false) (hsub : recoverDomain rt req.host now s = (sub,stores,w))
    (hname : isIPRequest (policyRequest req sub) = false)
    (hrule : domainRule rt.tables (policyRequest req sub) = none) {host : Str} {w₁ : σ}
    (hd : plannedDestination rt req sub w = (.ok (some host),w₁))
    (hno : (hostChoice rt.tables (policyRequest req sub)).noRedirect = false) {R : Policy}
    (hR : getIPPolicy rt.tables host = some R) :
    Honours R plan.policy ↔
      ∀ builtin, builtinPolicy (classifyDomainRoute rt sub.planningHost) = some builtin →
        Coincides builtin rt.tables.defaultPolicy R := by
  have hpolicy := planRequest_of_destination hplan hblocked hsub hname hd
  rw [applyFallback_no_rule (isIP_of_isIPRequest hname) hrule] at hpolicy
  have hrules : effective rt.tables ((domainRule rt.tables (policyRequest req sub)).toList++
      ipRules rt.tables (policyRequest req sub) host) =
      mergePolicies [R,rt.tables.defaultPolicy] := by
    simp [hrule,ipRules,hno,hR,effective]
  rw [hpolicy,hrules]
  cases builtinPolicy (classifyDomainRoute rt sub.planningHost) with
  | none =>
    refine ⟨fun _ builtin hb => by simp at hb,fun _ => honours_merge R _⟩
  | some builtin =>
    rw [honours_merge_iff]
    exact ⟨fun h b hb => Option.some.inj hb ▸ h,fun h => h builtin rfl⟩

/-- A rule that gives every address a port. -/
def portRule : Policy := {mergeStart with mode := .direct, port := 8443}

/-- The rule for the name a.b, the rule for all addresses, and a default policy. -/
def addressRule : Runtime Unit :=
  {oneRule with tables := {oneRule.tables with
    defaultPolicy := {mergeStart with dnsMode := .preferIPv4}
    ipMatcher := IPTrie.BitNode.empty.setValue portRule}}

theorem planRequest_ip_rule_kept :
    ∃ plan, (planRequest addressRule {host := str "A.b"} 0 ({},())).1 = .ok plan ∧
      Honours portRule plan.policy := by
  have hplan : ∃ plan, (planRequest addressRule {host := str "A.b"} 0 ({},())).1 = .ok plan ∧
      plan.blocked = false := ⟨_,rfl,rfl⟩
  obtain ⟨plan,hplan,hblocked⟩ := hplan
  have hsub : recoverDomain addressRule (str "A.b") 0 ({},()) = (⟨[],str "A.b",false⟩,{},()) := rfl
  have hclass : classifyDomainRoute addressRule (str "A.b") = .rule := by decide
  refine ⟨plan,hplan,(planRequest_ip_rule_iff hplan hblocked hsub rfl rfl rfl rfl rfl).mpr ?_⟩
  simp [hclass,builtinPolicy]

theorem planRequest_drops_ip_rule :
    ∃ plan, (planRequest addressRule {host := str "c.d"} 0 ({},())).1 = .ok plan ∧
      plan.blocked = false ∧ plan.matchedIP = true ∧ plan.targetHost = str "1.2.3.4" ∧
      getIPPolicy addressRule.tables (str "1.2.3.4") = some portRule ∧
      portRule.port = 8443 ∧ plan.policy.port = 0 ∧ portRule.mode = .direct ∧
      plan.policy.mode = .raw := by
  exact ⟨_,rfl,rfl,rfl,rfl,rfl,rfl,rfl,rfl,rfl⟩

/-- The mode that goes with a name. -/
def builtinMode (rt : Runtime σ) (name : Str) : Mode := if isGFWDomain rt name then .tlsRF else .raw

theorem builtinMode_ne_unset (rt : Runtime σ) (name : Str) : builtinMode rt name ≠ .unset := by
  rw [builtinMode]
  split <;> simp

/-- The zero timeout of a built-in policy counts as set. -/
theorem builtin_connectTimeout {c : DomainRouteClass} {builtin : Policy}
    (h : builtinPolicy c = some builtin) (default : Policy) :
    (mergePolicies [builtin,default]).connectTimeout = 0 := by
  have hzero : builtin.connectTimeout = 0 := by
    cases c with
    | rule => simp [builtinPolicy] at h
    | plain => exact Option.some.inj h ▸ rfl
    | gfw => exact Option.some.inj h ▸ rfl
  simp [mergePolicies_connectTimeout,firstSet,hzero,unsetInt]

theorem merge_connectTimeout_ne_zero {p : Policy} (h : WellTimed p) :
    (mergePolicies [p]).connectTimeout ≠ 0 := by
  have hmerge : (mergePolicies [p]).connectTimeout = p.connectTimeout := by
    by_cases hu : p.connectTimeout = unsetInt <;> simp [mergePolicies_connectTimeout,firstSet,hu]
  rw [hmerge]
  rcases h with hu | hpos
  · simp [hu,unsetInt]
  · exact hpos.ne'

/-- A name to which no rule applies: its policy is the default policy with another mode only
where no built-in policy takes over and the default policy has that mode already. -/
theorem planRequest_builtin_iff (hplan : (planRequest rt req now s).1 = .ok plan)
    (hblocked : plan.blocked = false) (hsub : recoverDomain rt req.host now s = (sub,stores,w))
    (hname : isIPRequest (policyRequest req sub) = false)
    (hrule : domainRule rt.tables (policyRequest req sub) = none)
    (hip : ∀ host w₁, plannedDestination rt req sub w = (.ok (some host),w₁) →
      ipRules rt.tables (policyRequest req sub) host = [])
    {tmp : PolicyJSON} (hD : unmarshalJSON tmp = .ok rt.tables.defaultPolicy) :
    plan.policy = {mergePolicies [rt.tables.defaultPolicy] with
        mode := builtinMode rt sub.planningHost} ↔
      classifyDomainRoute rt sub.planningHost = .rule ∧ rt.tables.defaultPolicy.dnsMode ≠ .unset ∧
        rt.tables.defaultPolicy.mode = builtinMode rt sub.planningHost := by
  have hpolicy : plan.policy = (applyFallback rt sub rt.tables.defaultPolicy).1 := by
    obtain ⟨rules,hpolicy,happ | ⟨rfl,-⟩⟩ := planRequest_policy hplan hblocked hsub
    · obtain ⟨host,w₁,hd,rfl⟩ := happ.of_name hname
      rw [hpolicy,hrule,hip host w₁ hd]
      rfl
    · exact hpolicy
  rw [applyFallback_no_rule (isIP_of_isIPRequest hname) hrule] at hpolicy
  constructor
  · intro h
    cases hb : builtinPolicy (classifyDomainRoute rt sub.planningHost) with
    | some builtin =>
      have hmerged : plan.policy = mergePolicies [builtin,rt.tables.defaultPolicy] := by
        rw [hpolicy,hb]
      have hzero := builtin_connectTimeout hb rt.tables.defaultPolicy
      rw [← hmerged,h] at hzero
      exact absurd hzero (merge_connectTimeout_ne_zero (unmarshalJSON_wellTimed hD))
    | none =>
      rw [hb] at hpolicy
      refine ⟨?_,?_,?_⟩
      · cases hc : classifyDomainRoute rt sub.planningHost <;> simp [hc,builtinPolicy] at hb ⊢
      · have hdns := congrArg Policy.dnsMode (hpolicy.symm.trans h)
        rw [hdns]
        exact mergePolicies_dnsMode_ne_unset _
      · exact congrArg Policy.mode (hpolicy.symm.trans h)
  · rintro ⟨hclass,hdns,hmode⟩
    have hset : rt.tables.defaultPolicy.mode ≠ .unset := hmode ▸ builtinMode_ne_unset rt _
    rw [hpolicy,hclass,mergePolicies_singleton (unmarshalJSON_minorVer hD) hset hdns,← hmode]
    rfl

/-- A default policy with a connect timeout and no other field but the two modes. -/
def timeoutJSON : PolicyJSON :=
  {connectTimeout := some (str "5s"), mode := some (str "raw"), dnsMode := some (str "prefer_ipv4")}

def timeoutPolicy : Policy :=
  {mergeStart with connectTimeout := 5*second, mode := .raw, dnsMode := .preferIPv4}

/-- The rule for the name a.b and that default policy. -/
def timeoutDefault : Runtime Unit :=
  {oneRule with tables := {oneRule.tables with defaultPolicy := timeoutPolicy}}

theorem planRequest_default_kept :
    ∃ plan, (planRequest timeoutDefault {host := str "A.b"} 0 ({},())).1 = .ok plan ∧
      plan.policy = {mergePolicies [timeoutPolicy] with mode := .raw} := by
  have hplan : ∃ plan, (planRequest timeoutDefault {host := str "A.b"} 0 ({},())).1 = .ok plan ∧
      plan.blocked = false := ⟨_,rfl,rfl⟩
  obtain ⟨plan,hplan,hblocked⟩ := hplan
  have hsub : recoverDomain timeoutDefault (str "A.b") 0 ({},()) = (⟨[],str "A.b",false⟩,{},()) := rfl
  have hip : ∀ host w₁, plannedDestination timeoutDefault {host := str "A.b"} ⟨[],str "A.b",false⟩ () =
      (.ok (some host),w₁) → ipRules timeoutDefault.tables
        (policyRequest {host := str "A.b"} ⟨[],str "A.b",false⟩) host = [] := by
    intro host w₁ hd
    obtain rfl : str "1.2.3.4" = host := Option.some.inj (Except.ok.inj (congrArg Prod.fst hd))
    rfl
  have hD : unmarshalJSON timeoutJSON = .ok timeoutDefault.tables.defaultPolicy := by rfl
  refine ⟨plan,hplan,(planRequest_builtin_iff hplan hblocked hsub rfl rfl hip hD).mpr ⟨?_,?_,?_⟩⟩
  · decide
  · decide
  · decide

theorem planRequest_drops_default :
    ∃ plan, unmarshalJSON timeoutJSON = .ok timeoutPolicy ∧
      (planRequest timeoutDefault {host := str "c.d"} 0 ({},())).1 = .ok plan ∧
      plan.blocked = false ∧ plan.matchedDomain = false ∧ plan.matchedIP = false ∧
      timeoutPolicy.connectTimeout = 5*second ∧ plan.policy.connectTimeout = 0 := by
  exact ⟨_,rfl,rfl,rfl,rfl,rfl,rfl,rfl⟩

/-- The entry that names the host of a request: the host of its policy or, failing that, its
entry in the hosts table. -/
def selectedEntry (t : Tables) (p : Policy) (name : Str) : Str :=
  if p.host ∈ [[],unsetString,noRedirectPrefix,noRedirectPrefix++unsetString] then
    (DomainMatcher.find t.hostsMatcher name).getD []
  else p.host

theorem stripNoRedirect_unset {host : Str} :
    (stripNoRedirect host = [] ∨ stripNoRedirect host = unsetString) ↔
      host ∈ [[],unsetString,noRedirectPrefix,noRedirectPrefix++unsetString] := by
  have hcaret : noRedirectPrefix = [94] := rfl
  match host with
  | [] => simp [stripNoRedirect]
  | c::rest =>
    by_cases hc : c = 94
    · have hstrip : stripNoRedirect (94::rest) = rest := rfl
      simp [hstrip,hcaret,hc,unsetString]
    · have hstrip : stripNoRedirect (c::rest) = c::rest := by
        simp [stripNoRedirect,hasPrefix,hcaret,Ne.symm hc]
      simp [hstrip,hcaret,hc,unsetString]

theorem chooseHost_noRedirect (t : Tables) (p : Policy) (name : Str) :
    (chooseHost t p name).noRedirect = hasPrefix (selectedEntry t p name) noRedirectPrefix := by
  by_cases h : stripNoRedirect p.host = [] ∨ stripNoRedirect p.host = unsetString
  · rw [chooseHost,if_pos h,selectedEntry,if_pos (stripNoRedirect_unset.mp h)]
  · rw [chooseHost,if_neg h,selectedEntry,if_neg fun hmem => h (stripNoRedirect_unset.mpr hmem)]

/-- The same program with other lists. -/
def withLists (rt : Runtime σ) (gfw bypass : Option (DomainMatcher.Matcher Unit)) : Runtime σ :=
  {rt with gfwDomainMatcher := gfw, gfwBypassMatcher := bypass}

/-- The lists have no say in the plan of a name with a rule. -/
theorem planSubject_withLists (hmatch : matchesDomain rt sub = true)
    (gfw bypass : Option (DomainMatcher.Matcher Unit)) :
    planSubject (withLists rt gfw bypass) req stores sub = planSubject rt req stores sub := by
  have hmatch' : matchesDomain (withLists rt gfw bypass) sub = true := hmatch
  have hfinish : finishPlan (withLists rt gfw bypass) req stores sub = finishPlan rt req stores sub := by
    funext dstHost policy
    rw [finishPlan,finishPlan,applyFallback_of_rule hmatch,applyFallback_of_rule hmatch']
    rfl
  have hdecision : planDecision (withLists rt gfw bypass) req stores sub =
      planDecision rt req stores sub := by
    funext decision
    cases decision with
    | failed => rfl
    | blocked => rfl
    | domainNotFound => exact congrFun (congrFun hfinish _) _
    | routed dstHost policy => exact congrFun (congrFun hfinish _) _
  rw [planSubject,hdecision]
  rfl

theorem isIP_of_recoverDomain (hsub : recoverDomain rt req.host now s = (sub,stores,w))
    (hlit : isIPLiteral sub.planningHost = false) : sub.isIP = false := by
  have hof : ∀ domain, sub = subjectOf req.host domain → sub.isIP = false := by
    rintro domain rfl
    rw [subjectOf] at hlit ⊢
    split
    · rfl
    · rename_i hnil
      rw [if_neg hnil] at hlit
      exact hlit
  rw [recoverDomain] at hsub
  split at hsub
  · exact hof _ (Prod.mk.inj hsub).1.symm
  · exact hof _ (Prod.mk.inj hsub).1.symm

/-- A name with a rule: each field comes from the first of its rule, the rule of its
destination and the default policy that sets it, and the GFW list does not matter. -/
theorem planRequest_domain_rule (hmode : req.domainTargetMode = .resolveDomainTarget)
    (hplan : (planRequest rt req now s).1 = .ok plan) (hblocked : plan.blocked = false)
    (hsub : recoverDomain rt req.host now s = (sub,stores,w))
    (hlit : isIPLiteral sub.planningHost = false) {R : Policy}
    (hR : DomainMatcher.find rt.tables.domainMatcher sub.planningHost = some R) :
    (∃ host w₁, plannedDestination rt req sub w = (.ok (some host),w₁) ∧
      IsLayered ([R]++(if hasPrefix (selectedEntry rt.tables (mergePolicies
            [R,rt.tables.defaultPolicy]) sub.planningHost) noRedirectPrefix then []
          else (getIPPolicy rt.tables host).toList)++[rt.tables.defaultPolicy]) plan.policy) ∧
      ∀ gfw bypass, planRequest (withLists rt gfw bypass) req now s = planRequest rt req now s := by
  have hip := isIP_of_recoverDomain hsub hlit
  have hname : isIPRequest (policyRequest req sub) = false := by
    simp [isIPRequest,policyRequest,hip,hlit]
  have hmatch : matchesDomain rt sub = true := by simp [matchesDomain,hip,hR]
  have hrule : domainRule rt.tables (policyRequest req sub) = some R := hR
  have hpolicy : domainPolicy rt.tables (policyRequest req sub) =
      mergePolicies [R,rt.tables.defaultPolicy] := by simp [domainPolicy,hrule,effective]
  constructor
  · obtain ⟨rules,hplanned,happ | ⟨-,w₁,hnone⟩⟩ := planRequest_policy hplan hblocked hsub
    · obtain ⟨host,w₁,hd,rfl⟩ := happ.of_name hname
      refine ⟨host,w₁,hd,isLayered_iff.mpr ?_⟩
      rw [hplanned,applyFallback_of_rule hmatch,hrule,ipRules,hostChoice,chooseHost_noRedirect,hpolicy]
      rfl
    · have hret := (genPolicy_domainNotFound hnone).2.1
      simp [policyRequest,hmode] at hret
  · intro gfw bypass
    have hrecover : recoverDomain (withLists rt gfw bypass) req.host now s = (sub,stores,w) := hsub
    rw [planRequest,planRequest,hrecover,hsub]
    dsimp only
    rw [planSubject_withLists hmatch]

theorem planRequest_domain_rule_direct :
    ∃ plan, (planRequest addressRule {host := str "a.b"} 0 ({},())).1 = .ok plan ∧
      IsLayered [directRule,portRule,addressRule.tables.defaultPolicy] plan.policy := by
  have hplan : ∃ plan, (planRequest addressRule {host := str "a.b"} 0 ({},())).1 = .ok plan ∧
      plan.blocked = false := ⟨_,rfl,rfl⟩
  obtain ⟨plan,hplan,hblocked⟩ := hplan
  have hsub : recoverDomain addressRule (str "a.b") 0 ({},()) = (⟨[],str "a.b",false⟩,{},()) := rfl
  have hR : DomainMatcher.find addressRule.tables.domainMatcher (str "a.b") = some directRule := rfl
  obtain ⟨⟨host,w₁,hd,hlayers⟩,-⟩ :=
    planRequest_domain_rule rfl hplan hblocked hsub (by decide) hR
  obtain rfl : str "1.2.3.4" = host := Option.some.inj (Except.ok.inj (congrArg Prod.fst hd))
  exact ⟨plan,hplan,hlayers⟩

/-- One rule, for all names. -/
def starRule : Runtime Unit :=
  {oneRule with tables := {oneRule.tables with
    domainMatcher := DomainMatcher.newDomainMatcher.setValues directRule true false}}

/-- A query for a name that looks like an address. -/
def literalStep : Step :=
  .query {question := [⟨str "1.2.3.4.",typeA,classINET⟩]} (.ok {}) (shouldUseFakeIP starRule)

/-- Behind such a name the rule is found, and is not applied. -/
theorem planRequest_literal_name :
    ∃ s plan, runStep id 0 {} literalStep =
        .ok ([⟨typeA,str "1.2.3.4",str "198.18.0.1",60*second⟩],s) ∧
      (planRequest starRule {host := str "198.18.0.1"} second (s,())).1 = .ok plan ∧
      plan.recoveredDomain = str "1.2.3.4" ∧ plan.matchedDomain = true ∧ plan.blocked = false ∧
      DomainMatcher.find starRule.tables.domainMatcher (str "1.2.3.4") = some directRule ∧
      directRule.mode = .direct ∧ plan.policy.mode = .raw := by
  exact ⟨_,_,rfl,rfl,rfl,rfl,rfl,rfl,rfl,rfl⟩

end Policy

end PlanRequest
end Enimul
