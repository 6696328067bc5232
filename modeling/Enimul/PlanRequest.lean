import Enimul.DNSHijack
import Enimul.GenPolicy

/-! Planning a request.
A request for a fake address is planned for the name behind it. The rule tables give a
destination and a policy; a name without a rule gets a built-in policy instead, which
depends on whether the name is on the GFW list. -/
namespace Enimul
namespace PlanRequest

open GoSlice GoText NetIP Policies GoRun Resolve GenPolicy FakeIP DNSHijack

inductive RequestSource
  | unknown | mobile | socks5 | http
  deriving DecidableEq, Repr

inductive DomainTargetMode
  | resolveDomainTarget | preserveDomainTarget
  deriving DecidableEq, Repr

structure RequestContext where
  source : RequestSource := .unknown
  host : Str
  port : ℤ := 0
  domainTargetMode : DomainTargetMode := .resolveDomainTarget
  deriving DecidableEq, Repr

structure DialPlan where
  source : RequestSource
  originHost : Str
  originPort : ℤ
  recoveredDomain : Str
  matchedDomain : Bool
  matchedIP : Bool
  targetHost : Str := []
  targetPort : ℤ := 0
  policy : Policy := {}
  blocked : Bool
  deriving DecidableEq, Repr

/-- What a request is planned with. A matcher of the GFW list is none before it is loaded,
and so is the cache of resolved addresses when caching is off. -/
structure Runtime (σ : Type) where
  tables : Tables
  world : World σ
  mapLower : Str → Str
  gfwDomainMatcher : Option (DomainMatcher.Matcher Unit)
  gfwBypassMatcher : Option (DomainMatcher.Matcher Unit)
  ipDomainCacheGet : Option (Str → σ → Option Str × σ)

inductive DomainRouteClass
  | plain | rule | gfw
  deriving DecidableEq, Repr

def plainFallbackPolicy : Policy := {mode := .raw}
def gfwFallbackPolicy : Policy := {mode := .tlsRF}

section NAT64

/-- The network of `net.ParseCIDR`, none for an error. -/
def parseCIDR (s : Str) : Option Bytes := do
  let i ← s.findIdx? fun c => c = 47
  let ip ← parseAddr (s.take i)
  let n ← parseNat10 (s.drop (i+1))
  if ip.zone ≠ [] ∨ ip.bitLen < n then none
  else match ip with
    | .invalid => none
    | .v4 b => some (bytesOf 4 (maskBits b n).toNat)
    | .v6 b _ => some (bytesOf 16 (maskBits b n).toNat)

def mapNAT64Addr (ipStr nat64Prefix : Str) : Str × Bool :=
  let nat64Prefix := trimSpace nat64Prefix
  if nat64Prefix = [] then (ipStr,true)
  else match parseIP ipStr with
    | none => (ipStr,true)
    | some ip =>
      match to4 ip with
      | none => (ipStr,false)
      | some ipv4 =>
        match if contains nat64Prefix 47 then parseCIDR nat64Prefix else parseIP nat64Prefix with
        | none => (ipStr,true)
        | some prefixIP =>
          if prefixIP.length ≠ 16 then (ipStr,true) else (ipString (prefixIP.take 12++ipv4),true)

def isNAT64Enabled (p : Policy) : Bool := trimSpace p.nat64Prefix ≠ []

variable {σ : Type} (w : World σ)

def nat64Host (host : Str) (p : Policy) : Run σ Str :=
  if isIPLiteral host then return host
  else withStr ("nat64 resolve " ++ text host) (resolve w p host)

def planNat64 (host : Str) (p : Policy) : Run σ Str :=
  if isNAT64Enabled p then do
    let dstHost ← nat64Host w host p
    match mapNAT64Addr dstHost p.nat64Prefix with
    | (mapped,true) => return mapped
    | (_,false) => fail ("native IPv6 " ++ text dstHost ++ " excluded under NAT64 mode")
  else return host

end NAT64

section Plan

variable {σ : Type} (rt : Runtime σ)

def isGFWDomain (domain : Str) : Bool :=
  match rt.gfwDomainMatcher with
  | none => false
  | some gfwDomainMatcher =>
    if domain = [] then false
    else
      let domain := toLower rt.mapLower domain
      if (rt.gfwBypassMatcher.bind fun m => DomainMatcher.find m domain).isSome then false
      else (DomainMatcher.find gfwDomainMatcher domain).isSome

def classifyDomainRoute (domain : Str) : DomainRouteClass :=
  let domain := toLower rt.mapLower domain
  if domain = [] then .plain
  else if (DomainMatcher.find rt.tables.domainMatcher domain).isSome then .rule
  else if isGFWDomain rt domain then .gfw
  else .plain

def shouldUseFakeIP (domain : Str) : Bool :=
  match classifyDomainRoute rt domain with
  | .rule => true
  | .gfw => true
  | .plain => false

/-- The fake addresses first, then the cache of resolved addresses. -/
def lookupDomainByIP (ip : Str) (now : ℤ) (s : Stores × σ) : (Str × Bool) × Stores × σ :=
  let r := lookupFakeDomainByIP ip now s.1
  if r.1.2 then (r.1,r.2,s.2)
  else match rt.ipDomainCacheGet with
    | none => (([],false),r.2,s.2)
    | some get =>
      if ip = [] then (([],false),r.2,s.2)
      else match get ip s.2 with
        | (some domain,s₂) => ((domain,true),r.2,s₂)
        | (none,s₂) => (([],false),r.2,s₂)

def isFakeIPAddress (stores : Stores) (ip : Str) : Bool :=
  match parseAddr ip with
  | none => false
  | some addr => stores.defaultFakeIPv4Store.cidr.contains addr ||
      stores.defaultFakeIPv6Store.cidr.contains addr

/-- What a request is planned for: the host of the request, or the name behind it. -/
structure Subject where
  recoveredDomain : Str
  planningHost : Str
  isIP : Bool
  deriving DecidableEq, Repr

def subjectOf (host recoveredDomain : Str) : Subject :=
  if recoveredDomain ≠ [] then ⟨recoveredDomain,recoveredDomain,false⟩
  else ⟨[],host,isIPLiteral host⟩

def recoverDomain (host : Str) (now : ℤ) (s : Stores × σ) : Subject × Stores × σ :=
  if isIPLiteral host then
    let r := lookupDomainByIP rt host now s
    (subjectOf host r.1.1,r.2)
  else (subjectOf host [],s)

def matchesDomain (sub : Subject) : Bool :=
  !sub.isIP && (DomainMatcher.find rt.tables.domainMatcher sub.planningHost).isSome

def matchesIP (sub : Subject) : Bool := sub.isIP && (getIPPolicy rt.tables sub.planningHost).isSome

/-- The built-in policies for names without a rule, and whether the name counts as matched. -/
def applyFallback (sub : Subject) (policy : Policy) : Policy × Bool :=
  if !sub.isIP && !matchesDomain rt sub then
    match classifyDomainRoute rt sub.planningHost with
    | .gfw => (mergePolicies [gfwFallbackPolicy,rt.tables.defaultPolicy],true)
    | .plain => (mergePolicies [plainFallbackPolicy,rt.tables.defaultPolicy],false)
    | .rule => (policy,false)
  else (policy,matchesDomain rt sub)

def nat64Step (stores : Stores) (sub : Subject) (dstHost : Str) (policy : Policy) : Run σ Str :=
  if isNAT64Enabled policy ∧ (sub.recoveredDomain ≠ [] ∨ ¬ isFakeIPAddress stores dstHost) then
    planNat64 rt.world dstHost policy
  else return dstHost

def finishPlan (req : RequestContext) (stores : Stores) (sub : Subject) (dstHost : Str)
    (policy : Policy) : Run σ DialPlan := do
  let final := applyFallback rt sub policy
  let targetHost ← nat64Step rt stores sub dstHost final.1
  return {
    source := req.source
    originHost := req.host
    originPort := req.port
    recoveredDomain := sub.recoveredDomain
    matchedDomain := final.2
    matchedIP := matchesIP rt sub ||
      (dstHost ≠ [] && isIPLiteral dstHost && (getIPPolicy rt.tables dstHost).isSome)
    targetHost
    targetPort := if 0 < final.1.port then final.1.port else req.port
    policy := final.1
    blocked := false}

def blockedPlan (req : RequestContext) (sub : Subject) : DialPlan where
  source := req.source
  originHost := req.host
  originPort := req.port
  recoveredDomain := sub.recoveredDomain
  matchedDomain := matchesDomain rt sub
  matchedIP := matchesIP rt sub
  blocked := true

def policyRequest (req : RequestContext) (sub : Subject) : Request where
  originHost := sub.planningHost
  isIP := sub.isIP
  returnWhenDomainNotFound := req.domainTargetMode = .preserveDomainTarget

/-- What follows the decision of `genPolicy`. -/
def planDecision (req : RequestContext) (stores : Stores) (sub : Subject) :
    Decision → Run σ DialPlan
  | .failed => fail "failed to resolve dial plan"
  | .blocked => return blockedPlan rt req sub
  | .domainNotFound => finishPlan rt req stores sub sub.planningHost rt.tables.defaultPolicy
  | .routed dstHost policy => finishPlan rt req stores sub dstHost policy

def planSubject (req : RequestContext) (stores : Stores) (sub : Subject) : Run σ DialPlan := do
  let decision ← call (genPolicy rt.tables rt.world (policyRequest req sub))
  planDecision rt req stores sub decision

def planRequest (req : RequestContext) (now : ℤ) (s : Stores × σ) :
    Except String DialPlan × Stores × σ :=
  if req.host = [] then (.error "request host is empty",s)
  else
    let r := recoverDomain rt req.host now s
    let plan := planSubject rt req r.2.1 r.1 r.2.2
    (plan.1,r.2.1,plan.2)

end Plan

section Results

variable {σ : Type} {rt : Runtime σ} {req : RequestContext} {stores : Stores} {sub : Subject}
variable {plan : DialPlan} {s s₁ : σ}

/-- The policy of a decision that lets the request through. -/
def decidedPolicy (t : Tables) : Decision → Option Policy
  | .routed _ policy => some policy
  | .domainNotFound => some t.defaultPolicy
  | .failed => none
  | .blocked => none

theorem finishPlan_ok {dstHost : Str} {policy : Policy}
    (h : finishPlan rt req stores sub dstHost policy s = (.ok plan,s₁)) :
    plan.blocked = false ∧ plan.recoveredDomain = sub.recoveredDomain ∧
      (plan.policy,plan.matchedDomain) = applyFallback rt sub policy := by
  obtain ⟨targetHost,s₂,-,hret⟩ := bind_ok h
  simp only [pure_run,Prod.mk.injEq,Except.ok.injEq] at hret
  obtain ⟨rfl,-⟩ := hret
  exact ⟨rfl,rfl,rfl⟩

theorem planDecision_ok {decision : Decision}
    (h : planDecision rt req stores sub decision s = (.ok plan,s₁)) :
    (decision = .blocked ∧ plan = blockedPlan rt req sub) ∨
      ∃ policy, decidedPolicy rt.tables decision = some policy ∧ plan.blocked = false ∧
        plan.recoveredDomain = sub.recoveredDomain ∧
        (plan.policy,plan.matchedDomain) = applyFallback rt sub policy := by
  cases decision with
  | failed => simp [planDecision,fail] at h
  | blocked =>
    simp only [planDecision,pure_run,Prod.mk.injEq,Except.ok.injEq] at h
    exact .inl ⟨rfl,h.1.symm⟩
  | domainNotFound => exact .inr ⟨_,rfl,finishPlan_ok h⟩
  | routed dstHost policy => exact .inr ⟨_,rfl,finishPlan_ok h⟩

/-- All the ways in which a plan is made. -/
theorem planSubject_ok (h : planSubject rt req stores sub s = (.ok plan,s₁)) :
    ∃ decision s₂, genPolicy rt.tables rt.world (policyRequest req sub) s = (decision,s₂) ∧
      ((decision = .blocked ∧ plan = blockedPlan rt req sub) ∨
        ∃ policy, decidedPolicy rt.tables decision = some policy ∧ plan.blocked = false ∧
          plan.recoveredDomain = sub.recoveredDomain ∧
          (plan.policy,plan.matchedDomain) = applyFallback rt sub policy) := by
  obtain ⟨decision,s₂,hcall,hplan⟩ := bind_ok h
  simp only [GoRun.call,Prod.mk.injEq,Except.ok.injEq] at hcall
  exact ⟨decision,s₂,Prod.ext hcall.1 hcall.2,planDecision_ok hplan⟩

theorem planRequest_of_ne_nil (h : req.host ≠ []) (now : ℤ) (s : Stores × σ) :
    (planRequest rt req now s).1 = (planSubject rt req (recoverDomain rt req.host now s).2.1
      (recoverDomain rt req.host now s).1 (recoverDomain rt req.host now s).2.2).1 := by
  rw [planRequest,if_neg h]

theorem classifyDomainRoute_eq_rule {domain : Str} :
    classifyDomainRoute rt domain = .rule ↔ toLower rt.mapLower domain ≠ [] ∧
      (DomainMatcher.find rt.tables.domainMatcher (toLower rt.mapLower domain)).isSome = true := by
  unfold classifyDomainRoute
  dsimp only
  split
  · simp_all
  · split
    · simp_all
    · split <;> simp_all

/-- The built-in policies go to names without a rule. -/
theorem applyFallback_of_rule (h : matchesDomain rt sub = true) (policy : Policy) :
    applyFallback rt sub policy = (policy,true) := by
  simp [applyFallback,h]

end Results

end PlanRequest
end Enimul
