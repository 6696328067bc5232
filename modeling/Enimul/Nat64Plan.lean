import Enimul.PlanTarget
import Enimul.PolicyDecode
import Enimul.ResolveHistory

/-! Plans under a NAT64 prefix.
The destination of a request is mapped into the prefix: a literal as it stands, a name after
it has been resolved. The resolver returns nothing but addresses, provided that the records
of the upstream servers have the length of their family and that the cache and the calls in
flight hold what resolutions have put there. -/
namespace Enimul
namespace PlanRequest

open GoSlice GoText NetIP Policies GoRun Resolve ResolveHistory GenPolicy FakeIP DNSHijack

section Resolver

variable {σ : Type} {w : World σ} {I : σ → Prop}

/-- What the resolver shares with the rest of the program yields addresses only, as long as
only addresses are put there. -/
structure HoldsAddresses (w : World σ) (I : σ → Prop) : Prop where
  exchangeMsg : ∀ msg, Ensures I (w.exchangeMsg msg) fun resp => ∀ rr ∈ resp.answer, WellSized rr
  cacheGet : ∀ domain, Ensures I (call (w.cacheGet domain)) fun entry =>
    ∀ ip ∈ entry, isIPLiteral ip = true
  cacheAdd : ∀ domain ip ttl, isIPLiteral ip = true →
    Ensures I (call (w.cacheAdd domain ip ttl)) fun _ => True
  inFlight : ∀ domain, Ensures I (call (w.inFlight domain)) fun result =>
    ∀ ip, result = some (.ok ip) → isIPLiteral ip = true
  getFromIPPool : ∀ tag, Ensures I (w.getFromIPPool tag) fun _ => True

def IsAddress (ip : Bytes) : Prop := ip.length = 4 ∨ ip.length = 16

theorem pickFirstARecord_sized {answer : List RR} (h : ∀ rr ∈ answer, WellSized rr)
    (hne : pickFirstARecord answer ≠ []) : IsAddress (pickFirstARecord answer) := by
  obtain ⟨rr,hmem,hdata⟩ := pickFirstARecord_mem hne
  have hsized := h rr hmem
  simp only [WellSized,hdata] at hsized
  exact .inl (hsized.resolve_left hne)

theorem pickFirstAAAARecord_sized {answer : List RR} (h : ∀ rr ∈ answer, WellSized rr)
    (hne : pickFirstAAAARecord answer ≠ []) : IsAddress (pickFirstAAAARecord answer) := by
  obtain ⟨rr,hmem,hdata⟩ := pickFirstAAAARecord_mem hne
  have hsized := h rr hmem
  simp only [WellSized,hdata] at hsized
  exact .inr (hsized.resolve_left hne)

theorem require_ensures {ip : Bytes} (h : ip ≠ [] → IsAddress ip) (err : String) :
    Ensures I (require ip err : Run σ Bytes) IsAddress := by
  unfold require
  split
  · exact .fail err
  · rename_i hne
    exact .pure (h hne)

variable (hw : HoldsAddresses w I)
include hw

theorem exchangeAnswer_ensures (msg : Msg) :
    Ensures I (exchangeAnswer w msg) fun answer => ∀ rr ∈ answer, WellSized rr := by
  refine .bind ((hw.exchangeMsg msg).withStr _) fun resp hresp => ?_
  split
  · exact .fail _
  · exact .pure hresp

theorem fallback_ensures {pick : List RR → Bytes} (hpick : ∀ answer : List RR,
    (∀ rr ∈ answer, WellSized rr) → pick answer ≠ [] → IsAddress (pick answer))
    (domain : Str) (mode : DNSMode) (qtype : ℕ) :
    Ensures I (fallback w domain mode qtype pick) IsAddress :=
  .bind (exchangeAnswer_ensures hw _) fun answer hanswer => require_ensures (hpick answer hanswer) _

theorem chooseAddress_ensures {mode : DNSMode} (hmode : mode ≠ .unset) (domain : Str)
    {answer : List RR} (h : ∀ rr ∈ answer, WellSized rr) :
    Ensures I (chooseAddress w domain mode answer) IsAddress := by
  cases mode with
  | unset => exact absurd rfl hmode
  | ipv4Only => exact require_ensures (pickFirstARecord_sized h) _
  | ipv6Only => exact require_ensures (pickFirstAAAARecord_sized h) _
  | preferIPv4 =>
    dsimp only [chooseAddress]
    split
    · exact fallback_ensures hw (fun _ => pickFirstAAAARecord_sized) domain _ _
    · rename_i hne
      exact .pure (pickFirstARecord_sized h hne)
  | preferIPv6 =>
    dsimp only [chooseAddress]
    split
    · exact fallback_ensures hw (fun _ => pickFirstARecord_sized) domain _ _
    · rename_i hne
      exact .pure (pickFirstAAAARecord_sized h hne)

theorem remember_ensures {ip : Str} (h : isIPLiteral ip = true) (domain : Str) (ttl : ℤ) :
    Ensures I (remember w domain ip ttl) fun _ => True := by
  unfold remember
  split
  · exact hw.cacheAdd domain ip ttl h
  · exact .pure trivial

theorem doDNSResolve_ensures {mode : DNSMode} (hmode : mode ≠ .unset) (domain : Str) (ttl : ℤ) :
    Ensures I (doDNSResolve w domain mode ttl) fun ip => isIPLiteral ip = true := by
  refine .bind (exchangeAnswer_ensures hw _) fun answer hanswer => ?_
  refine .bind (chooseAddress_ensures hw hmode domain hanswer) fun ip hip => ?_
  have hliteral := isIPLiteral_ipString hip
  exact .bind (remember_ensures hw hliteral domain ttl) fun _ _ => .pure hliteral

/-- A resolution in a set mode returns an address. -/
theorem dnsResolve_ensures {mode : DNSMode} (hmode : mode ≠ .unset) (domain : Str) (ttl : ℤ) :
    Ensures I (dnsResolve w domain mode ttl) fun r => isIPLiteral r.1 = true := by
  have hcached : Ensures I (cached w domain) fun entry => ∀ ip ∈ entry, isIPLiteral ip = true := by
    unfold cached
    split
    · exact hw.cacheGet domain
    · exact .pure (by simp)
  refine .bind hcached fun entry hentry => ?_
  cases entry with
  | some ip => exact .pure (hentry ip rfl)
  | none =>
    refine .bind (hw.inFlight domain) fun result hresult => ?_
    match result with
    | some (.ok ip) => exact .pure (hresult ip rfl)
    | some (.error err) => exact .fail err
    | none => exact .bind (doDNSResolve_ensures hw hmode domain ttl) fun ip hip => .pure hip

theorem resolve_ensures {p : Policy} (hmode : p.dnsMode ≠ .unset) (name : Str) :
    Ensures I (resolve w p name) fun ip => isIPLiteral ip = true :=
  .bind (dnsResolve_ensures hw hmode name _) fun _ h => .pure h

end Resolver

section Routing

variable {σ : Type} {t : Tables} {w : World σ} {I : σ → Prop}

theorem effective_dnsMode (hmode : t.defaultPolicy.dnsMode ≠ .unset) (rules : List Policy) :
    (effective t rules).dnsMode ≠ .unset := by
  unfold effective
  split
  · exact hmode
  · exact mergePolicies_dnsMode_ne_unset _

variable (hw : HoldsAddresses w I) (hmode : t.defaultPolicy.dnsMode ≠ .unset)
include hw

theorem redirectTarget_ensures (ip : Str) (rule : Policy) :
    Ensures I (redirectTarget w ip rule) fun _ => True := by
  unfold redirectTarget
  split
  · exact .pure trivial
  · split
    · exact hw.getFromIPPool _
    · split
      · exact .ofExcept fun _ _ => trivial
      · exact .pure trivial

theorem ipRedirect_ensures (ip : Str) : Ensures I (ipRedirect t w ip) fun _ => True := by
  unfold ipRedirect
  split
  · exact .pure trivial
  · exact .bind (redirectTarget_ensures hw _ _) fun _ _ => .pure trivial

theorem selectDestination_ensures {p : Policy} (hp : p.dnsMode ≠ .unset) (origin host : Str) :
    Ensures I (selectDestination w p origin host) fun _ => True := by
  unfold selectDestination
  split
  · exact (resolve_ensures hw hp _).mono fun _ _ => trivial
  · split
    · exact .pure trivial
    · split
      · exact hw.getFromIPPool _
      · exact .pure trivial

theorem destination_ensures {p : Policy} (hp : p.dnsMode ≠ .unset) (c : HostChoice)
    (req : Request) : Ensures I (destination w p c req) fun _ => True := by
  have hselect := selectDestination_ensures hw hp req.originHost c.selectedHost
  have horigin : Ensures I (resolveOrigin w p req.originHost c.selectedHost) fun _ => True := by
    refine .bind (resolve_ensures hw hp _) fun answer _ => ?_
    split
    · exact hselect
    · exact .pure trivial
  unfold destination
  split
  · exact .pure trivial
  · dsimp only
    split
    · exact .bind horigin fun _ _ => .pure trivial
    · exact .bind hselect fun _ _ => .pure trivial

theorem redirectDomain_keeps {s : σ} (hs : I s) (rule : Option Policy) (p : Policy) (host : Str) :
    I (redirectDomain t w rule p host s).2 := by
  have hkept := (ipRedirect_ensures (t := t) hw host s hs).1
  unfold redirectDomain
  split <;> simp_all

include hmode

/-- Routing a request keeps the invariant of the resolver. -/
theorem genPolicy_keeps {s : σ} (hs : I s) (req : Request) : I (genPolicy t w req s).2 := by
  have hip := (ipRedirect_ensures (t := t) hw req.originHost s hs).1
  have hp : (domainPolicy t req).dnsMode ≠ .unset := effective_dnsMode hmode _
  have hdst := (destination_ensures hw hp (hostChoice t req) req s hs).1
  unfold genPolicy
  split
  · unfold genIPPolicy
    split <;> simp_all
  · unfold genDomainPolicy
    split
    · exact hs
    · unfold routeDomain
      split
      · rename_i hrun
        rwa [hrun] at hdst
      · rename_i hrun
        rwa [hrun] at hdst
      · rename_i hrun
        rw [hrun] at hdst
        split
        · exact hdst
        · exact redirectDomain_keeps hw hdst _ _ _

end Routing

section Mapping

/-- The network of a policy's NAT64 prefix, as it is parsed. -/
def nat64Network (p : Policy) : Option Bytes :=
  let nat64Prefix := trimSpace p.nat64Prefix
  if contains nat64Prefix 47 then parseCIDR nat64Prefix else parseIP nat64Prefix

/-- The prefix is an address or a network of IPv6 outside the range of mapped addresses. -/
def HasNAT64Prefix (p : Policy) (net : Bytes) : Prop :=
  nat64Network p = some net ∧ net.length = 16 ∧ to4 net = none

theorem HasNAT64Prefix.enabled {p : Policy} {net : Bytes} (h : HasNAT64Prefix p net) :
    isNAT64Enabled p = true := by
  have hne : trimSpace p.nat64Prefix ≠ [] := by
    intro hnil
    have hnet := h.1
    rw [nat64Network,hnil] at hnet
    cases hnet
  simp [isNAT64Enabled,hne]

/-- The upper part of an IPv6 address decides whether it stands for an IPv4 address. -/
theorem to4_take_append {net ipv4 : Bytes} (hnet : net.length = 16) (hto4 : to4 net = none)
    (hlen : ipv4.length = 4) : to4 (net.take 12++ipv4) = none := by
  have hlength : (net.take 12++ipv4).length = 16 := by simp [hnet,hlen]
  have htake : (net.take 12++ipv4).take 12 = net.take 12 := by simp [hnet]
  unfold to4 at hto4 ⊢
  rw [hlength,htake]
  rw [hnet] at hto4
  split at hto4
  · cases hto4
  · split at hto4
    · cases hto4
    · simp_all

theorem mapNAT64Addr_literal {host : Str} {p : Policy} {net ip ipv4 : Bytes}
    (hnet : HasNAT64Prefix p net) (hip : parseIP host = some ip) (hto4 : to4 ip = some ipv4) :
    mapNAT64Addr host p.nat64Prefix = (ipString (net.take 12++ipv4),true) := by
  have hne : trimSpace p.nat64Prefix ≠ [] := by simpa [isNAT64Enabled] using hnet.enabled
  have hnetwork := hnet.1
  unfold nat64Network at hnetwork
  dsimp only at hnetwork
  unfold mapNAT64Addr
  dsimp only
  rw [if_neg hne,hip]
  dsimp only
  rw [hto4]
  dsimp only
  rw [hnetwork]
  dsimp only
  rw [if_neg (by simp [hnet.2.1])]

theorem mapNAT64Addr_native {host : Str} {p : Policy} {ip : Bytes} (hp : isNAT64Enabled p = true)
    (hip : parseIP host = some ip) (hto4 : to4 ip = none) :
    mapNAT64Addr host p.nat64Prefix = (host,false) := by
  have hne : trimSpace p.nat64Prefix ≠ [] := by simpa [isNAT64Enabled] using hp
  unfold mapNAT64Addr
  dsimp only
  rw [if_neg hne,hip]
  dsimp only
  rw [hto4]

end Mapping

section Plan

variable {σ : Type} (rt : Runtime σ)

/-- The destination is a fake address that no domain is recovered for. -/
def Routing.Missed (r : Routing σ) (stores : Stores) : Prop :=
  r.sub.recoveredDomain = [] ∧ isFakeIPAddress stores r.dstHost = true

/-- The destination that is to be mapped: the literal that the rules have chosen, or the
address that a name is resolved to. -/
def nat64Destination (req : RequestContext) (now : ℤ) (s : Stores × σ) : Option Str :=
  (routing rt req now s).bind fun r =>
    (nat64Host rt.world r.dstHost r.policy r.state).1.toOption

def destinationIPv4 (req : RequestContext) (now : ℤ) (s : Stores × σ) : Option Bytes :=
  ((nat64Destination rt req now s).bind parseIP).bind to4

/-- The request is planned with a NAT64 prefix, and not for a missed fake address. -/
structure PlannedUnder (req : RequestContext) (now : ℤ) (s : Stores × σ) (plan : DialPlan)
    (net : Bytes) : Prop where
  planned : (planRequest rt req now s).1 = .ok plan
  unblocked : plan.blocked = false
  network : HasNAT64Prefix plan.policy net
  notMissed : ∀ r, routing rt req now s = some r → ¬ r.Missed s.1

/-- The runtime keeps the invariant of its resolver. -/
structure KeepsAddresses (rt : Runtime σ) (I : σ → Prop) : Prop where
  world : HoldsAddresses rt.world I
  ipDomainCacheGet : ∀ get ∈ rt.ipDomainCacheGet, ∀ ip s, I s → I (get ip s).2
  defaultMode : rt.tables.defaultPolicy.dnsMode ≠ .unset

variable {rt} {req : RequestContext} {now : ℤ} {s : Stores × σ} {I : σ → Prop}

theorem Routing.target_of_not_missed {r : Routing σ} (hroute : routing rt req now s = some r)
    (hp : isNAT64Enabled r.policy = true) (hmissed : ¬ r.Missed s.1) :
    r.target rt = planNat64 rt.world r.dstHost r.policy r.state := by
  obtain ⟨-,w,hrec,-,-⟩ := routing_ok hroute
  have hfake := isFakeIPAddress_recoverDomain rt req.host r.dstHost now s
  rw [hrec] at hfake
  have hreal : r.sub.recoveredDomain ≠ [] ∨ ¬ isFakeIPAddress r.stores r.dstHost := by
    rw [hfake]
    exact not_and_or.mp hmissed
  rw [Routing.target,nat64Step,if_pos ⟨hp,hreal⟩]

/-- A request whose NAT64 step fails is not planned. -/
theorem planRequest_of_target {r : Routing σ} (hroute : routing rt req now s = some r)
    {err : String} {w : σ} (htarget : r.target rt = (.error err,w)) :
    ∃ err, (planRequest rt req now s).1 = .error err := by
  cases hplan : planRequest rt req now s with
  | mk result s' =>
  cases result with
  | error err' => exact ⟨err',rfl⟩
  | ok plan =>
    rcases planRequest_cases hplan with ⟨-,hnone⟩ | ⟨r',w',hroute',-,-,htarget'⟩
    · rw [hroute] at hnone
      cases hnone
    · obtain rfl : r = r' := Option.some.inj (hroute.symm.trans hroute')
      rw [htarget] at htarget'
      cases htarget'

theorem applyFallback_dnsMode (sub : Subject) {p : Policy} (hp : p.dnsMode ≠ .unset) :
    (applyFallback rt sub p).1.dnsMode ≠ .unset := by
  unfold applyFallback
  split
  · split
    · exact mergePolicies_dnsMode_ne_unset _
    · exact mergePolicies_dnsMode_ne_unset _
    · exact hp
  · exact hp

theorem recoverDomain_keeps (hrt : KeepsAddresses rt I) (hs : I s.2) (host : Str) (now : ℤ) :
    I (recoverDomain rt host now s).2.2 := by
  unfold recoverDomain
  split
  · unfold lookupDomainByIP
    dsimp only
    split
    · exact hs
    · cases hget : rt.ipDomainCacheGet with
      | none => exact hs
      | some get =>
        have hkept := hrt.ipDomainCacheGet get hget host s.2 hs
        dsimp only
        split
        · exact hs
        · cases hfound : get host s.2 with
          | mk found s₂ =>
            rw [hfound] at hkept
            cases found <;> exact hkept
  · exact hs

/-- The policy of a routing has a DNS mode, and its state has the invariant. -/
theorem routing_keeps (hrt : KeepsAddresses rt I) (hs : I s.2) {r : Routing σ}
    (h : routing rt req now s = some r) : r.policy.dnsMode ≠ .unset ∧ I r.state := by
  obtain ⟨decision,w,hrec,hgen,hdecision⟩ := routing_ok h
  have hw := recoverDomain_keeps hrt hs req.host now
  rw [hrec] at hw
  have hstate := genPolicy_keeps hrt.world hrt.defaultMode hw (policyRequest req r.sub)
  rw [hgen] at hstate
  refine ⟨?_,hstate⟩
  rcases hdecision with ⟨-,-,hpolicy⟩ | ⟨p,rfl,hpolicy⟩
  · rw [hpolicy]
    exact applyFallback_dnsMode _ hrt.defaultMode
  · obtain ⟨rules,-,rfl⟩ := genPolicy_routed hgen
    rw [hpolicy]
    exact applyFallback_dnsMode _ (effective_dnsMode hrt.defaultMode rules)

theorem parseIP_of_isIPLiteral {host : Str} (h : isIPLiteral host = true) :
    ∃ ip, parseIP host = some ip := by
  unfold isIPLiteral at h
  split at h
  · rename_i a ha
    exact ⟨a.as16,by simp_all [parseIP]⟩
  · cases h

theorem nat64Host_literal (hw : HoldsAddresses rt.world I) {p : Policy} (hp : p.dnsMode ≠ .unset)
    {w w' : σ} (hs : I w) {host dstHost : Str}
    (h : nat64Host rt.world host p w = (.ok dstHost,w')) : isIPLiteral dstHost = true := by
  unfold nat64Host at h
  split at h
  · rename_i hliteral
    simp only [pure_run,Prod.mk.injEq,Except.ok.injEq] at h
    exact h.1 ▸ hliteral
  · exact (((resolve_ensures hw hp host).withStr _) w hs).2 dstHost (congrArg Prod.fst h)

theorem nat64Destination_eq {r : Routing σ} (hroute : routing rt req now s = some r) {dstHost : Str}
    {w : σ} (h : nat64Host rt.world r.dstHost r.policy r.state = (.ok dstHost,w)) :
    nat64Destination rt req now s = some dstHost := by
  rw [nat64Destination,hroute,Option.bind_some,h]
  rfl

/-- A plan under a prefix goes to the destination's IPv4 address behind the prefix. -/
theorem PlannedUnder.target {plan : DialPlan} {net : Bytes} (hrt : KeepsAddresses rt I)
    (hs : I s.2) (h : PlannedUnder rt req now s plan net) :
    ∃ ipv4, destinationIPv4 rt req now s = some ipv4 ∧ ipv4.length = 4 ∧
      plan.targetHost = ipString (net.take 12++ipv4) := by
  obtain ⟨r,w,hroute,hpolicy,-,htarget⟩ := planRequest_ok (Prod.ext h.planned rfl) h.unblocked
  have hnet := h.network
  rw [hpolicy] at hnet
  rw [Routing.target_of_not_missed hroute hnet.enabled (h.notMissed r hroute)] at htarget
  obtain ⟨dstHost,w₂,hdst,hmapped⟩ := planNat64_ok hnet.enabled htarget
  obtain ⟨hmode,hstate⟩ := routing_keeps hrt hs hroute
  obtain ⟨ip,hip⟩ := parseIP_of_isIPLiteral (nat64Host_literal hrt.world hmode hstate hdst)
  cases hto4 : to4 ip with
  | none =>
    rw [mapNAT64Addr_native hnet.enabled hip hto4] at hmapped
    cases (Prod.mk.inj hmapped).2
  | some ipv4 =>
    rw [mapNAT64Addr_literal hnet hip hto4] at hmapped
    refine ⟨ipv4,?_,length_of_to4 hto4,(Prod.mk.inj hmapped).1.symm⟩
    rw [destinationIPv4,nat64Destination_eq hroute hdst,Option.bind_some,hip,Option.bind_some,hto4]

/-- A plan under a NAT64 prefix has an IPv6 literal as its target, the prefix in front and the
destination's IPv4 address behind it, so that different IPv4 addresses have different targets.
A request for a native IPv6 address fails. -/
theorem nat64_plans (hrt : KeepsAddresses rt I) :
    (∀ req now s plan net, I s.2 → PlannedUnder rt req now s plan net →
      ∃ ipv4, destinationIPv4 rt req now s = some ipv4 ∧ IsIPv6Literal plan.targetHost ∧
        parseIP plan.targetHost = some (net.take 12++ipv4)) ∧
    (∀ req now s r net dstHost ip, routing rt req now s = some r → HasNAT64Prefix r.policy net →
      ¬ r.Missed s.1 → nat64Destination rt req now s = some dstHost → parseIP dstHost = some ip →
      to4 ip = none → ∃ err, (planRequest rt req now s).1 = .error err) ∧
    ∀ req₁ now₁ s₁ plan₁ net₁ req₂ now₂ s₂ plan₂ net₂, I s₁.2 → I s₂.2 →
      PlannedUnder rt req₁ now₁ s₁ plan₁ net₁ → PlannedUnder rt req₂ now₂ s₂ plan₂ net₂ →
      destinationIPv4 rt req₁ now₁ s₁ ≠ destinationIPv4 rt req₂ now₂ s₂ →
      plan₁.targetHost ≠ plan₂.targetHost := by
  have hinside (req now s plan net) (hs : I s.2) (h : PlannedUnder rt req now s plan net) :
      ∃ ipv4, destinationIPv4 rt req now s = some ipv4 ∧ IsIPv6Literal plan.targetHost ∧
        parseIP plan.targetHost = some (net.take 12++ipv4) := by
    obtain ⟨ipv4,hdst,hlen,htarget⟩ := h.target hrt hs
    have hlength : (net.take 12++ipv4).length = 16 := by simp [h.network.2.1,hlen]
    have hto4 := to4_take_append h.network.2.1 h.network.2.2 hlen
    have hliteral : IsIPv6Literal (ipString (net.take 12++ipv4)) := by
      rw [ipString_of_to4_none hlength hto4]
      exact ⟨_,parseAddr_string6 _⟩
    rw [htarget]
    exact ⟨ipv4,hdst,hliteral,parseIP_ipString hlength hto4⟩
  refine ⟨hinside,?_,?_⟩
  · intro req now s r net dstHost ip hroute hnet hmissed hdst hip hto4
    rw [nat64Destination,hroute,Option.bind_some] at hdst
    cases hhost : nat64Host rt.world r.dstHost r.policy r.state with
    | mk result w =>
    rw [hhost] at hdst
    cases result with
    | error err => cases hdst
    | ok found =>
      obtain rfl := Option.some.inj hdst
      have htarget : r.target rt =
          (.error ("native IPv6 " ++ text found ++ " excluded under NAT64 mode"),w) := by
        rw [Routing.target_of_not_missed hroute hnet.enabled hmissed,planNat64,
          if_pos hnet.enabled,bind_of_ok hhost,mapNAT64Addr_native hnet.enabled hip hto4]
        rfl
      exact planRequest_of_target hroute htarget
  · intro req₁ now₁ s₁ plan₁ net₁ req₂ now₂ s₂ plan₂ net₂ hs₁ hs₂ h₁ h₂ hne heq
    obtain ⟨ipv4₁,hdst₁,-,hbytes₁⟩ := hinside req₁ now₁ s₁ plan₁ net₁ hs₁ h₁
    obtain ⟨ipv4₂,hdst₂,-,hbytes₂⟩ := hinside req₂ now₂ s₂ plan₂ net₂ hs₂ h₂
    rw [heq,hbytes₂] at hbytes₁
    have hbytes := Option.some.inj hbytes₁
    have hdrop := congrArg (List.drop 12) hbytes
    simp [h₁.network.2.1,h₂.network.2.1] at hdrop
    exact hne (by rw [hdst₁,hdst₂,hdrop])

end Plan

section Histories

/-- The answers that can be shared are addresses. -/
structure OnlyAddresses (s : State) : Prop where
  cache : ∀ domain mode ip, s.cache domain = some (mode,ip) → isIPLiteral ip = true
  resolutions : ∀ r ∈ s.resolutions, ∀ ip, r.result = .ok ip → isIPLiteral ip = true

theorem OnlyAddresses.cacheAdd {s : State} (h : OnlyAddresses s) {ip : Str}
    (hip : isIPLiteral ip = true) (domain : Str) (mode : DNSMode) :
    OnlyAddresses {s with cache := Function.update s.cache domain (some (mode,ip))} := by
  refine ⟨fun domain' mode' ip' hentry => ?_,h.resolutions⟩
  dsimp only at hentry
  by_cases hd : domain' = domain
  · subst hd
    rw [Function.update_self] at hentry
    obtain ⟨-,rfl⟩ := Prod.mk.inj (Option.some.inj hentry)
    exact hip
  · rw [Function.update_of_ne hd] at hentry
    exact h.cache domain' mode' ip' hentry

/-- The cache of the program and its calls in flight hold addresses. -/
theorem call_holdsAddresses (c : ResolveHistory.Call) : HoldsAddresses c.world OnlyAddresses where
  exchangeMsg msg := .ofExcept (c.upstream.wellSized msg)
  cacheGet domain := by
    refine .call fun s hs => ⟨hs,fun ip hip => ?_⟩
    obtain ⟨⟨mode,ip'⟩,hentry,rfl⟩ := Option.map_eq_some_iff.mp hip
    unfold ResolveHistory.Call.cacheEntry at hentry
    split at hentry
    · exact hs.cache domain mode ip' hentry
    · cases hentry
  cacheAdd domain ip ttl hip := .call fun s hs => ⟨hs.cacheAdd hip domain c.mode,trivial⟩
  inFlight domain := by
    refine .call fun s hs => ⟨hs,fun ip hip => ?_⟩
    obtain ⟨r,hflight,hresult⟩ := Option.map_eq_some_iff.mp hip
    rw [ResolveHistory.Call.flight,Option.filter_eq_some_iff] at hflight
    obtain ⟨i,-,hi⟩ := Option.bind_eq_some_iff.mp hflight.1
    exact hs.resolutions r (List.mem_of_getElem? hi) ip hresult
  getFromIPPool tag := .fail _

theorem onlyAddresses_start : OnlyAddresses {} where
  cache := by simp
  resolutions := by simp

end Histories

/-- One rule, a prefix for everything and an upstream that knows all names. -/
def mapsAll : Runtime State where
  tables := {oneRule.tables with
    defaultPolicy := {mode := .raw, dnsMode := .preferIPv4, nat64Prefix := str "64:ff9b::/96"}}
  world := (⟨str "a.c",.preferIPv4,0,dualStack,true,none⟩ : ResolveHistory.Call).world
  mapLower := id
  gfwDomainMatcher := none
  gfwBypassMatcher := none
  ipDomainCacheGet := none

theorem mapsAll_keepsAddresses : KeepsAddresses mapsAll OnlyAddresses where
  world := call_holdsAddresses _
  ipDomainCacheGet := by simp [mapsAll]
  defaultMode := by decide

/-- A name that is kept until the NAT64 step. -/
def keptName : RequestContext := {host := str "a.c", domainTargetMode := .preserveDomainTarget}

theorem keptName_plannedUnder :
    ∃ plan, PlannedUnder mapsAll keptName 0 ({},{}) plan
      [0,0x64,0xff,0x9b,0,0,0,0,0,0,0,0,0,0,0,0] := by
  refine ⟨_,rfl,rfl,⟨rfl,rfl,rfl⟩,?_⟩
  intro r hr hmissed
  have hroute : (routing mapsAll keptName 0 ({},{})).map Routing.dstHost = some (str "a.c") := rfl
  rw [hr] at hroute
  have hfake := hmissed.2
  rw [Option.some.inj hroute] at hfake
  cases hfake

theorem nat64_plans_mapsAll :
    ∃ plan net ipv4, PlannedUnder mapsAll keptName 0 ({},{}) plan net ∧
      destinationIPv4 mapsAll keptName 0 ({},{}) = some ipv4 ∧
      parseIP plan.targetHost = some (net.take 12++ipv4) := by
  obtain ⟨plan,hplan⟩ := keptName_plannedUnder
  obtain ⟨ipv4,hdst,-,hbytes⟩ :=
    (nat64_plans mapsAll_keepsAddresses).1 _ _ _ _ _ onlyAddresses_start hplan
  exact ⟨plan,_,ipv4,hplan,hdst,hbytes⟩

section Off

open PolicyDecode

/-- The decoder writes no prefix down for a rule that switches NAT64 off. -/
theorem nat64Prefix_of_off {tmp : PolicyJSON} {rule : Policy}
    (off : tmp.nat64Prefix = some (str "off") ∨ tmp.nat64Prefix = some [])
    (h : unmarshalJSON tmp = .ok rule) : rule.nat64Prefix = [] := by
  rw [(unmarshalJSON_ok h).2.2]
  cases off with
  | inl h => rw [h]; decide
  | inr h => rw [h]; decide

/-- A rule that switches NAT64 off does so only under a default policy without a prefix: the merge
takes its value for a missing one. -/
theorem nat64_off_disables_iff {tmp : PolicyJSON} {rule : Policy} (default : Policy)
    (off : tmp.nat64Prefix = some (str "off") ∨ tmp.nat64Prefix = some [])
    (h : unmarshalJSON tmp = .ok rule) :
    isNAT64Enabled (mergePolicies [rule,default]) = false ↔
      trimSpace default.nat64Prefix = [] := by
  have merged : (mergePolicies [rule,default]).nat64Prefix = default.nat64Prefix := by
    simp [mergePolicies,overlay,mergeStart,fillFrom,fill,nat64Prefix_of_off off h]
  simp [isNAT64Enabled,merged]

theorem nat64_off_disables_iff_bare :
    isNAT64Enabled (mergePolicies [{mergeStart with mode := .raw},{}]) = false :=
  (nat64_off_disables_iff {} (.inl rfl)
    (show unmarshalJSON {mode := some (str "raw"), nat64Prefix := some (str "off")} =
      .ok {mergeStart with mode := .raw} from rfl)).mpr rfl

/-- A rule with `"off"` keeps the prefix of the default policy. -/
theorem nat64_off_keeps_default_prefix :
    let tmp : PolicyJSON := {nat64Prefix := some (str "off")}
    let default : Policy := {nat64Prefix := str "64:ff9b::/96"}
    ∃ rule, unmarshalJSON tmp = .ok rule ∧
      isNAT64Enabled (mergePolicies [rule,default]) = true ∧
      (mergePolicies [rule,default]).nat64Prefix = str "64:ff9b::/96" :=
  ⟨_,rfl,by decide,by decide⟩

end Off

end PlanRequest
end Enimul
