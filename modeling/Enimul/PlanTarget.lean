import Enimul.PlanRecovery

/-! Where the target of a plan comes from.
A plan is made for the destination that the rules give, and the NAT64 step may map it. The
target is the host of the request itself or an address that the configuration, a pool or the
resolver has supplied. A fake address without a mapping is planned like any other. -/
namespace Enimul
namespace PlanRequest

open GoSlice GoText NetIP Policies GoRun Resolve GenPolicy FakeIP DNSHijack

section Routing

variable {σ : Type} (rt : Runtime σ)

/-- The destination of a request before the NAT64 step, and the policy of its plan. -/
structure Routing (σ : Type) where
  sub : Subject
  stores : Stores
  dstHost : Str
  policy : Policy
  state : σ

/-- The routing that a decision of the rules gives, none if it ends the request. -/
def routingOf (stores : Stores) (sub : Subject) (decision : Decision) (w : σ) :
    Option (Routing σ) :=
  match decision with
  | .failed => none
  | .blocked => none
  | .domainNotFound =>
    some ⟨sub,stores,sub.planningHost,(applyFallback rt sub rt.tables.defaultPolicy).1,w⟩
  | .routed dstHost p => some ⟨sub,stores,dstHost,(applyFallback rt sub p).1,w⟩

/-- The routing of a request, none if it fails or is blocked. -/
def routing (req : RequestContext) (now : ℤ) (s : Stores × σ) : Option (Routing σ) :=
  let (sub,stores,w) := recoverDomain rt req.host now s
  let (decision,w') := genPolicy rt.tables rt.world (policyRequest req sub) w
  routingOf rt stores sub decision w'

/-- The NAT64 step of a routing. -/
def Routing.target (r : Routing σ) : Except String Str × σ :=
  nat64Step rt r.stores r.sub r.dstHost r.policy r.state

variable {rt} {req : RequestContext} {now : ℤ} {s s' : Stores × σ} {plan : DialPlan}

theorem finishPlan_target {stores : Stores} {sub : Subject} {dstHost : Str} {policy : Policy}
    {w w' : σ} (h : finishPlan rt req stores sub dstHost policy w = (.ok plan,w')) :
    plan.policy = (applyFallback rt sub policy).1 ∧
      ∃ w₁, nat64Step rt stores sub dstHost (applyFallback rt sub policy).1 w =
        (.ok plan.targetHost,w₁) := by
  obtain ⟨targetHost,w₁,hstep,hret⟩ := bind_ok h
  simp only [pure_run,Prod.mk.injEq,Except.ok.injEq] at hret
  obtain ⟨rfl,-⟩ := hret
  exact ⟨rfl,w₁,hstep⟩

/-- A plan is blocked without a routing, or has the target of its routing. -/
theorem planRequest_cases (h : planRequest rt req now s = (.ok plan,s')) :
    (plan.blocked = true ∧ routing rt req now s = none) ∨
      ∃ r w, routing rt req now s = some r ∧ plan.policy = r.policy ∧
        plan.recoveredDomain = r.sub.recoveredDomain ∧ r.target rt = (.ok plan.targetHost,w) := by
  have hne : req.host ≠ [] := by
    intro hnil
    simp [planRequest,hnil] at h
  have hplan := congrArg Prod.fst h
  rw [planRequest_of_ne_nil hne] at hplan
  obtain ⟨decision,w₁,hcall,hdecide⟩ := bind_ok (Prod.ext hplan rfl)
  simp only [GoRun.call,Prod.mk.injEq,Except.ok.injEq] at hcall
  have hroute : routing rt req now s = routingOf rt (recoverDomain rt req.host now s).2.1
      (recoverDomain rt req.host now s).1 decision w₁ := by
    rw [routing,← hcall.1,← hcall.2]
  cases decision with
  | failed => simp [planDecision,fail] at hdecide
  | blocked =>
    simp only [planDecision,pure_run,Prod.mk.injEq,Except.ok.injEq] at hdecide
    exact .inl ⟨hdecide.1 ▸ rfl,hroute⟩
  | domainNotFound =>
    obtain ⟨hpolicy,w₂,hstep⟩ := finishPlan_target hdecide
    exact .inr ⟨_,w₂,hroute,hpolicy,(finishPlan_ok hdecide).2.1,hstep⟩
  | routed dstHost p =>
    obtain ⟨hpolicy,w₂,hstep⟩ := finishPlan_target hdecide
    exact .inr ⟨_,w₂,hroute,hpolicy,(finishPlan_ok hdecide).2.1,hstep⟩

theorem planRequest_ok (h : planRequest rt req now s = (.ok plan,s')) (hb : plan.blocked = false) :
    ∃ r w, routing rt req now s = some r ∧ plan.policy = r.policy ∧
      plan.recoveredDomain = r.sub.recoveredDomain ∧ r.target rt = (.ok plan.targetHost,w) := by
  rcases planRequest_cases h with ⟨hblocked,-⟩ | hrouted
  · rw [hb] at hblocked
    cases hblocked
  · exact hrouted

end Routing

section Source

variable {σ : Type}

/-- What else than the request a destination can come from. -/
inductive Supplied (t : Tables) (w : World σ) : Str → Prop
  | mapTo {ip : Str} {rule : Policy} (h : getIPPolicy t ip = some rule) : Supplied t w rule.mapTo
  | network {ip dstHost : Str} {rule : Policy} (h : getIPPolicy t ip = some rule)
      (hto : transformIP ip rule.mapTo = .ok dstHost) : Supplied t w dstHost
  | pool {tag dstHost : Str} {s s₁ : σ} (h : w.getFromIPPool tag s = (.ok dstHost,s₁)) :
      Supplied t w dstHost
  | host (req : Request) : Supplied t w (hostChoice t req).selectedHost
  | resolved {name dstHost : Str} {p : Policy} {s s₁ : σ}
      (h : resolve w p name s = (.ok dstHost,s₁)) : Supplied t w dstHost
  | mapped {host nat64Prefix dstHost : Str} (h : mapNAT64Addr host nat64Prefix = (dstHost,true))
      (hne : dstHost ≠ host) : Supplied t w dstHost

variable {t : Tables} {w : World σ} {req : Request} {s s₁ : σ} {dstHost : Str}

theorem redirectTarget_source {ip : Str} {rule : Policy} (hrule : getIPPolicy t ip = some rule)
    (h : redirectTarget w ip rule s = (.ok dstHost,s₁)) : dstHost = ip ∨ Supplied t w dstHost := by
  unfold redirectTarget at h
  split at h
  · simp only [pure_run,Prod.mk.injEq,Except.ok.injEq] at h
    exact .inl h.1.symm
  · split at h
    · exact .inr (.pool h)
    · split at h
      · exact .inr (.network hrule (congrArg Prod.fst h))
      · simp only [pure_run,Prod.mk.injEq,Except.ok.injEq] at h
        exact .inr (h.1 ▸ .mapTo hrule)

theorem ipRedirect_source {ip : Str} {policy : Option Policy}
    (h : ipRedirect t w ip s = (.ok (dstHost,policy),s₁)) :
    dstHost = ip ∨ Supplied t w dstHost := by
  cases hrule : getIPPolicy t ip with
  | none =>
    rw [ipRedirect_none hrule] at h
    simp only [Prod.mk.injEq,Except.ok.injEq] at h
    exact .inl h.1.1.symm
  | some rule =>
    simp only [ipRedirect,hrule] at h
    obtain ⟨mapTo,s₂,hto,hret⟩ := bind_ok h
    simp only [pure_run,Prod.mk.injEq,Except.ok.injEq] at hret
    exact hret.1.1 ▸ redirectTarget_source hrule hto

theorem selectDestination_source {p : Policy}
    (h : selectDestination w p req.originHost (hostChoice t req).selectedHost s =
      (.ok dstHost,s₁)) : dstHost = req.originHost ∨ Supplied t w dstHost := by
  unfold selectDestination at h
  split at h
  · exact .inr (.resolved h)
  · split at h
    · simp only [pure_run,Prod.mk.injEq,Except.ok.injEq] at h
      exact .inl h.1.symm
    · split at h
      · exact .inr (.pool h)
      · simp only [pure_run,Prod.mk.injEq,Except.ok.injEq] at h
        exact .inr (h.1 ▸ .host req)

theorem resolveOrigin_source {p : Policy}
    (h : resolveOrigin w p req.originHost (hostChoice t req).selectedHost s = (.ok dstHost,s₁)) :
    dstHost = req.originHost ∨ Supplied t w dstHost := by
  obtain ⟨answer,s₂,hresolve,hrest⟩ := bind_ok h
  split at hrest
  · exact selectDestination_source hrest
  · simp only [pure_run,Prod.mk.injEq,Except.ok.injEq] at hrest
    exact .inr (.resolved (hrest.1 ▸ hresolve))

theorem destination_source {p : Policy}
    (h : destination w p (hostChoice t req) req s = (.ok (some dstHost),s₁)) :
    dstHost = req.originHost ∨ Supplied t w dstHost := by
  unfold destination at h
  split at h
  · simp at h
  · dsimp only at h
    split at h
    · obtain ⟨host,s₂,hhost,hret⟩ := bind_ok h
      simp only [pure_run,Prod.mk.injEq,Except.ok.injEq,Option.some.injEq] at hret
      exact hret.1 ▸ resolveOrigin_source hhost
    · obtain ⟨host,s₂,hhost,hret⟩ := bind_ok h
      simp only [pure_run,Prod.mk.injEq,Except.ok.injEq,Option.some.injEq] at hret
      exact hret.1 ▸ selectDestination_source hhost

theorem checkBlock_host {host : Str} {p q : Policy} (h : checkBlock host q = .routed dstHost p) :
    dstHost = host := by
  rw [checkBlock] at h
  split at h
  · cases h
  · exact (Decision.routed.inj h).1.symm

theorem redirectDomain_source {rule : Option Policy} {host : Str} {p₀ p : Policy}
    (h : redirectDomain t w rule p₀ host s = (.routed dstHost p,s₁)) :
    dstHost = host ∨ Supplied t w dstHost := by
  rw [redirectDomain] at h
  split at h
  · cases (Prod.mk.inj h).1
  · rename_i hr
    rw [← (Decision.routed.inj (Prod.mk.inj h).1).1]
    exact ipRedirect_source hr
  · rename_i hr
    rw [checkBlock_host (Prod.mk.inj h).1]
    exact ipRedirect_source hr

theorem genDomainPolicy_source {p : Policy}
    (h : genDomainPolicy t w req s = (.routed dstHost p,s₁)) :
    dstHost = req.originHost ∨ Supplied t w dstHost := by
  rw [genDomainPolicy] at h
  split at h
  · cases (Prod.mk.inj h).1
  cases hd : destination w (domainPolicy t req) (hostChoice t req) req s with
  | mk r s₂ =>
  rw [hd] at h
  rcases r with _ | _ | host
  · cases (Prod.mk.inj h).1
  · cases (Prod.mk.inj h).1
  · rw [routeDomain] at h
    have hhost := destination_source hd
    split at h
    · rw [← (Decision.routed.inj (Prod.mk.inj h).1).1]
      exact hhost
    · rcases redirectDomain_source h with rfl | hsupplied
      · exact hhost
      · exact .inr hsupplied

/-- A routed request goes to its own host or to an address that was supplied. -/
theorem genPolicy_source {p : Policy} (h : genPolicy t w req s = (.routed dstHost p,s₁)) :
    dstHost = req.originHost ∨ Supplied t w dstHost := by
  rw [genPolicy] at h
  split at h
  · rw [genIPPolicy] at h
    split at h
    · cases (Prod.mk.inj h).1
    · rename_i hr
      rw [checkBlock_host (Prod.mk.inj h).1]
      exact ipRedirect_source hr
  · exact genDomainPolicy_source h

theorem planNat64_ok {host : Str} {p : Policy} (hp : isNAT64Enabled p = true)
    (h : planNat64 w host p s = (.ok dstHost,s₁)) :
    ∃ answer s₂, nat64Host w host p s = (.ok answer,s₂) ∧
      mapNAT64Addr answer p.nat64Prefix = (dstHost,true) := by
  rw [planNat64,if_pos hp] at h
  obtain ⟨answer,s₂,hanswer,hmap⟩ := bind_ok h
  rcases hmapped : mapNAT64Addr answer p.nat64Prefix with ⟨mapped,_ | _⟩
  · rw [hmapped] at hmap
    cases (Prod.mk.inj hmap).1
  · rw [hmapped] at hmap
    simp only [pure_run,Prod.mk.injEq,Except.ok.injEq] at hmap
    exact ⟨answer,s₂,hanswer,hmap.1 ▸ hmapped⟩

theorem nat64Host_source {host : Str} {p : Policy} (h : nat64Host w host p s = (.ok dstHost,s₁)) :
    dstHost = host ∨ Supplied t w dstHost := by
  unfold nat64Host at h
  split at h
  · simp only [pure_run,Prod.mk.injEq,Except.ok.injEq] at h
    exact .inl h.1.symm
  · exact .inr (.resolved (withStr_ok h))

theorem planNat64_source {host : Str} {p : Policy} (hp : isNAT64Enabled p = true)
    (h : planNat64 w host p s = (.ok dstHost,s₁)) : dstHost = host ∨ Supplied t w dstHost := by
  obtain ⟨answer,s₂,hanswer,hmapped⟩ := planNat64_ok hp h
  rcases eq_or_ne dstHost answer with rfl | hne
  · exact nat64Host_source hanswer
  · exact .inr (.mapped hmapped hne)

theorem nat64Step_source {rt : Runtime σ} {stores : Stores} {sub : Subject} {host : Str}
    {p : Policy} (h : nat64Step rt stores sub host p s = (.ok dstHost,s₁)) :
    dstHost = host ∨ Supplied rt.tables rt.world dstHost := by
  unfold nat64Step at h
  split at h
  · rename_i hp
    exact planNat64_source hp.1 h
  · simp only [pure_run,Prod.mk.injEq,Except.ok.injEq] at h
    exact .inl h.1.symm

end Source

section Fake

variable {σ : Type} {rt : Runtime σ} {req : RequestContext} {now : ℤ} {s s' : Stores × σ}
variable {plan : DialPlan}

/-- What a routing is made of. -/
theorem routing_ok {r : Routing σ} (h : routing rt req now s = some r) :
    ∃ decision w, recoverDomain rt req.host now s = (r.sub,r.stores,w) ∧
      genPolicy rt.tables rt.world (policyRequest req r.sub) w = (decision,r.state) ∧
      ((decision = .domainNotFound ∧ r.dstHost = r.sub.planningHost ∧
          r.policy = (applyFallback rt r.sub rt.tables.defaultPolicy).1) ∨
        ∃ p, decision = .routed r.dstHost p ∧ r.policy = (applyFallback rt r.sub p).1) := by
  rw [routing] at h
  rcases hrec : recoverDomain rt req.host now s with ⟨sub,stores,w⟩
  rcases hgen : genPolicy rt.tables rt.world (policyRequest req sub) w with ⟨decision,w'⟩
  rw [hrec] at h
  dsimp only at h
  rw [hgen] at h
  cases decision with
  | failed => cases h
  | blocked => cases h
  | domainNotFound =>
    cases h
    exact ⟨_,w,rfl,hgen,.inl ⟨rfl,rfl,rfl⟩⟩
  | routed dstHost p =>
    cases h
    exact ⟨_,w,rfl,hgen,.inr ⟨p,rfl,rfl⟩⟩

/-- The destination of a routing is the planned host or was supplied. -/
theorem routing_source {r : Routing σ} (h : routing rt req now s = some r) :
    r.dstHost = r.sub.planningHost ∨ Supplied rt.tables rt.world r.dstHost := by
  obtain ⟨decision,w,-,hgen,⟨-,hdst,-⟩ | ⟨p,rfl,-⟩⟩ := routing_ok h
  · exact .inl hdst
  · exact genPolicy_source hgen

theorem recoverDomain_sub (rt : Runtime σ) (host : Str) (now : ℤ) (s : Stores × σ) :
    (recoverDomain rt host now s).1 =
      subjectOf host (recoverDomain rt host now s).1.recoveredDomain := by
  have hsub (d : Str) : subjectOf host d = subjectOf host (subjectOf host d).recoveredDomain := by
    by_cases hd : d = []
    · simp [subjectOf,hd]
    · simp [subjectOf,hd]
  unfold recoverDomain
  split
  · exact hsub _
  · exact hsub []

theorem planningHost_of_recovered {sub : Subject} {host : Str}
    (h : sub = subjectOf host sub.recoveredDomain) :
    (sub.recoveredDomain = [] ∧ sub.planningHost = host) ∨
      sub.planningHost = sub.recoveredDomain := by
  by_cases hd : sub.recoveredDomain = []
  · exact .inl ⟨hd,by rw [h,hd]; simp [subjectOf]⟩
  · refine .inr ?_
    rw [h]
    simp [subjectOf,hd]

theorem lookupDomain_cidr (ip : Str) (now : ℤ) (st : FakeIPStore) :
    (st.lookupDomain ip now).2.cidr = st.cidr := by
  unfold FakeIPStore.lookupDomain
  split
  · rfl
  · split <;> rfl

theorem isFakeIPAddress_lookupFakeDomainByIP (ip host : Str) (now : ℤ) (s : Stores) :
    isFakeIPAddress (lookupFakeDomainByIP ip now s).2 host = isFakeIPAddress s host := by
  unfold lookupFakeDomainByIP
  dsimp only
  split <;> simp only [isFakeIPAddress,lookupDomain_cidr]

/-- The ranges are not changed by a lookup. -/
theorem isFakeIPAddress_recoverDomain (rt : Runtime σ) (host ip : Str) (now : ℤ) (s : Stores × σ) :
    isFakeIPAddress (recoverDomain rt host now s).2.1 ip = isFakeIPAddress s.1 ip := by
  have hlookup : isFakeIPAddress (lookupDomainByIP rt host now s).2.1 ip =
      isFakeIPAddress s.1 ip := by
    unfold lookupDomainByIP
    dsimp only
    split
    · exact isFakeIPAddress_lookupFakeDomainByIP ..
    · split
      · exact isFakeIPAddress_lookupFakeDomainByIP ..
      · split
        · exact isFakeIPAddress_lookupFakeDomainByIP ..
        · split <;> exact isFakeIPAddress_lookupFakeDomainByIP ..
  unfold recoverDomain
  split
  · exact hlookup
  · rfl

theorem zone_of_contains {net : Prefix} {a : Addr} (h : net.contains a = true) : a.zone = [] := by
  cases a with
  | invalid => rfl
  | v4 b => rfl
  | v6 b zone =>
    unfold Prefix.contains at h
    split at h <;> simp_all [Addr.zone]

theorem isIPLiteral_of_isFakeIPAddress {stores : Stores} {ip : Str}
    (h : isFakeIPAddress stores ip = true) : isIPLiteral ip = true := by
  unfold isFakeIPAddress at h
  split at h
  · cases h
  · rename_i a ha
    have hz : a.zone = [] := by
      simp only [Bool.or_eq_true] at h
      rcases h with h | h
      · exact zone_of_contains h
      · exact zone_of_contains h
    simp [isIPLiteral,ha,hz]

theorem ipRedirect_unmapped {t : Tables} {w : World σ} {ip : Str}
    (h : ∀ rule, getIPPolicy t ip = some rule → rule.mapTo = [] ∨ rule.mapTo = unsetString)
    (s : σ) : ipRedirect t w ip s = (.ok (ip,getIPPolicy t ip),s) := by
  cases hrule : getIPPolicy t ip with
  | none => exact ipRedirect_none hrule s
  | some rule =>
    have hto : redirectTarget w ip rule = pure ip := by rw [redirectTarget,if_pos (h rule hrule)]
    simp only [ipRedirect,hrule,hto]
    rfl

/-- A fake address that no domain is recovered for is left out of the NAT64 step. -/
theorem finishPlan_missed {stores : Stores} {sub : Subject} {dstHost : Str}
    (hmiss : sub.recoveredDomain = []) (hfake : isFakeIPAddress stores dstHost = true)
    (policy : Policy) (w : σ) :
    ∃ plan, (finishPlan rt req stores sub dstHost policy w).1 = .ok plan ∧ plan.blocked = false ∧
      plan.targetHost = dstHost := by
  have hstep (p : Policy) : nat64Step rt stores sub dstHost p = pure dstHost := by
    rw [nat64Step,if_neg (by simp [hmiss,hfake])]
  unfold finishPlan
  rw [hstep]
  exact ⟨_,rfl,rfl,rfl⟩

theorem planSubject_missed {stores : Stores} (hfake : isFakeIPAddress stores req.host = true)
    (hto : ∀ rule, getIPPolicy rt.tables req.host = some rule →
      rule.mapTo = [] ∨ rule.mapTo = unsetString)
    (hmode : (effective rt.tables (getIPPolicy rt.tables req.host).toList).mode ≠ .block) (w : σ) :
    ∃ plan, (planSubject rt req stores ⟨[],req.host,true⟩ w).1 = .ok plan ∧
      plan.blocked = false ∧ plan.targetHost = req.host := by
  have hgen : genPolicy rt.tables rt.world (policyRequest req ⟨[],req.host,true⟩) w =
      (.routed req.host (effective rt.tables (getIPPolicy rt.tables req.host).toList),w) := by
    rw [genPolicy,if_pos (by simp [isIPRequest,policyRequest]),genIPPolicy]
    simp only [policyRequest,ipRedirect_unmapped hto,checkBlock,if_neg hmode]
  have hcall : GoRun.call (genPolicy rt.tables rt.world (policyRequest req ⟨[],req.host,true⟩)) w =
      (.ok (.routed req.host (effective rt.tables (getIPPolicy rt.tables req.host).toList)),w) := by
    rw [GoRun.call,hgen]
  rw [planSubject,bind_of_ok hcall]
  exact finishPlan_missed rfl hfake _ _

end Fake

end PlanRequest
end Enimul
