import Enimul.DomainMatcher
import Enimul.IPTrie
import Enimul.Resolve

/-! Routing: the destination and the policy of a request.
A request for an address is looked up in the address rules. A request for a name is
looked up in the domain rules, resolved, and its destination is looked up in the
address rules as well, unless the host of the policy switches that off. -/
namespace Enimul
namespace GenPolicy

open GoSlice GoText NetIP Policies GoRun Resolve

/-- The rule tables of a loaded configuration. -/
structure Tables where
  defaultPolicy : Policy
  domainMatcher : DomainMatcher.Matcher Policy
  hostsMatcher : DomainMatcher.Matcher Str
  ipMatcher : IPTrie.Trie Policy
  ipv6Matcher : IPTrie.Trie Policy

structure Request where
  originHost : Str
  isIP : Bool
  returnWhenDomainNotFound : Bool
  deriving DecidableEq, Repr

/-- The results of `genPolicy`: one of its three flags, or a destination and a policy. -/
inductive Decision
  | failed
  | blocked
  | domainNotFound
  | routed (dstHost : Str) (p : Policy)
  deriving DecidableEq, Repr

def noRedirectPrefix : Str := str "^"
def ipPoolTagPrefix : Str := str "$"
def resolvePrefix : Str := str "?"

def isIPv6 (ip : Str) : Bool := contains ip 58

/-- One byte of the transformed address: network bits in front, host bits behind. -/
def transformByte (bits i netByte ipByte : ℕ) : ℕ :=
  let bitPos := i*8
  if bitPos+8 ≤ bits then netByte
  else if bits ≤ bitPos then ipByte
  else
    let mask := 0xFF <<< (8-(bits-bitPos)) % 256
    (netByte &&& mask) ||| (ipByte &&& (255 ^^^ mask))

def transformBytes (bits : ℕ) (netBytes ipBytes : List ℕ) : List ℕ :=
  ((netBytes.zip ipBytes).zipIdx).map fun x => transformByte bits x.2 x.1.1 x.1.2

def transformIP (ipStr targetNetStr : Str) : Except String Str :=
  match parseAddr ipStr with
  | none => .error "invalid IP"
  | some ip =>
    match parsePrefix targetNetStr with
    | none => .error "invalid target network"
    | some target =>
      match ip,target.masked with
      | .v4 b,.v4 net => .ok (Addr.string (.v4 (BitVec.ofNat 32 (bigEndian
          (transformBytes target.bits (fieldsOf 256 4 net.toNat) (fieldsOf 256 4 b.toNat))))))
      | .v6 b _,.v6 net _ => .ok (Addr.string (.v6 (BitVec.ofNat 128 (bigEndian
          (transformBytes target.bits (fieldsOf 256 16 net.toNat) (fieldsOf 256 16 b.toNat)))) []))
      | _,_ => .error "IP version mismatch between source IP and target network"

section Route

variable {σ : Type} (t : Tables) (w : World σ)

def getIPPolicy (ip : Str) : Option Policy :=
  if isIPv6 ip then IPTrie.find IPTrie.ipv6 t.ipv6Matcher ip
  else IPTrie.find IPTrie.ipv4 t.ipMatcher ip

/-- Where an address rule sends its traffic. -/
def redirectTarget (ip : Str) (policy : Policy) : Run σ Str :=
  if policy.mapTo = [] ∨ policy.mapTo = unsetString then return ip
  else if hasPrefix policy.mapTo ipPoolTagPrefix then w.getFromIPPool (policy.mapTo.drop 1)
  else if (lastIndexByte policy.mapTo 47).isSome then ofExcept (transformIP ip policy.mapTo)
  else return policy.mapTo

def ipRedirect (ip : Str) : Run σ (Str × Option Policy) :=
  match getIPPolicy t ip with
  | none => return (ip,none)
  | some policy => do
    let mapTo ← redirectTarget w ip policy
    return (mapTo,some policy)

/-- The host of the policy or, failing that, of the hosts table, without its prefix. -/
structure HostChoice where
  selectedHost : Str
  noRedirect : Bool
  fromHosts : Bool
  deriving DecidableEq, Repr

def stripNoRedirect (host : Str) : Str :=
  if hasPrefix host noRedirectPrefix then host.drop 1 else host

def chooseHost (p : Policy) (originHost : Str) : HostChoice :=
  let policyHost := stripNoRedirect p.host
  if policyHost = [] ∨ policyHost = unsetString then
    let host := (DomainMatcher.find t.hostsMatcher originHost).getD []
    ⟨stripNoRedirect host,hasPrefix host noRedirectPrefix,true⟩
  else ⟨policyHost,hasPrefix p.host noRedirectPrefix,false⟩

/-- No host is given for the name, so the name itself is resolved. -/
def HostChoice.isUnset (c : HostChoice) : Bool :=
  c.fromHosts ∧ (c.selectedHost = [] ∨ c.selectedHost = unsetString)

def resolve (p : Policy) (name : Str) : Run σ Str := do
  let r ← dnsResolve w name p.dnsMode p.dnsCacheTTL
  return r.1

/-- The destination that a given host stands for. -/
def selectDestination (p : Policy) (originHost selectedHost : Str) : Run σ Str :=
  if hasPrefix selectedHost resolvePrefix then resolve w p (selectedHost.drop 1)
  else if selectedHost = str "self" then return originHost
  else if hasPrefix selectedHost ipPoolTagPrefix then w.getFromIPPool (selectedHost.drop 1)
  else return selectedHost

def resolveOrigin (p : Policy) (originHost selectedHost : Str) : Run σ Str := do
  let dstHost ← resolve w p originHost
  if dstHost = [] then selectDestination w p originHost selectedHost else return dstHost

/-- The destination of a name before any redirect, or none when the caller does not want
an unlisted name to be resolved. -/
def destination (p : Policy) (c : HostChoice) (req : Request) : Run σ (Option Str) :=
  if c.isUnset ∧ req.returnWhenDomainNotFound then return none
  else do
    let dstHost ← if c.isUnset then resolveOrigin w p req.originHost c.selectedHost
      else selectDestination w p req.originHost c.selectedHost
    return some dstHost

def isIPRequest (req : Request) : Bool := req.isIP ∨ isIPLiteral req.originHost

/-- The default policy below the rules that apply. With no rule it is not merged. -/
def effective (rules : List Policy) : Policy :=
  if rules = [] then t.defaultPolicy else mergePolicies (rules++[t.defaultPolicy])

/-- The block check behind the address rules. -/
def checkBlock (dstHost : Str) (p : Policy) : Decision :=
  if p.mode = .block then .blocked else .routed dstHost p

def genIPPolicy (req : Request) (s : σ) : Decision × σ :=
  match ipRedirect t w req.originHost s with
  | (.error _,s₁) => (.failed,s₁)
  | (.ok (dstHost,ipPolicy),s₁) => (checkBlock dstHost (effective t ipPolicy.toList),s₁)

def redirectDomain (domainPolicy : Option Policy) (p : Policy) (dstHost : Str) (s : σ) :
    Decision × σ :=
  match ipRedirect t w dstHost s with
  | (.error _,s₁) => (.failed,s₁)
  | (.ok (dstHost,none),s₁) => (.routed dstHost p,s₁)
  | (.ok (dstHost,some ipPolicy),s₁) =>
    (checkBlock dstHost (effective t (domainPolicy.toList++[ipPolicy])),s₁)

def domainRule (req : Request) : Option Policy := DomainMatcher.find t.domainMatcher req.originHost

/-- The policy of a name before its destination is known. -/
def domainPolicy (req : Request) : Policy := effective t (domainRule t req).toList

def hostChoice (req : Request) : HostChoice := chooseHost t (domainPolicy t req) req.originHost

/-- What follows the choice of a destination. -/
def routeDomain (req : Request) : Except String (Option Str) × σ → Decision × σ
  | (.error _,s₁) => (.failed,s₁)
  | (.ok none,s₁) => (.domainNotFound,s₁)
  | (.ok (some dstHost),s₁) =>
    if (hostChoice t req).noRedirect then (.routed dstHost (domainPolicy t req),s₁)
    else redirectDomain t w (domainRule t req) (domainPolicy t req) dstHost s₁

def genDomainPolicy (req : Request) (s : σ) : Decision × σ :=
  if (domainRule t req).map Policy.mode = some .block then (.blocked,s)
  else routeDomain t w req (destination w (domainPolicy t req) (hostChoice t req) req s)

def genPolicy (req : Request) (s : σ) : Decision × σ :=
  if isIPRequest req then genIPPolicy t w req s else genDomainPolicy t w req s

variable {t w} {req : Request} {s s₁ : σ}

/-- A redirect reports the rule of the address it was given. -/
theorem ipRedirect_policy {ip dstHost : Str} {policy : Option Policy}
    (h : ipRedirect t w ip s = (.ok (dstHost,policy),s₁)) : policy = getIPPolicy t ip := by
  cases hp : getIPPolicy t ip with
  | none =>
    simp only [ipRedirect,hp,pure_run,Prod.mk.injEq,Except.ok.injEq] at h
    exact h.1.2.symm
  | some rule =>
    simp only [ipRedirect,hp] at h
    obtain ⟨mapTo,s₂,-,hret⟩ := bind_ok h
    simp only [pure_run,Prod.mk.injEq,Except.ok.injEq] at hret
    exact hret.1.2.symm

theorem ipRedirect_none {ip : Str} (h : getIPPolicy t ip = none) (s : σ) :
    ipRedirect t w ip s = (.ok (ip,none),s) := by
  simp [ipRedirect,h]

theorem checkBlock_routed {dstHost host : Str} {p q : Policy}
    (h : checkBlock host q = .routed dstHost p) : p = q ∧ p.mode ≠ .block := by
  rw [checkBlock] at h
  split at h
  · simp at h
  · rename_i hmode
    obtain ⟨-,rfl⟩ := Decision.routed.inj h
    exact ⟨rfl,hmode⟩

/-- No address rule is consulted for this destination, or there is none. -/
def Unredirected (t : Tables) (req : Request) (host : Str) : Prop :=
  (hostChoice t req).noRedirect = true ∨ getIPPolicy t host = none

/-- The address rule of a destination, if there is one, can be followed. -/
def Redirects (t : Tables) (w : World σ) (ip : Str) (s : σ) : Prop :=
  ∃ r s₁, ipRedirect t w ip s = (.ok r,s₁)

/-- The rules that apply to a request that nothing turns down. -/
inductive Applies (t : Tables) (w : World σ) (req : Request) (s : σ) : List Policy → Prop
  | address (hip : isIPRequest req = true) (hr : Redirects t w req.originHost s)
      (hmode : (effective t (getIPPolicy t req.originHost).toList).mode ≠ .block) :
      Applies t w req s (getIPPolicy t req.originHost).toList
  | name {host : Str} {s₁ : σ} (hip : isIPRequest req = false)
      (hrule : (domainRule t req).map Policy.mode ≠ some .block)
      (hd : destination w (domainPolicy t req) (hostChoice t req) req s = (.ok (some host),s₁))
      (hu : Unredirected t req host) : Applies t w req s (domainRule t req).toList
  | redirected {host : Str} {s₁ : σ} {q : Policy} (hip : isIPRequest req = false)
      (hrule : (domainRule t req).map Policy.mode ≠ some .block)
      (hd : destination w (domainPolicy t req) (hostChoice t req) req s = (.ok (some host),s₁))
      (hno : (hostChoice t req).noRedirect = false) (hq : getIPPolicy t host = some q)
      (hr : Redirects t w host s₁)
      (hmode : (effective t ((domainRule t req).toList++[q])).mode ≠ .block) :
      Applies t w req s ((domainRule t req).toList++[q])

theorem genIPPolicy_routed {dstHost : Str} {p : Policy}
    (h : genIPPolicy t w req s = (.routed dstHost p,s₁)) :
    Redirects t w req.originHost s ∧
      p = effective t (getIPPolicy t req.originHost).toList ∧ p.mode ≠ .block := by
  rw [genIPPolicy] at h
  split at h
  · simp at h
  · rename_i hr
    rw [← ipRedirect_policy hr]
    exact ⟨⟨_,_,hr⟩,checkBlock_routed (Prod.mk.inj h).1⟩

theorem redirectDomain_routed {rule : Option Policy} {p₀ p : Policy} {host dstHost : Str}
    (h : redirectDomain t w rule p₀ host s = (.routed dstHost p,s₁)) :
    (getIPPolicy t host = none ∧ p = p₀) ∨
      ∃ q, getIPPolicy t host = some q ∧ Redirects t w host s ∧
        p = effective t (rule.toList++[q]) ∧ p.mode ≠ .block := by
  rw [redirectDomain] at h
  split at h
  · simp at h
  · rename_i hr
    obtain ⟨-,rfl⟩ := Decision.routed.inj (Prod.mk.inj h).1
    exact .inl ⟨(ipRedirect_policy hr).symm,rfl⟩
  · rename_i q s₂ hr
    exact .inr ⟨q,(ipRedirect_policy hr).symm,⟨_,_,hr⟩,checkBlock_routed (Prod.mk.inj h).1⟩

/-- All the ways in which a request for a name is routed. -/
theorem genDomainPolicy_routed (hip : isIPRequest req = false) {dstHost : Str} {p : Policy}
    (h : genDomainPolicy t w req s = (.routed dstHost p,s₁)) :
    ∃ rules, Applies t w req s rules ∧ p = effective t rules := by
  rw [genDomainPolicy] at h
  split at h
  · simp at h
  rename_i hrule
  cases hd : destination w (domainPolicy t req) (hostChoice t req) req s with
  | mk r s₂ =>
  rw [hd] at h
  match r with
  | .error _ => simp [routeDomain] at h
  | .ok none => simp [routeDomain] at h
  | .ok (some host) =>
  rw [routeDomain] at h
  split at h
  · rename_i hno
    obtain ⟨-,rfl⟩ := Decision.routed.inj (Prod.mk.inj h).1
    exact ⟨_,.name hip hrule hd (.inl hno),rfl⟩
  · rename_i hno
    rcases redirectDomain_routed h with ⟨hnone,rfl⟩ | ⟨q,hq,hr,rfl,hmode⟩
    · exact ⟨_,.name hip hrule hd (.inr hnone),rfl⟩
    · exact ⟨_,.redirected hip hrule hd (by simpa using hno) hq hr hmode,rfl⟩

/-- A routed request has the policy of the rules that apply to it. -/
theorem genPolicy_routed {dstHost : Str} {p : Policy}
    (h : genPolicy t w req s = (.routed dstHost p,s₁)) :
    ∃ rules, Applies t w req s rules ∧ p = effective t rules := by
  rw [genPolicy] at h
  split at h
  · rename_i hip
    obtain ⟨hr,rfl,hmode⟩ := genIPPolicy_routed h
    exact ⟨_,.address hip hr hmode,rfl⟩
  · rename_i hip
    exact genDomainPolicy_routed (by simpa using hip) h

theorem genDomainPolicy_of_destination {host : Str} {s₂ : σ}
    (hrule : (domainRule t req).map Policy.mode ≠ some .block)
    (hd : destination w (domainPolicy t req) (hostChoice t req) req s = (.ok (some host),s₂)) :
    genDomainPolicy t w req s =
      if (hostChoice t req).noRedirect then (.routed host (domainPolicy t req),s₂)
      else redirectDomain t w (domainRule t req) (domainPolicy t req) host s₂ := by
  rw [genDomainPolicy,if_neg hrule,hd,routeDomain]

/-- A request to which rules apply is routed. -/
theorem Applies.routed {rules : List Policy} (h : Applies t w req s rules) :
    ∃ dstHost s₁, genPolicy t w req s = (.routed dstHost (effective t rules),s₁) := by
  cases h with
  | address hip hr hmode =>
    obtain ⟨⟨host,policy⟩,s₁,hr⟩ := hr
    rw [← ipRedirect_policy hr] at hmode ⊢
    refine ⟨host,s₁,?_⟩
    rw [genPolicy,if_pos hip,genIPPolicy,hr]
    simp only [checkBlock,if_neg hmode]
  | @name host s₁ hip hrule hd hu =>
    rw [genPolicy,if_neg (by simp [hip]),genDomainPolicy_of_destination hrule hd]
    refine ⟨host,s₁,?_⟩
    split
    · rfl
    · rename_i hno
      rw [redirectDomain,ipRedirect_none (hu.resolve_left hno)]
      rfl
  | @redirected host s₁ q hip hrule hd hno hq hr hmode =>
    obtain ⟨⟨dstHost,policy⟩,s₂,hr⟩ := hr
    have hp := ipRedirect_policy hr
    rw [hq] at hp
    subst hp
    refine ⟨dstHost,s₂,?_⟩
    rw [genPolicy,if_neg (by simp [hip]),genDomainPolicy_of_destination hrule hd,
      if_neg (by simp [hno]),redirectDomain,hr]
    simp only [checkBlock,if_neg hmode]

/-- The address rules that are consulted for a destination. -/
def ipRules (t : Tables) (req : Request) (host : Str) : List Policy :=
  if (hostChoice t req).noRedirect then [] else (getIPPolicy t host).toList

/-- The rules that apply to a name are its own and those of its destination. -/
theorem Applies.of_name {rules : List Policy} (h : Applies t w req s rules)
    (hip : isIPRequest req = false) :
    ∃ host s₁, destination w (domainPolicy t req) (hostChoice t req) req s = (.ok (some host),s₁) ∧
      rules = (domainRule t req).toList++ipRules t req host := by
  cases h with
  | address hip' => simp [hip] at hip'
  | @name host s₁ _ _ hd hu =>
    refine ⟨host,s₁,hd,?_⟩
    rcases hu with hno | hnone
    · simp [ipRules,hno]
    · simp [ipRules,hnone]
  | @redirected host s₁ q _ _ hd hno hq => exact ⟨host,s₁,hd,by simp [ipRules,hno,hq]⟩

theorem destination_none {p : Policy} {c : HostChoice} (h : destination w p c req s = (.ok none,s₁)) :
    req.returnWhenDomainNotFound = true := by
  rw [destination] at h
  split at h
  · rename_i hcond
    exact hcond.2
  · dsimp only at h
    split at h
    · obtain ⟨dstHost,s₂,-,hret⟩ := bind_ok h
      simp at hret
    · obtain ⟨dstHost,s₂,-,hret⟩ := bind_ok h
      simp at hret

/-- Only a request that has no destination is reported as not found. -/
theorem genPolicy_domainNotFound (h : genPolicy t w req s = (.domainNotFound,s₁)) :
    isIPRequest req = false ∧ req.returnWhenDomainNotFound = true ∧
      destination w (domainPolicy t req) (hostChoice t req) req s = (.ok none,s₁) := by
  have hcheck : ∀ host p, checkBlock host p ≠ .domainNotFound := by
    intro host p
    rw [checkBlock]
    split <;> simp
  rw [genPolicy] at h
  split at h
  · rw [genIPPolicy] at h
    split at h
    · simp at h
    · exact absurd (Prod.mk.inj h).1 (hcheck _ _)
  rename_i hip
  rw [genDomainPolicy] at h
  split at h
  · simp at h
  cases hd : destination w (domainPolicy t req) (hostChoice t req) req s with
  | mk r s₂ =>
  rw [hd] at h
  match r with
  | .error _ => simp [routeDomain] at h
  | .ok (some host) =>
    rw [routeDomain] at h
    split at h
    · simp at h
    rw [redirectDomain] at h
    split at h
    · simp at h
    · simp at h
    · exact absurd (Prod.mk.inj h).1 (hcheck _ _)
  | .ok none =>
    obtain ⟨-,rfl⟩ := Prod.mk.inj h
    exact ⟨by simpa using hip,destination_none hd,rfl⟩

/-- The name that is resolved on the way to a destination. -/
def resolvedName (t : Tables) (req : Request) : Option Str :=
  if isIPRequest req ∨ (domainRule t req).map Policy.mode = some .block then none
  else
    let c := hostChoice t req
    if c.isUnset then if req.returnWhenDomainNotFound then none else some req.originHost
    else if hasPrefix c.selectedHost resolvePrefix then some (c.selectedHost.drop 1)
    else none

theorem resolvedName_eq_some {name : Str} (h : resolvedName t req = some name) :
    isIPRequest req = false ∧ (domainRule t req).map Policy.mode ≠ some .block ∧
      (((hostChoice t req).isUnset = true ∧ req.returnWhenDomainNotFound = false ∧
          name = req.originHost) ∨
        ((hostChoice t req).isUnset = false ∧
          hasPrefix (hostChoice t req).selectedHost resolvePrefix = true ∧
          name = (hostChoice t req).selectedHost.drop 1)) := by
  rw [resolvedName] at h
  split at h
  · simp at h
  rename_i hname
  obtain ⟨hip,hrule⟩ := not_or.mp hname
  refine ⟨by simpa using hip,hrule,?_⟩
  dsimp only at h
  split at h
  · rename_i hunset
    split at h
    · simp at h
    · rename_i hret
      exact .inl ⟨hunset,by simpa using hret,(Option.some.inj h).symm⟩
  · rename_i hunset
    split at h
    · rename_i hpre
      exact .inr ⟨by simpa using hunset,hpre,(Option.some.inj h).symm⟩
    · simp at h

/-- The destination of such a name starts with its resolution, in the mode of its policy. -/
theorem destination_resolves {name : Str} (h : resolvedName t req = some name) :
    ∃ k : Str × Bool → Run σ (Option Str),
      destination w (domainPolicy t req) (hostChoice t req) req =
        (dnsResolve w name (domainPolicy t req).dnsMode (domainPolicy t req).dnsCacheTTL >>= k) := by
  obtain ⟨-,-,⟨hunset,hret,rfl⟩ | ⟨hunset,hpre,rfl⟩⟩ := resolvedName_eq_some h
  · rw [destination,if_neg (by simp [hret]),if_pos hunset,resolveOrigin,resolve,bind_assoc,
      bind_assoc]
    exact ⟨_,rfl⟩
  · rw [destination,if_neg (by simp [hunset]),if_neg (by simp [hunset]),selectDestination,
      if_pos hpre,resolve,bind_assoc]
    exact ⟨_,rfl⟩

theorem genPolicy_resolves {name : Str} (h : resolvedName t req = some name) :
    ∃ k : Str × Bool → Run σ (Option Str), ∀ s, genPolicy t w req s = routeDomain t w req
      ((dnsResolve w name (domainPolicy t req).dnsMode (domainPolicy t req).dnsCacheTTL >>= k) s) := by
  obtain ⟨hip,hrule,-⟩ := resolvedName_eq_some h
  obtain ⟨k,hk⟩ := destination_resolves (w := w) h
  refine ⟨k,fun s => ?_⟩
  rw [genPolicy,if_neg (by simp [hip]),genDomainPolicy,if_neg hrule,hk]

/-- The policy of an unblocked name has mode block only through the default policy. -/
theorem domainPolicy_mode_block (hrule : (domainRule t req).map Policy.mode ≠ some .block) :
    (domainPolicy t req).mode = .block ↔
      t.defaultPolicy.mode = .block ∧ ∀ rule, domainRule t req = some rule → rule.mode = .unset := by
  cases hr : domainRule t req with
  | none => simp [domainPolicy,hr,effective]
  | some rule =>
    have hnb : rule.mode ≠ .block := by simpa [hr] using hrule
    by_cases hu : rule.mode = .unset
    · by_cases hd : t.defaultPolicy.mode = .unset <;>
        simp [domainPolicy,hr,effective,mergePolicies_mode,firstSet,hu,hd,Mode.default]
    · simp [domainPolicy,hr,effective,mergePolicies_mode,firstSet,hu,hnb]

/-- The requests whose effective mode is block and that are routed all the same: the mode
comes from the default policy, and no check follows the choice of the destination. -/
def FailsOpen (t : Tables) (w : World σ) (req : Request) (s : σ) : Prop :=
  isIPRequest req = false ∧ t.defaultPolicy.mode = .block ∧
    (∀ rule, domainRule t req = some rule → rule.mode = .unset) ∧
    ∃ host s₁, destination w (domainPolicy t req) (hostChoice t req) req s = (.ok (some host),s₁) ∧
      Unredirected t req host

theorem genPolicy_block_iff (t : Tables) (w : World σ) (req : Request) (s : σ) :
    (∀ dstHost p s₁, genPolicy t w req s = (.routed dstHost p,s₁) → p.mode ≠ .block) ↔
      ¬ FailsOpen t w req s := by
  constructor
  · rintro hsafe ⟨hip,hdef,hrule,host,s₁,hd,hu⟩
    have hnb : (domainRule t req).map Policy.mode ≠ some .block := by
      intro hb
      obtain ⟨rule,hr,hm⟩ := Option.map_eq_some_iff.mp hb
      simp [hrule rule hr] at hm
    obtain ⟨dstHost,s₂,hrun⟩ := (Applies.name hip hnb hd hu).routed
    exact hsafe dstHost _ s₂ hrun ((domainPolicy_mode_block hnb).mpr ⟨hdef,hrule⟩)
  · intro hno dstHost p s₁ hrun
    obtain ⟨rules,happ,rfl⟩ := genPolicy_routed hrun
    cases happ with
    | address _ _ hmode => exact hmode
    | redirected _ _ _ _ _ _ hmode => exact hmode
    | @name host s₂ hip hnb hd hu =>
      intro hblock
      obtain ⟨hdef,hrule⟩ := (domainPolicy_mode_block hnb).mp hblock
      exact hno ⟨hip,hdef,hrule,host,s₂,hd,hu⟩

end Route

/-- Tables without a rule and with a default policy that blocks. -/
def blockAll : Tables where
  defaultPolicy := {mergeStart with mode := .block, dnsMode := .preferIPv4}
  domainMatcher := DomainMatcher.newDomainMatcher
  hostsMatcher := DomainMatcher.newDomainMatcher
  ipMatcher := IPTrie.BitNode.empty
  ipv6Matcher := IPTrie.BitNode.empty

theorem genPolicy_fails_open :
    genPolicy blockAll (answering [1,2,3,4]) ⟨str "a.b",false,false⟩ () =
        (.routed (str "1.2.3.4") blockAll.defaultPolicy,()) ∧
      blockAll.defaultPolicy.mode = .block := by
  constructor <;> rfl

end GenPolicy
end Enimul
