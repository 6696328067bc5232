import Enimul.GenPolicy

/-! Hosts that switch the redirect off.
A host of a policy that starts with `^` is meant to keep the address rules away from the
destination. The mark is read again from the hosts table when nothing stands behind it: whether the
address rules are kept away then depends on what that table says about the name. -/
namespace Enimul
namespace GenPolicy

open GoSlice GoText NetIP Policies GoRun Resolve IPTrie

/-- The tables with other rules for addresses. -/
def Tables.withAddressRules (t : Tables) (v4 v6 : Trie Policy) : Tables :=
  {t with ipMatcher := v4, ipv6Matcher := v6}

/-- The decision when the address rules are not asked. -/
def unredirected {σ : Type} (t : Tables) (w : World σ) (req : Request) (s : σ) : Decision × σ :=
  if (domainRule t req).map Policy.mode = some .block then (.blocked,s)
  else
    match destination w (domainPolicy t req) (hostChoice t req) req s with
    | (.error _,s₁) => (.failed,s₁)
    | (.ok none,s₁) => (.domainNotFound,s₁)
    | (.ok (some host),s₁) => (.routed host (domainPolicy t req),s₁)

/-- Whatever the rules for addresses are, they play no part. -/
def NeverRedirected (t : Tables) (req : Request) : Prop :=
  ∀ (v4 v6 : Trie Policy) (σ : Type) (w : World σ) (s : σ),
    genPolicy (t.withAddressRules v4 v6) w req s = unredirected t w req s

/-- What the hosts table says about the name. -/
def hostsEntry (t : Tables) (req : Request) : Str :=
  (DomainMatcher.find t.hostsMatcher req.originHost).getD []

def isBlank (host : Str) : Bool := host = [] ∨ host = unsetString

/-- The host that the policy or, failing that, the hosts table gives, with its mark. -/
def givenHost (t : Tables) (req : Request) : Str :=
  if isBlank (stripNoRedirect (domainPolicy t req).host) then hostsEntry t req
  else (domainPolicy t req).host

/-- The destination that a hosts entry gives without asking anybody. -/
def fixedHost (entry originHost : Str) : Option Str :=
  if isBlank entry ∨ hasPrefix entry resolvePrefix ∨ hasPrefix entry ipPoolTagPrefix then none
  else if entry = str "self" then some originHost
  else some entry

/-- The text is an address for the table in which it is looked up. -/
def canMatch (host : Str) : Bool :=
  match parseAddr host with
  | none => false
  | some a => if isIPv6 host then !a.unmap.is4 else a.unmap.is4

/-- The cases in which the mark has its effect. -/
def MarkHonoured (t : Tables) (req : Request) : Prop :=
  (domainRule t req).map Policy.mode = some .block ∨
    isBlank (stripNoRedirect (domainPolicy t req).host) = false ∨
    hasPrefix (hostsEntry t req) noRedirectPrefix = true ∨
    isBlank (hostsEntry t req) = true ∧ req.returnWhenDomainNotFound = true ∨
    ∃ host, fixedHost (hostsEntry t req) req.originHost = some host ∧ canMatch host = false

section Lookup

theorem getIPPolicy_eq_none {host : Str} (h : canMatch host = false) (t : Tables) :
    getIPPolicy t host = none := by
  unfold canMatch at h
  unfold getIPPolicy
  cases hp : parseAddr host with
  | none => split <;> simp [find,hp]
  | some a =>
    rw [hp] at h
    dsimp only at h
    split
    · rename_i h6
      rw [if_pos h6] at h
      simp [find,hp,ipv6,h]
    · rename_i h6
      rw [if_neg h6] at h
      simp [find,hp,ipv4,h]

/-- A table with one rule, for all addresses. -/
def everywhere (rule : Policy) : Trie Policy := .node (fun _ => none) (some rule)

theorem findBits_everywhere (rule : Policy) (bits : List Bool) (matched : Option Policy) :
    BitNode.findBits bits (everywhere rule) matched = some rule := by
  cases bits <;> rfl

theorem getIPPolicy_everywhere {host : Str} (h : canMatch host = true) (t : Tables) (rule : Policy) :
    getIPPolicy (t.withAddressRules (everywhere rule) (everywhere rule)) host = some rule := by
  unfold canMatch at h
  unfold getIPPolicy
  cases hp : parseAddr host with
  | none => simp [hp] at h
  | some a =>
    rw [hp] at h
    dsimp only at h
    split
    · rename_i h6
      rw [if_pos h6] at h
      simp [find,hp,ipv6,h,Tables.withAddressRules,findBits_everywhere]
    · rename_i h6
      rw [if_neg h6] at h
      simp [find,hp,ipv4,h,Tables.withAddressRules,findBits_everywhere]

end Lookup

section Decision

variable {σ : Type} {t : Tables} {w : World σ} {req : Request} {v4 v6 : Trie Policy} {s : σ}

/-- The decision is the one without the address rules if the destination is handed on as it is. -/
theorem genPolicy_eq_unredirected (hname : isIPRequest req = false)
    (h : ∀ host s₁, destination w (domainPolicy t req) (hostChoice t req) req s =
      (.ok (some host),s₁) → (hostChoice t req).noRedirect = true ∨ canMatch host = false) :
    genPolicy (t.withAddressRules v4 v6) w req s = unredirected t w req s := by
  rw [genPolicy,if_neg (by simp [hname]),unredirected]
  change (if (domainRule t req).map Policy.mode = some .block then (Decision.blocked,s)
    else routeDomain (t.withAddressRules v4 v6) w req
      (destination w (domainPolicy t req) (hostChoice t req) req s)) = _
  split
  · rfl
  cases hd : destination w (domainPolicy t req) (hostChoice t req) req s with
  | mk r s₁ =>
  rcases r with _ | _ | host
  · rfl
  · rfl
  · change (if (hostChoice t req).noRedirect then (Decision.routed host (domainPolicy t req),s₁)
      else redirectDomain (t.withAddressRules v4 v6) w (domainRule t req) (domainPolicy t req) host
        s₁) = (.routed host (domainPolicy t req),s₁)
    split
    · rfl
    · rename_i hno
      have hnone := getIPPolicy_eq_none ((h host s₁ hd).resolve_left hno) (t.withAddressRules v4 v6)
      rw [redirectDomain,ipRedirect_none hnone]

/-- A rule that sends everything to a host that is no address. -/
def toX : Policy := {mapTo := str "x"}

/-- A rule for all addresses redirects every destination that is an address. -/
theorem genPolicy_redirected (hname : isIPRequest req = false)
    (hrule : (domainRule t req).map Policy.mode ≠ some .block)
    (hno : (hostChoice t req).noRedirect = false) {host : Str} {s₁ : σ}
    (hd : destination w (domainPolicy t req) (hostChoice t req) req s = (.ok (some host),s₁))
    (hmatch : canMatch host = true) :
    genPolicy (t.withAddressRules (everywhere toX) (everywhere toX)) w req s ≠
      unredirected t w req s := by
  have hredirect : ipRedirect (t.withAddressRules (everywhere toX) (everywhere toX)) w host s₁ =
      (.ok (str "x",some toX),s₁) := by
    rw [ipRedirect,getIPPolicy_everywhere hmatch]
    rfl
  have hgen : genPolicy (t.withAddressRules (everywhere toX) (everywhere toX)) w req s =
      (checkBlock (str "x") (effective t ((domainRule t req).toList++[toX])),s₁) := by
    rw [genPolicy,if_neg (by simp [hname]),genDomainPolicy_of_destination
      (t := t.withAddressRules (everywhere toX) (everywhere toX)) hrule hd]
    change (if (hostChoice t req).noRedirect then _ else _) = _
    rw [if_neg (by simp [hno]),redirectDomain,hredirect]
    rfl
  have hother : host ≠ str "x" := by
    rintro rfl
    cases hmatch
  rw [hgen,unredirected,if_neg hrule,hd]
  intro heq
  have hdecision := (Prod.mk.inj heq).1
  rw [checkBlock] at hdecision
  split at hdecision
  · cases hdecision
  · exact hother (Decision.routed.inj hdecision).1.symm

/-- The choice is made from the host of the policy or, if that is blank, from the hosts table. -/
theorem hostChoice_eq : hostChoice t req =
    ⟨stripNoRedirect (givenHost t req),hasPrefix (givenHost t req) noRedirectPrefix,
      isBlank (stripNoRedirect (domainPolicy t req).host)⟩ := by
  rw [hostChoice,chooseHost,givenHost]
  cases h : isBlank (stripNoRedirect (domainPolicy t req).host) with
  | true =>
    rw [if_pos (by simpa [isBlank] using h),if_pos rfl]
    rfl
  | false =>
    rw [if_neg (by simpa [isBlank] using h),if_neg (by simp)]

theorem isUnset_hostChoice :
    (hostChoice t req).isUnset = isBlank (stripNoRedirect (givenHost t req)) := by
  rw [hostChoice_eq]
  cases h : isBlank (stripNoRedirect (domainPolicy t req).host) with
  | true => simp [HostChoice.isUnset,isBlank]
  | false => simp [HostChoice.isUnset,givenHost,h]

/-- The choice that an unmarked hosts entry makes. -/
def entryChoice (t : Tables) (req : Request) : HostChoice := ⟨hostsEntry t req,false,true⟩

theorem hostChoice_unmarked (h : isBlank (stripNoRedirect (domainPolicy t req).host) = true)
    (hentry : hasPrefix (hostsEntry t req) noRedirectPrefix = false) :
    hostChoice t req = entryChoice t req := by
  rw [hostChoice_eq,givenHost,if_pos h,h,stripNoRedirect,if_neg (by simp [hentry]),hentry]
  rfl

theorem isUnset_entryChoice : (entryChoice t req).isUnset = isBlank (hostsEntry t req) := by
  simp [HostChoice.isUnset,entryChoice,isBlank]

theorem selectDestination_fixed {p : Policy} {entry originHost host : Str}
    (h : fixedHost entry originHost = some host) :
    selectDestination w p originHost entry s = (.ok host,s) := by
  unfold fixedHost at h
  split at h
  · cases h
  · rename_i hfixed
    simp only [not_or] at hfixed
    obtain ⟨-,hresolve,hpool⟩ := hfixed
    rw [selectDestination,if_neg hresolve]
    split at h
    · rename_i hself
      rw [if_pos hself,← Option.some.inj h]
      rfl
    · rename_i hself
      rw [if_neg hself,if_neg hpool,← Option.some.inj h]
      rfl

theorem isBlank_of_fixedHost {entry originHost host : Str}
    (h : fixedHost entry originHost = some host) : isBlank entry = false := by
  unfold fixedHost at h
  split at h
  · cases h
  · rename_i hfixed
    simpa using (not_or.mp hfixed).1

/-- A host that is not fixed is resolved or taken from a pool. -/
theorem selectDestination_asked {p : Policy} {entry originHost : Str}
    (h : fixedHost entry originHost = none) (hset : isBlank entry = false) :
    selectDestination w p originHost entry =
      if hasPrefix entry resolvePrefix then resolve w p (entry.drop 1)
      else w.getFromIPPool (entry.drop 1) := by
  unfold fixedHost at h
  split at h
  · rename_i hask
    rw [hset] at hask
    rw [selectDestination]
    split
    · rfl
    · rename_i hq
      have hpool : hasPrefix entry ipPoolTagPrefix = true := by simpa [hq] using hask
      have hself : entry ≠ str "self" := by
        rintro rfl
        cases hpool
      rw [if_neg hself,if_pos hpool]
  · split at h <;> cases h

theorem destination_given {p : Policy} {c : HostChoice} (hset : isBlank c.selectedHost = false) :
    destination w p c req s = (do
      let dstHost ← selectDestination w p req.originHost c.selectedHost
      return some dstHost : Run σ (Option Str)) s := by
  have hunset : c.isUnset = false := by
    simp only [isBlank,decide_eq_false_iff_not] at hset
    simp [HostChoice.isUnset,hset]
  rw [destination,if_neg (by simp [hunset]),if_neg (by simp [hunset])]

theorem destination_fixed {p : Policy} {c : HostChoice} {host : Str}
    (h : fixedHost c.selectedHost req.originHost = some host) :
    destination w p c req s = (.ok (some host),s) := by
  rw [destination_given (isBlank_of_fixedHost h)]
  exact bind_of_ok (selectDestination_fixed h)

theorem destination_unlisted {p : Policy} {c : HostChoice} (hunset : c.isUnset = true)
    (hret : req.returnWhenDomainNotFound = true) :
    destination w p c req s = (.ok none,s) := by
  rw [destination,if_pos ⟨hunset,hret⟩]
  rfl

end Decision

/-- A world in which every name and every pool has one address. -/
def oneAddress : World Unit where
  exchangeMsg msg := return msg
  edns0SubnetOpt := none
  hasCache := true
  cacheGet _ s := (some (str "1.2.3.4"),s)
  cacheAdd _ _ _ s := ((),s)
  inFlight _ s := (none,s)
  rcodeToString _ := ""
  getFromIPPool _ := return str "1.2.3.4"

section Effect

variable {t : Tables} {req : Request}

/-- A destination that is asked for is an address in that world. -/
theorem destination_oneAddress (p : Policy)
    (hfixed : fixedHost (hostsEntry t req) req.originHost = none)
    (hret : isBlank (hostsEntry t req) = true → req.returnWhenDomainNotFound = false) :
    destination oneAddress p (entryChoice t req) req () = (.ok (some (str "1.2.3.4")),()) := by
  cases hblank : isBlank (hostsEntry t req) with
  | true =>
    rw [destination,if_neg (by simp [hret hblank]),if_pos (by rw [isUnset_entryChoice,hblank])]
    rfl
  | false =>
    have hset : isBlank (entryChoice t req).selectedHost = false := hblank
    have hasked : fixedHost (entryChoice t req).selectedHost req.originHost = none := hfixed
    rw [destination_given hset,selectDestination_asked hasked hset]
    split <;> rfl

end Effect

section Mark

variable {t : Tables} {req : Request}

/-- Where the mark has no effect, some address rules redirect the request in the world with one
address. -/
theorem exists_redirected (hname : isIPRequest req = false) (h : ¬ MarkHonoured t req) :
    genPolicy (t.withAddressRules (everywhere toX) (everywhere toX)) oneAddress req () ≠
      unredirected t oneAddress req () := by
  simp only [MarkHonoured,not_or,Bool.not_eq_false,Bool.not_eq_true] at h
  obtain ⟨hrule,hblank,hentry,hret,hfixed⟩ := h
  have hchoice := hostChoice_unmarked hblank hentry
  have hno : (hostChoice t req).noRedirect = false := by rw [hchoice]; rfl
  cases hhost : fixedHost (hostsEntry t req) req.originHost with
  | some host =>
    have hmatch : canMatch host = true := by
      by_contra hnomatch
      exact hfixed ⟨host,hhost,by simpa using hnomatch⟩
    have hd : destination oneAddress (domainPolicy t req) (hostChoice t req) req () =
        (.ok (some host),()) := by
      rw [hchoice]
      exact destination_fixed hhost
    exact genPolicy_redirected hname hrule hno hd hmatch
  | none =>
    have hd : destination oneAddress (domainPolicy t req) (hostChoice t req) req () =
        (.ok (some (str "1.2.3.4")),()) := by
      rw [hchoice]
      apply destination_oneAddress _ hhost
      intro hb
      simpa [hb] using hret
    exact genPolicy_redirected hname hrule hno hd (by decide)

/-- Where the mark has its effect, the destination is handed on. -/
theorem MarkHonoured.handedOn (h : MarkHonoured t req)
    (hrule : (domainRule t req).map Policy.mode ≠ some .block)
    (hmark : hasPrefix (domainPolicy t req).host noRedirectPrefix = true) {σ : Type} {w : World σ}
    {s s₁ : σ} {host : Str}
    (hd : destination w (domainPolicy t req) (hostChoice t req) req s = (.ok (some host),s₁)) :
    (hostChoice t req).noRedirect = true ∨ canMatch host = false := by
  by_cases hblank : isBlank (stripNoRedirect (domainPolicy t req).host) = true
  · by_cases hentry : hasPrefix (hostsEntry t req) noRedirectPrefix = true
    · left
      rw [hostChoice_eq,givenHost,if_pos hblank]
      exact hentry
    right
    rw [hostChoice_unmarked hblank (by simpa using hentry)] at hd
    rcases h.resolve_left hrule with hset | hmarked | ⟨hb,hret⟩ | ⟨host',hhost,hmatch⟩
    · simp [hblank] at hset
    · exact absurd hmarked hentry
    · rw [destination_unlisted (isUnset_entryChoice.trans hb) hret] at hd
      cases hd
    · rw [destination_fixed hhost] at hd
      cases hd
      exact hmatch
  · left
    rw [hostChoice_eq,givenHost,if_neg hblank]
    exact hmark

end Mark

/-- A mark with nothing behind it is honoured only where the hosts table or the request makes the
address rules irrelevant. -/
theorem neverRedirected_iff (t : Tables) (req : Request) (hname : isIPRequest req = false)
    (hmark : hasPrefix (domainPolicy t req).host noRedirectPrefix = true) :
    NeverRedirected t req ↔ MarkHonoured t req := by
  constructor
  · intro h
    by_contra hnot
    exact exists_redirected hname hnot (h _ _ _ _ _)
  · intro h v4 v6 σ w s
    by_cases hrule : (domainRule t req).map Policy.mode = some .block
    · rw [genPolicy,if_neg (by simp [hname]),unredirected,if_pos hrule]
      exact if_pos hrule
    · exact genPolicy_eq_unredirected hname fun host s₁ hd => h.handedOn hrule hmark hd

/-- One rule, for the name a.b, whose host is `host`. -/
def hostRule (host : Str) : Tables :=
  {blockAll with
    defaultPolicy := {mergeStart with mode := .raw, dnsMode := .preferIPv4}
    domainMatcher := (DomainMatcher.newDomainMatcher : DomainMatcher.Matcher Policy).insertPattern
      {mergeStart with host} false true (DomainMatcher.labels (str "a.b"))}

theorem neverRedirected_iff_self :
    NeverRedirected (hostRule (str "^self")) ⟨str "a.b",false,false⟩ :=
  (neverRedirected_iff _ _ (by decide) (by decide)).mpr (.inr (.inl (by decide)))

/-- Under a bare mark the destination is redirected, and the rule of its address is merged in. -/
theorem bare_mark_is_redirected :
    let rule : Policy := {mergeStart with mapTo := str "9.9.9.9", port := 8443}
    let t := (hostRule (str "^")).withAddressRules (everywhere rule) (everywhere rule)
    hasPrefix (domainPolicy t ⟨str "a.b",false,false⟩).host noRedirectPrefix = true ∧
    ∃ p, genPolicy t (answering [1,2,3,4]) ⟨str "a.b",false,false⟩ () =
      (.routed (str "9.9.9.9") p,()) ∧ p.port = 8443 :=
  ⟨by decide,_,rfl,by decide⟩

end GenPolicy
end Enimul
