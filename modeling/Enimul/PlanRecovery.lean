import Enimul.DNSPromise
import Enimul.PlanRequest

/-! Fake addresses on their way back.
A name that was answered with a fake address is recovered from it when a request for the
address is planned, and it counts as matched: the names that get fake addresses are the
names with a rule and the names on the GFW list. -/
namespace Enimul
namespace PlanRequest

open GoSlice GoText NetIP Policies GoRun Resolve GenPolicy FakeIP FakeIPStore DNSHijack

section Stores

variable {s : Stores} {qtype : ℕ} {ip d : Str} {now : ℤ}

theorem isIPLiteral_of_isFakeText (h : IsFakeText qtype ip) : isIPLiteral ip = true := by
  obtain ⟨a,ha,hz,-⟩ := h.parseAddr
  simp [isIPLiteral,ha,hz]

/-- No text belongs to both families. -/
theorem isFakeText_family {qtype' : ℕ} (h : IsFakeText qtype ip) (h' : IsFakeText qtype' ip) :
    qtype = typeA ↔ qtype' = typeA := by
  obtain ⟨a,ha,-,hfamily⟩ := h.parseAddr
  obtain ⟨a',ha',-,hfamily'⟩ := h'.parseAddr
  obtain rfl : a = a' := Option.some.inj (ha.symm.trans ha')
  exact hfamily.symm.trans hfamily'

theorem isFakeText_of_entry (qtype : ℕ) (hs : StoresConsistent s) {e : FakeIPEntry}
    (he : (family qtype s).ipToEntry ip = some e) : IsFakeText qtype ip :=
  (hs.get qtype).address ip e he

theorem isFakeText_of_found (hs : StoresConsistent s)
    (h : ((family qtype s).lookupDomain ip now).1 = (d,true)) : IsFakeText qtype ip := by
  rw [lookupDomain_answer,answer_eq_iff] at h
  obtain ⟨e,he,-⟩ := h
  exact isFakeText_of_entry qtype hs he

/-- The stores are asked one after the other, and only one of them can know the address. -/
theorem lookupFakeDomainByIP_of_family (hs : StoresConsistent s) (hq : IsAddressType qtype)
    (h : ((family qtype s).lookupDomain ip now).1 = (d,true)) :
    (lookupFakeDomainByIP ip now s).1 = (d,true) := by
  have hfake := isFakeText_of_found hs h
  rcases hq with rfl | rfl
  · have h4 : (s.defaultFakeIPv4Store.lookupDomain ip now).1 = (d,true) := h
    simp [lookupFakeDomainByIP,h4]
  · have hnone : s.defaultFakeIPv4Store.ipToEntry ip = none := by
      cases he : s.defaultFakeIPv4Store.ipToEntry ip with
      | none => rfl
      | some e =>
        have hboth := isFakeText_family (isFakeText_of_entry typeA hs he) hfake
        exact absurd (hboth.mp rfl) (by decide)
    have h4 : (s.defaultFakeIPv4Store.lookupDomain ip now).1 = ([],false) := by
      rw [lookupDomain_answer,hnone]
      rfl
    have h6 : (s.defaultFakeIPv6Store.lookupDomain ip now).1 = (d,true) := h
    simp [lookupFakeDomainByIP,h4,h6]

end Stores

section Plan

variable {σ : Type} {rt : Runtime σ}

theorem recoverDomain_of_family (rt : Runtime σ) {s : Stores} (hs : StoresConsistent s) {qtype : ℕ}
    (hq : IsAddressType qtype) {ip d : Str} {now : ℤ} (hd : d ≠ [])
    (h : ((family qtype s).lookupDomain ip now).1 = (d,true)) (w : σ) :
    (recoverDomain rt ip now (s,w)).1 = ⟨d,d,false⟩ := by
  have hip := isIPLiteral_of_isFakeText (isFakeText_of_found hs h)
  have hfound := lookupFakeDomainByIP_of_family hs hq h
  have hlookup : (lookupDomainByIP rt ip now (s,w)).1 = (d,true) := by
    simp [lookupDomainByIP,hfound]
  simp [recoverDomain,hip,hlookup,subjectOf,hd]

theorem ne_nil_of_shouldUseFakeIP {mapLower : Str → Str} {d : Str}
    (h : shouldUseFakeIP rt (toLower mapLower d) = true) : toLower mapLower d ≠ [] := by
  intro hnil
  rw [hnil] at h
  have hlower : toLower rt.mapLower [] = [] := rfl
  simp [shouldUseFakeIP,classifyDomainRoute,hlower] at h

/-- A lower-case name that gets a fake address counts as matched: by its rule or, where it
has none, by the GFW list. -/
theorem applyFallback_matched {d : Str} (hlower : toLower rt.mapLower d = d)
    (h : shouldUseFakeIP rt d = true) (policy : Policy) :
    (applyFallback rt ⟨d,d,false⟩ policy).2 = true := by
  by_cases hm : matchesDomain rt ⟨d,d,false⟩ = true
  · rw [applyFallback_of_rule hm]
  · have hfind : DomainMatcher.find rt.tables.domainMatcher d = none := by
      simpa [matchesDomain] using hm
    cases hc : classifyDomainRoute rt d with
    | plain => simp [shouldUseFakeIP,hc] at h
    | gfw => simp [applyFallback,hm,hc]
    | rule =>
      have hrule := (classifyDomainRoute_eq_rule.mp hc).2
      simp [hlower,hfind] at hrule

/-- What planning may do with an address that stands for a name. -/
def AgreesOn (d : Str) : Except String DialPlan → Prop
  | .error _ => True
  | .ok plan => plan.blocked = true ∨ (plan.recoveredDomain = d ∧ plan.matchedDomain = true)

theorem planSubject_agreesOn {d : Str} (hlower : toLower rt.mapLower d = d)
    (h : shouldUseFakeIP rt d = true) (req : RequestContext) (stores : Stores) (s : σ) :
    AgreesOn d (planSubject rt req stores ⟨d,d,false⟩ s).1 := by
  cases hr : planSubject rt req stores ⟨d,d,false⟩ s with
  | mk r s₁ =>
  cases r with
  | error err => trivial
  | ok plan =>
    obtain ⟨decision,s₂,-,⟨-,rfl⟩ | ⟨policy,-,-,hrecovered,hpolicy⟩⟩ := planSubject_ok hr
    · exact .inl rfl
    · have hmatched := applyFallback_matched hlower h policy
      rw [← hpolicy] at hmatched
      exact .inr ⟨hrecovered,hmatched⟩

/-- The promises of a query are for the name of its question, which gets fake addresses. -/
theorem runStep_promises {mapLower : Str → Str} {t : ℤ} {s s₁ : Stores} (hs : StoresConsistent s)
    {query : Msg} {upstream : Except String Msg} {use : Str → Bool} {question : Question}
    (hquestion : query.question = [question]) {granted : List Promise}
    (h : runStep mapLower t s (.query query upstream use) = .ok (granted,s₁)) {pr : Promise}
    (hpr : pr ∈ granted) :
    StoresConsistent s₁ ∧ IsAddressType pr.qtype ∧ pr.domain = storedDomain mapLower question ∧
      use (queriedDomain mapLower question) = true := by
  obtain ⟨r,hr,hs₁,heffect⟩ := runStep_effect hs mapLower t (.query query upstream use)
  obtain rfl : r = (granted,s₁) := Except.ok.inj (hr.symm.trans h)
  refine ⟨hs₁,?_⟩
  cases heffect with
  | trims ht => simp at hpr
  | @grants _ _ _ question' resp reply ra st hh halloc hans =>
    obtain ⟨hquestion',-,-,hq,-,huse⟩ := hijacked_eq_some hh
    obtain rfl : question = question' := by simpa using hquestion.symm.trans hquestion'
    cases reply with
    | error err => simp [stepPromises] at hpr
    | ok msg =>
      obtain ⟨rr,-,rfl⟩ := List.mem_map.mp hpr
      exact ⟨hq,rfl,huse⟩

theorem consistent_of_runSteps {mapLower : Str → Str} {s s' : Stores} (hs : StoresConsistent s)
    {steps : List (ℤ × Step)} {promises promises' : List Promise}
    (h : runSteps mapLower steps promises s = .ok (promises',s')) : StoresConsistent s' := by
  obtain ⟨r,hr,hs'⟩ := runSteps_consistent hs mapLower steps promises
  obtain rfl : r = (promises',s') := Except.ok.inj (hr.symm.trans h)
  exact hs'

/-- A query is answered with a fake address while the rules are those of `rt`. As long as the
store still has the name under that address, planning recovers the name and takes it as
matched, whatever else was asked before and since. -/
theorem planRequest_of_fake_answer {σ : Type} (rt : Runtime σ) (hlower : LowersOnce rt.mapLower)
    (before after : List (ℤ × Step)) {promises granted promises' : List Promise} {s s₁ s₂ : Stores}
    (hbefore : runSteps rt.mapLower before [] {} = .ok (promises,s))
    {query : Msg} {question : Question} (hquestion : query.question = [question])
    {t : ℤ} {upstream : Except String Msg}
    (hanswer : runStep rt.mapLower t s (.query query upstream (shouldUseFakeIP rt)) = .ok (granted,s₁))
    (hafter : runSteps rt.mapLower after granted s₁ = .ok (promises',s₂))
    {pr : Promise} (hpr : pr ∈ granted) {now : ℤ}
    (hlive : ((family pr.qtype s₂).lookupDomain pr.address now).1 = (pr.domain,true))
    {req : RequestContext} (hhost : req.host = pr.address) (w : σ) :
    AgreesOn (queriedDomain rt.mapLower question) (planRequest rt req now (s₂,w)).1 := by
  have hs := consistent_of_runSteps startStores_consistent hbefore
  obtain ⟨hs₁,hq,hdomain,huse⟩ := runStep_promises hs hquestion hanswer hpr
  have hs₂ := consistent_of_runSteps hs₁ hafter
  have hname : pr.domain = queriedDomain rt.mapLower question := hdomain.trans (toLower_toLower hlower _)
  rw [hname] at hlive
  have hrecover := recoverDomain_of_family rt hs₂ hq (ne_nil_of_shouldUseFakeIP huse) hlive w
  have hne : req.host ≠ [] := hhost ▸ (isFakeText_of_found hs₂ hlive).ne_nil
  rw [planRequest_of_ne_nil hne,hhost,hrecover]
  exact planSubject_agreesOn (toLower_toLower hlower _) huse _ _ _

end Plan

def directRule : Policy := {mode := .direct}

/-- One rule, for the name a.b, and no list. -/
def oneRule : Runtime Unit where
  tables := {blockAll with
    defaultPolicy := {mode := .raw}
    domainMatcher := (DomainMatcher.newDomainMatcher : DomainMatcher.Matcher Policy).insertPattern
      directRule false true (DomainMatcher.labels (str "a.b"))}
  world := answering [1,2,3,4]
  mapLower := id
  gfwDomainMatcher := none
  gfwBypassMatcher := none
  ipDomainCacheGet := none

/-- A query for the addresses of A.b, answered with one record. -/
def ruleQuery : Msg := {question := [⟨str "A.b.",typeA,classINET⟩]}

def ruleStep : Step :=
  .query ruleQuery (.ok {answer := [⟨⟨str "A.b.",typeA,classINET,300⟩,.a [1,2,3,4]⟩]})
    (shouldUseFakeIP oneRule)

theorem planRequest_of_fake_answer_once :
    ∃ s, runStep id 0 {} ruleStep = .ok ([⟨typeA,str "a.b",str "198.18.0.1",300*second⟩],s) ∧
      AgreesOn (str "a.b") (planRequest oneRule {host := str "198.18.0.1"} (299*second) (s,())).1 := by
  have hrun : ∃ s, runStep id 0 {} ruleStep =
      .ok ([⟨typeA,str "a.b",str "198.18.0.1",300*second⟩],s) ∧
      ((family typeA s).lookupDomain (str "198.18.0.1") (299*second)).1 = (str "a.b",true) :=
    ⟨_,rfl,rfl⟩
  obtain ⟨s,hrun,hlive⟩ := hrun
  have hquestion : ruleQuery.question = [⟨str "A.b.",typeA,classINET⟩] := rfl
  exact ⟨s,hrun,planRequest_of_fake_answer oneRule lowersOnce_id [] [] rfl hquestion hrun rfl
    List.mem_cons_self hlive rfl ()⟩

end PlanRequest
end Enimul
