import Enimul.DNSAnswer

/-! How long a fake answer stays valid.
A reply with a fake record promises that its address stands for the name until the TTL of
the record is over. The store keeps an entry until the lifetime of its last allocation is
over, so the promises are kept as long as no allocation ends before an earlier promise
and no record outlives the allocation that it comes from. -/
namespace Enimul
namespace DNSHijack

open GoSlice GoText NetIP GoRun Resolve FakeIP FakeIPStore

/-- A query with what the upstream server returns for it and the names that get fake
addresses at that time, or a lookup of an address. -/
inductive Step
  | query (req : Msg) (upstream : Except String Msg) (shouldUseFakeIP : Str → Bool)
  | lookup (ip : Str)

structure Promise where
  qtype : ℕ
  domain : Str
  address : Str
  deadline : ℤ
  deriving DecidableEq, Repr

section Run

variable (mapLower : Str → Str)

/-- The question of a query whose answer is replaced, and the upstream answer. -/
def hijacked (req : Msg) (upstream : Except String Msg) (shouldUseFakeIP : Str → Bool) :
    Option (Question × Msg) :=
  match req.question,upstream with
  | [question],.ok resp =>
    if question.qclass = classINET ∧ (question.qtype = typeA ∨ question.qtype = typeAAAA) ∧
      resp.rcode = rcodeSuccess ∧ shouldUseFakeIP (queriedDomain mapLower question)
    then some (question,resp) else none
  | _,_ => none

/-- The name under which the store files a queried name. -/
def storedDomain (question : Question) : Str :=
  toLower mapLower (queriedDomain mapLower question)

/-- In such a reply the records of the queried type are the fake ones. -/
def promisesOf (now : ℤ) (question : Question) (reply : Msg) : List Promise :=
  (reply.answer.filter fun rr => rr.header.rrtype = question.qtype).map fun rr =>
    ⟨question.qtype,storedDomain mapLower question,addressText rr,now+rr.header.ttl*second⟩

def stepPromises (now : ℤ) (hijack : Option (Question × Msg)) (reply : Except String Msg) :
    List Promise :=
  match hijack,reply with
  | some (question,_),.ok msg => promisesOf mapLower now question msg
  | _,_ => []

def runStep (now : ℤ) (s : Stores) : Step → Checked (List Promise × Stores)
  | .query req upstream shouldUseFakeIP => do
    let r ← handleDNSQuery mapLower upstream shouldUseFakeIP now req s
    return (stepPromises mapLower now (hijacked mapLower req upstream shouldUseFakeIP) r.1,r.2)
  | .lookup ip => return ([],(lookupFakeDomainByIP ip now s).2)

/-- A run from some promises and stores, each step with its time. -/
def runSteps : List (ℤ × Step) → List Promise → Stores → Checked (List Promise × Stores)
  | [], promises, s => return (promises,s)
  | (now,step)::steps, promises, s => do
    let r ← runStep mapLower now s step
    runSteps steps (r.1++promises) r.2

/-- The condition on one step, in the state before it: the lifetime of the allocation ends
neither before a replaced record does nor before the live entry of the name. -/
def Meets (now : ℤ) (s : Stores) : Step → Prop
  | .query req upstream shouldUseFakeIP =>
    ∀ question resp, hijacked mapLower req upstream shouldUseFakeIP = some (question,resp) →
      (∀ rr ∈ firstPerOwner question.qtype [] resp.answer,
        fakeTTL rr.header.ttl*second ≤ fakeIPLifetime (grantTTL question.qtype resp)) ∧
      ∀ ip e, (family question.qtype s).ipToEntry ip = some e → now < e.expiresAt →
        e.domain = storedDomain mapLower question →
        e.expiresAt ≤ now+fakeIPLifetime (grantTTL question.qtype resp)
  | .lookup _ => True

def MeetsAll : List (ℤ × Step) → Stores → Prop
  | [], _ => True
  | (now,step)::steps, s =>
    Meets mapLower now s step ∧ ∀ r, runStep mapLower now s step = .ok r → MeetsAll steps r.2

end Run

section Kept

variable {mapLower : Str → Str} {now now' : ℤ} {s : Stores} {promises : List Promise}

/-- The store has the entry that a promise is about, at least until its deadline. -/
def Backs (st : FakeIPStore) (pr : Promise) : Prop :=
  ∃ e, st.ipToEntry pr.address = some e ∧ e.domain = pr.domain ∧ pr.deadline ≤ e.expiresAt

def Kept (now : ℤ) (s : Stores) (promises : List Promise) : Prop :=
  ∀ pr ∈ promises, IsAddressType pr.qtype ∧ (now < pr.deadline → Backs (family pr.qtype s) pr)

theorem Kept.mono (h : Kept now s promises) (hle : now ≤ now') : Kept now' s promises :=
  fun pr hpr => ⟨(h pr hpr).1,fun hlt => (h pr hpr).2 (lt_of_le_of_lt hle hlt)⟩

theorem Backs.trims {st st' : FakeIPStore} {pr : Promise} (h : Backs st pr)
    (hlive : now < pr.deadline)
    (ht : Trims now (st.ipToEntry pr.address) (st'.ipToEntry pr.address)) : Backs st' pr := by
  obtain ⟨e,he,hdomain,hdeadline⟩ := h
  exact ⟨e,ht.some_of_before he (lt_of_lt_of_le hlive hdeadline),hdomain,hdeadline⟩

theorem Backs.lookupDomain {st : FakeIPStore} {pr : Promise} (h : Backs st pr)
    (hlive : now < pr.deadline) : (st.lookupDomain pr.address now).1 = (pr.domain,true) := by
  obtain ⟨e,he,hdomain,hdeadline⟩ := h
  rw [lookupDomain_answer,answer_eq_iff]
  exact ⟨e,he,hdomain,lt_of_lt_of_le hlive hdeadline⟩

/-- An allocation that lasts at least as long as the live entry of its name backs all
promises that were backed before. -/
theorem Backs.allocates {st st' : FakeIPStore} {pr : Promise} (h : Backs st pr)
    (hlive : now < pr.deadline) {domain : Str} {expiresAt : ℤ} {ra : Except String Str}
    (halloc : Allocates now st domain expiresAt (ra,st'))
    (hlonger : ∀ ip e, st.ipToEntry ip = some e → now < e.expiresAt → e.domain = domain →
      e.expiresAt ≤ expiresAt) : Backs st' pr := by
  cases ra with
  | error err => exact h.trims hlive (halloc pr.address)
  | ok ip =>
    obtain ⟨e,he,hdomain,hdeadline⟩ := h
    have hlt : now < e.expiresAt := lt_of_lt_of_le hlive hdeadline
    by_cases hip : pr.address = ip
    · -- the address was given out again, so the name is the same
      have hsame := (halloc.owner pr.address e he hlt).mpr hip
      have hend := hlonger pr.address e he hlt hsame
      exact ⟨_,hip ▸ halloc.granted,hsame ▸ hdomain,hdeadline.trans hend⟩
    · exact Backs.trims ⟨e,he,hdomain,hdeadline⟩ hlive (halloc.others pr.address hip)

section Query

variable {req : Msg} {upstream : Except String Msg} {shouldUseFakeIP : Str → Bool}

theorem hijacked_eq_some {question : Question} {resp : Msg}
    (h : hijacked mapLower req upstream shouldUseFakeIP = some (question,resp)) :
    req.question = [question] ∧ upstream = .ok resp ∧ question.qclass = classINET ∧
      IsAddressType question.qtype ∧ resp.rcode = rcodeSuccess ∧
      shouldUseFakeIP (queriedDomain mapLower question) = true := by
  unfold hijacked at h
  split at h
  · rename_i q r hquestion
    split at h
    · rename_i hcond
      obtain ⟨rfl,rfl⟩ := Prod.mk.inj (Option.some.inj h)
      exact ⟨hquestion,rfl,hcond⟩
    · simp at h
  · simp at h

theorem hijacked_of_query {question : Question} {resp : Msg} (hquestion : req.question = [question])
    (hclass : question.qclass = classINET) (hq : IsAddressType question.qtype)
    (hcode : resp.rcode = rcodeSuccess)
    (huse : shouldUseFakeIP (queriedDomain mapLower question) = true) :
    hijacked mapLower req (.ok resp) shouldUseFakeIP = some (question,resp) := by
  unfold hijacked
  rw [hquestion]
  exact if_pos ⟨hclass,hq,hcode,huse⟩

theorem upstream_ok (resp : Msg) (s : Stores) :
    Proc.withStr "upstream dns exchange" (Proc.ofExcept (.ok resp)) s = .ok (.ok resp,s) := rfl

/-- The answer for a matched name is replaced. -/
theorem buildFakeAddressResponse_matched {resp : Msg} (hcode : resp.rcode = rcodeSuccess)
    {domain : Str} (huse : shouldUseFakeIP domain = true) (qtype : ℕ) (now : ℤ)
    (question : Question) (s : Stores) :
    buildFakeAddressResponse mapLower (.ok resp) shouldUseFakeIP domain qtype now question s =
      fakeAnswer mapLower domain qtype now question resp s := by
  rw [buildFakeAddressResponse,Proc.bind_run (upstream_ok resp s),if_neg (not_not.mpr hcode),
    if_pos huse]

theorem handleDNSQuery_of_hijacked {question : Question} {resp : Msg}
    (h : hijacked mapLower req upstream shouldUseFakeIP = some (question,resp)) (now : ℤ)
    (s : Stores) :
    handleDNSQuery mapLower upstream shouldUseFakeIP now req s =
      fakeAnswer mapLower (queriedDomain mapLower question) question.qtype now question resp s := by
  obtain ⟨hquestion,rfl,hclass,hq,hcode,huse⟩ := hijacked_eq_some h
  have hhttps : question.qtype ≠ typeHTTPS := by
    rcases hq with hq | hq <;> rw [hq] <;> decide
  have hhandle : handleDNSQuery mapLower (.ok resp) shouldUseFakeIP now req =
      handleQuestion mapLower (.ok resp) shouldUseFakeIP now question := by
    rw [handleDNSQuery,hquestion]
  unfold IsAddressType at hq
  rw [hhandle,handleQuestion,if_neg (not_not.mpr hclass),if_neg hhttps,if_pos hq,
    buildFakeAddressResponse_matched hcode huse]

/-- Only a hijacked query gets beyond the upstream answer. -/
theorem buildFakeAddressResponse_passes {resp : Msg} {domain : Str} {qtype : ℕ}
    (h : ¬(resp.rcode = rcodeSuccess ∧ shouldUseFakeIP domain = true)) (now : ℤ)
    (question : Question) (s : Stores) :
    buildFakeAddressResponse mapLower (.ok resp) shouldUseFakeIP domain qtype now question s =
      .ok (.ok resp,s) := by
  rw [buildFakeAddressResponse,Proc.bind_run (upstream_ok resp s)]
  by_cases hcode : resp.rcode = rcodeSuccess
  · have huse : ¬ shouldUseFakeIP domain = true := fun huse => h ⟨hcode,huse⟩
    rw [if_neg (not_not.mpr hcode),if_neg huse]
    rfl
  · rw [if_pos hcode]
    rfl

/-- A query that is not hijacked leaves the stores alone. -/
theorem handleDNSQuery_of_not_hijacked (h : hijacked mapLower req upstream shouldUseFakeIP = none)
    (now : ℤ) (s : Stores) :
    ∃ r, handleDNSQuery mapLower upstream shouldUseFakeIP now req s = .ok (r,s) := by
  unfold handleDNSQuery
  match hquestion : req.question with
  | [] => exact ⟨upstream,rfl⟩
  | _::_::_ => exact ⟨upstream,rfl⟩
  | [question] =>
    dsimp only
    by_cases hcond : question.qclass = classINET ∧ question.qtype ≠ typeHTTPS ∧
        (question.qtype = typeA ∨ question.qtype = typeAAAA)
    · obtain ⟨hclass,hhttps,hq⟩ := hcond
      rw [handleQuestion,if_neg (not_not.mpr hclass),if_neg hhttps,if_pos hq]
      cases upstream with
      | error err => exact ⟨_,rfl⟩
      | ok resp =>
        refine ⟨.ok resp,buildFakeAddressResponse_passes (fun hpass => ?_) now question s⟩
        simp [hijacked_of_query hquestion hclass hq hpass.1 hpass.2] at h
    · refine ⟨upstream,?_⟩
      rw [handleQuestion]
      by_cases hclass : question.qclass = classINET
      · rw [if_neg (not_not.mpr hclass)]
        by_cases hhttps : question.qtype = typeHTTPS
        · rw [if_pos hhttps]
          rfl
        · rw [if_neg hhttps,if_neg fun hq => hcond ⟨hclass,hhttps,hq⟩]
          rfl
      · rw [if_pos hclass]
        rfl

end Query

/-- The promises of a reply are backed by the allocation that it comes from. -/
theorem promisesOf_backed {question : Question} {resp msg : Msg} {st st' : FakeIPStore}
    {ra : Except String Str}
    (halloc : Allocates now st (storedDomain mapLower question)
      (now+fakeIPLifetime (grantTTL question.qtype resp)) (ra,st'))
    (hans : Answers question.qtype resp ra (.ok msg))
    (hshort : ∀ rr ∈ firstPerOwner question.qtype [] resp.answer,
      fakeTTL rr.header.ttl*second ≤ fakeIPLifetime (grantTTL question.qtype resp))
    {pr : Promise} (hpr : pr ∈ promisesOf mapLower now question msg) :
    pr.qtype = question.qtype ∧ Backs st' pr := by
  obtain ⟨ip,rfl,hrecords⟩ := hans msg rfl
  obtain ⟨rr,hrr,rfl⟩ := List.mem_map.mp hpr
  obtain ⟨hmem,htype⟩ := List.mem_filter.mp hrr
  obtain ⟨haddr,httl⟩ := hrecords rr hmem (of_decide_eq_true htype)
  have hlife : rr.header.ttl*second ≤ fakeIPLifetime (grantTTL question.qtype resp) := by
    rcases httl with heq | ⟨up,hup,heq⟩
    · rw [heq]
      exact fakeTTL_le_lifetime _
    · rw [heq]
      exact hshort up hup
  have hentry := halloc.granted
  rw [← haddr] at hentry
  exact ⟨rfl,_,hentry,rfl,add_le_add_right hlife now⟩

/-- A step that only drops expired entries. -/
theorem Kept.trims {s' : Stores} (h : Kept now s promises)
    (ht : ∀ qtype b, IsAddressType qtype →
      Trims now ((family qtype s).ipToEntry b) ((family qtype s').ipToEntry b)) :
    Kept now s' promises := by
  intro pr hpr
  obtain ⟨hq,hback⟩ := h pr hpr
  exact ⟨hq,fun hlive => (hback hlive).trims hlive (ht pr.qtype pr.address hq)⟩

theorem lookupFakeDomainByIP_spec (hs : StoresConsistent s) (ip : Str) (now : ℤ) :
    StoresConsistent (lookupFakeDomainByIP ip now s).2 ∧
      ∀ qtype b, IsAddressType qtype → Trims now ((family qtype s).ipToEntry b)
        ((family qtype (lookupFakeDomainByIP ip now s).2).ipToEntry b) := by
  obtain ⟨h4,ht4⟩ := hs.v4.lookupDomain ip now
  obtain ⟨h6,ht6⟩ := hs.v6.lookupDomain ip now
  rw [lookupFakeDomainByIP]
  dsimp only
  split
  · refine ⟨⟨h4,hs.v6⟩,?_⟩
    rintro qtype b (rfl | rfl)
    · exact ht4 b
    · exact .inl rfl
  · refine ⟨⟨h4,h6⟩,?_⟩
    rintro qtype b (rfl | rfl)
    · exact ht4 b
    · exact ht6 b

/-- A hijacked query that meets the condition keeps the old promises and backs its own. -/
theorem Kept.hijacked {question : Question} {resp : Msg} (h : Kept now s promises)
    (hq : IsAddressType question.qtype) {st : FakeIPStore} {ra : Except String Str}
    {r : Except String Msg}
    (halloc : Allocates now (family question.qtype s) (storedDomain mapLower question)
      (now+fakeIPLifetime (grantTTL question.qtype resp)) (ra,st))
    (hans : Answers question.qtype resp ra r)
    (hshort : ∀ rr ∈ firstPerOwner question.qtype [] resp.answer,
      fakeTTL rr.header.ttl*second ≤ fakeIPLifetime (grantTTL question.qtype resp))
    (hlonger : ∀ ip e, (family question.qtype s).ipToEntry ip = some e → now < e.expiresAt →
      e.domain = storedDomain mapLower question →
      e.expiresAt ≤ now+fakeIPLifetime (grantTTL question.qtype resp)) :
    Kept now (setFamily question.qtype st s)
      (stepPromises mapLower now (some (question,resp)) r++promises) := by
  intro pr hpr
  rcases List.mem_append.mp hpr with hnew | hold
  · cases r with
    | error err => simp [stepPromises] at hnew
    | ok msg =>
      obtain ⟨htype,hback⟩ := promisesOf_backed halloc hans hshort hnew
      rw [htype,family_setFamily]
      exact ⟨hq,fun _ => hback⟩
  · obtain ⟨hq',hback⟩ := h pr hold
    refine ⟨hq',fun hlive => ?_⟩
    have hback := hback hlive
    by_cases htype : pr.qtype = question.qtype
    · rw [htype] at hback ⊢
      rw [family_setFamily]
      exact hback.allocates hlive halloc hlonger
    · rw [family_setFamily_ne hq hq' htype]
      exact hback

/-- All that a step can do: drop expired entries, or answer a query with the address of one
allocation. -/
inductive Effect (mapLower : Str → Str) (now : ℤ) (s : Stores) : Step → List Promise × Stores → Prop
  | trims {step : Step} {s' : Stores}
      (ht : ∀ qtype b, IsAddressType qtype →
        Trims now ((family qtype s).ipToEntry b) ((family qtype s').ipToEntry b)) :
      Effect mapLower now s step ([],s')
  | grants {req : Msg} {upstream : Except String Msg} {shouldUseFakeIP : Str → Bool}
      {question : Question} {resp : Msg} {r : Except String Msg} {ra : Except String Str}
      {st : FakeIPStore}
      (hh : hijacked mapLower req upstream shouldUseFakeIP = some (question,resp))
      (halloc : Allocates now (family question.qtype s) (storedDomain mapLower question)
        (now+fakeIPLifetime (grantTTL question.qtype resp)) (ra,st))
      (hans : Answers question.qtype resp ra r) :
      Effect mapLower now s (.query req upstream shouldUseFakeIP)
        (stepPromises mapLower now (some (question,resp)) r,setFamily question.qtype st s)

theorem runStep_effect (hs : StoresConsistent s) (mapLower : Str → Str) (now : ℤ) (step : Step) :
    ∃ r, runStep mapLower now s step = .ok r ∧ StoresConsistent r.2 ∧
      Effect mapLower now s step r := by
  cases step with
  | lookup ip =>
    obtain ⟨hs',ht⟩ := lookupFakeDomainByIP_spec hs ip now
    exact ⟨_,rfl,hs',.trims ht⟩
  | query req upstream shouldUseFakeIP =>
    cases hh : hijacked mapLower req upstream shouldUseFakeIP with
    | none =>
      obtain ⟨r,hr⟩ := handleDNSQuery_of_not_hijacked hh now s
      refine ⟨([],s),?_,hs,.trims fun _ _ _ => .inl rfl⟩
      rw [runStep,hr,hh]
      rfl
    | some hijack =>
      obtain ⟨question,resp⟩ := hijack
      have hq := (hijacked_eq_some hh).2.2.2.1
      obtain ⟨r,ra,st,hr,hst,halloc,hans⟩ :=
        fakeAnswer_spec mapLower (queriedDomain mapLower question) now hs hq resp
      refine ⟨_,?_,hs.set hst,.grants hh halloc hans⟩
      rw [runStep,handleDNSQuery_of_hijacked hh,hr,hh]
      rfl

theorem runSteps_consistent (hs : StoresConsistent s) (mapLower : Str → Str)
    (steps : List (ℤ × Step)) (promises : List Promise) :
    ∃ r, runSteps mapLower steps promises s = .ok r ∧ StoresConsistent r.2 := by
  induction steps generalizing promises s with
  | nil => exact ⟨_,rfl,hs⟩
  | cons ts steps ih =>
    obtain ⟨t,step⟩ := ts
    obtain ⟨r,hr,hs',-⟩ := runStep_effect hs mapLower t step
    obtain ⟨r',hrun,hfin⟩ := ih hs' (r.1++promises)
    exact ⟨r',by simp [runSteps,hr,hrun],hfin⟩

theorem runStep_kept (hs : StoresConsistent s) (h : Kept now s promises) {step : Step}
    (hmeets : Meets mapLower now s step) :
    ∃ r, runStep mapLower now s step = .ok r ∧ StoresConsistent r.2 ∧
      Kept now r.2 (r.1++promises) := by
  obtain ⟨r,hr,hs',heffect⟩ := runStep_effect hs mapLower now step
  refine ⟨r,hr,hs',?_⟩
  cases heffect with
  | trims ht => exact h.trims ht
  | @grants req upstream shouldUseFakeIP question resp r ra st hh halloc hans =>
    obtain ⟨hshort,hlonger⟩ := hmeets question resp hh
    exact h.hijacked (hijacked_eq_some hh).2.2.2.1 halloc hans hshort hlonger

theorem runSteps_kept {steps : List (ℤ × Step)} {now : ℤ}
    (hclock : (steps.map Prod.fst++[now]).Pairwise (· ≤ ·)) (hs : StoresConsistent s)
    (h : ∀ t ∈ steps.map Prod.fst++[now], Kept t s promises) (hmeets : MeetsAll mapLower steps s) :
    ∃ r, runSteps mapLower steps promises s = .ok r ∧ Kept now r.2 r.1 := by
  induction steps generalizing promises s with
  | nil => exact ⟨_,rfl,h now (by simp)⟩
  | cons ts steps ih =>
    obtain ⟨t,step⟩ := ts
    obtain ⟨hmeets,hrest⟩ := hmeets
    obtain ⟨r,hr,hs',hkept⟩ := runStep_kept hs (h t (by simp)) hmeets
    obtain ⟨hle,htail⟩ := List.pairwise_cons.mp hclock
    obtain ⟨r',hrun,hfin⟩ := ih htail hs' (fun t' ht' => hkept.mono (hle t' ht')) (hrest r hr)
    exact ⟨r',by simp [runSteps,hr,hrun],hfin⟩

theorem startStores_consistent : StoresConsistent {} := by
  have hpool4 := familyCIDR_pool typeA
  have hpool6 := familyCIDR_pool typeAAAA
  exact ⟨newFakeIPStore_consistent hpool4.1 hpool4.2,newFakeIPStore_consistent hpool6.1 hpool6.2⟩

end Kept

theorem runSteps_keeps_promises (mapLower : Str → Str) (steps : List (ℤ × Step)) (now : ℤ)
    (hclock : (steps.map Prod.fst++[now]).Pairwise (· ≤ ·)) (hmeets : MeetsAll mapLower steps {}) :
    ∃ promises s, runSteps mapLower steps [] {} = .ok (promises,s) ∧
      ∀ pr ∈ promises, now < pr.deadline →
        ((family pr.qtype s).lookupDomain pr.address now).1 = (pr.domain,true) := by
  have hnone : ∀ t ∈ steps.map Prod.fst++[now], Kept t {} [] := by
    intro t _ pr hpr
    simp at hpr
  obtain ⟨⟨promises,s⟩,hrun,hkept⟩ := runSteps_kept hclock startStores_consistent hnone hmeets
  exact ⟨promises,s,hrun,fun pr hpr hlive => ((hkept pr hpr).2 hlive).lookupDomain hlive⟩

/-- A query for the address of a name, answered with one record. -/
def addressQuery (name : Str) (ttl : ℕ) : Step :=
  .query {question := [⟨name,typeA,classINET⟩]}
    (.ok {answer := [⟨⟨name,typeA,classINET,ttl⟩,.a [1,2,3,4]⟩]}) fun _ => true

theorem runSteps_keeps_promises_once :
    ∃ promises s, runSteps id [(0,addressQuery (str "a.b.") 300)] [] {} = .ok (promises,s) ∧
      ((family typeA s).lookupDomain (str "198.18.0.1") (299*second)).1 = (str "a.b",true) := by
  have hmeets : MeetsAll id [(0,addressQuery (str "a.b.") 300)] {} := by
    refine ⟨fun question resp h => ?_,fun _ _ => trivial⟩
    obtain ⟨rfl,rfl⟩ := Prod.mk.inj (Option.some.inj h)
    refine ⟨by decide,fun ip e he => ?_⟩
    change none = some e at he
    simp at he
  obtain ⟨promises,s,hrun,hkept⟩ := runSteps_keeps_promises id
    [(0,addressQuery (str "a.b.") 300)] (299*second) (by decide) hmeets
  have hpromises : promises = [⟨typeA,str "a.b",str "198.18.0.1",300*second⟩] := by
    have hfst := congrArg (Except.map Prod.fst) hrun
    exact (Except.ok.inj hfst).symm
  subst hpromises
  exact ⟨_,s,hrun,hkept _ List.mem_cons_self (by decide)⟩

/-- What a run promises, and what it answers at some time for the first fake address. -/
def promisedAndFound (steps : List (ℤ × Step)) (now : ℤ) : Checked (List Promise × (Str × Bool)) := do
  let r ← runSteps id steps [] {}
  return (r.1,((family typeA r.2).lookupDomain (str "198.18.0.1") now).1)

theorem runSteps_of_promisedAndFound {steps : List (ℤ × Step)} {now : ℤ} {promises : List Promise}
    {found : Str × Bool} (h : promisedAndFound steps now = .ok (promises,found)) :
    ∃ s, runSteps id steps [] {} = .ok (promises,s) ∧
      ((family typeA s).lookupDomain (str "198.18.0.1") now).1 = found := by
  rw [promisedAndFound] at h
  cases hrun : runSteps id steps [] {} with
  | error fault =>
    rw [hrun] at h
    simp [bind,Except.bind] at h
  | ok r =>
    rw [hrun] at h
    obtain ⟨rfl,rfl⟩ := Prod.mk.inj (Except.ok.inj h)
    exact ⟨r.2,rfl,rfl⟩

/-- A later answer with a smaller TTL leaves the address of the first one dangling. -/
theorem runSteps_breaks_promise :
    ∃ promises s, runSteps id [(0,addressQuery (str "a.b.") 300),(second,addressQuery (str "a.b.") 60)]
        [] {} = .ok (promises,s) ∧
      ∃ pr ∈ promises, 100*second < pr.deadline ∧
        ((family pr.qtype s).lookupDomain pr.address (100*second)).1 = ([],false) := by
  have hfound : promisedAndFound [(0,addressQuery (str "a.b.") 300),
      (second,addressQuery (str "a.b.") 60)] (100*second) =
      .ok ([⟨typeA,str "a.b",str "198.18.0.1",second+60*second⟩,
        ⟨typeA,str "a.b",str "198.18.0.1",300*second⟩],([],false)) := by rfl
  obtain ⟨s,hrun,hlookup⟩ := runSteps_of_promisedAndFound hfound
  exact ⟨_,s,hrun,_,List.mem_cons_of_mem _ List.mem_cons_self,by decide,hlookup⟩

end DNSHijack
end Enimul
