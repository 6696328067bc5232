import Enimul.FakeIP

/-! The store as a log of allocations.
All that a store does for its callers is to remember, for each address, the last
allocation that returned it, until the lifetime of that allocation is over. -/
namespace Enimul
namespace FakeIP

open GoSlice GoText NetIP FakeIPStore

inductive Call
  | allocate (domain : Str) (lifetime : ℤ)
  | lookupDomain (ip : Str)
  deriving DecidableEq, Repr

inductive Reply
  | allocate (r : Except String Str)
  | lookupDomain (r : Str × Bool)

/-- A successful call of `Allocate`. -/
structure Allocation where
  domain : Str
  lifetime : ℤ
  madeAt : ℤ
  ip : Str
  deriving DecidableEq, Repr

/-- The log after one call, the last allocation first. -/
def record (now : ℤ) : Call → Reply → List Allocation → List Allocation
  | .allocate domain lifetime, .allocate (.ok ip), log => ⟨domain,lifetime,now,ip⟩::log
  | _, _, log => log

def mostRecent (log : List Allocation) (ip : Str) : Option Allocation :=
  log.find? fun a => a.ip = ip

section Run

variable (mapLower : Str → Str)

def call (now : ℤ) (st : FakeIPStore) : Call → Checked (Reply × FakeIPStore)
  | .allocate domain lifetime => do
    let r ← st.allocate mapLower domain lifetime now
    return (.allocate r.1,r.2)
  | .lookupDomain ip =>
    let r := st.lookupDomain ip now
    return (.lookupDomain r.1,r.2)

/-- A run of calls, each with its time. It gives the log and the store after it. -/
def runCalls : List (ℤ × Call) → List Allocation → FakeIPStore →
    Checked (List Allocation × FakeIPStore)
  | [], log, st => return (log,st)
  | (now,c)::calls, log, st => do
    let r ← call mapLower now st c
    runCalls calls (record now c r.1 log) r.2

def Allocation.entry (a : Allocation) : FakeIPEntry :=
  ⟨toLower mapLower a.domain,a.ip,a.madeAt+effectiveLifetime a.lifetime⟩

/-- What the log says about an address. -/
def logEntry (log : List Allocation) (ip : Str) : Option FakeIPEntry :=
  (mostRecent log ip).map (Allocation.entry mapLower)

/-- For every address the store holds what the log says, or that has expired. -/
def Agrees (now : ℤ) (log : List Allocation) (st : FakeIPStore) : Prop :=
  ∀ ip, Trims now (logEntry mapLower log ip) (st.ipToEntry ip)

variable {mapLower} {p : Prefix} {now now' : ℤ} {log : List Allocation} {st : FakeIPStore}

theorem Agrees.mono (h : Agrees mapLower now log st) (hle : now ≤ now') :
    Agrees mapLower now' log st := by
  intro ip
  rcases h ip with heq | ⟨hnone,hexp⟩
  · exact .inl heq
  · exact .inr ⟨hnone,fun e he => (hexp e he).trans hle⟩

theorem logEntry_cons (a : Allocation) (log : List Allocation) (ip : Str) :
    logEntry mapLower (a::log) ip =
      if a.ip = ip then some (a.entry mapLower) else logEntry mapLower log ip := by
  by_cases h : a.ip = ip <;> simp [logEntry,mostRecent,h]

/-- One call keeps the invariant and the agreement with the log. -/
theorem call_agrees (hm : p.masked = p.addr) (hsize : 2 ≤ p.size) (hinv : Consistent p st)
    (h : Agrees mapLower now log st) (c : Call) :
    ∃ r, call mapLower now st c = .ok r ∧ Consistent p r.2 ∧
      Agrees mapLower now (record now c r.1 log) r.2 := by
  cases c with
  | lookupDomain ip =>
    obtain ⟨hinv',htrims⟩ := hinv.lookupDomain ip now
    exact ⟨_,rfl,hinv',fun b => (h b).trans (htrims b)⟩
  | allocate domain lifetime =>
    obtain ⟨⟨r,st'⟩,hr,hinv',halloc⟩ := hinv.allocate hm hsize mapLower domain lifetime now
    refine ⟨(.allocate r,st'),by simp [call,hr],hinv',fun b => ?_⟩
    cases r with
    | error err => exact (h b).trans (halloc b)
    | ok ip =>
      rw [record,logEntry_cons]
      by_cases hb : ip = b
      · subst hb
        rw [if_pos rfl]
        exact .inl halloc.granted
      · rw [if_neg hb]
        exact (h b).trans (halloc.others b (Ne.symm hb))

theorem runCalls_agrees (hm : p.masked = p.addr) (hsize : 2 ≤ p.size) {calls : List (ℤ × Call)}
    {now : ℤ} (hclock : (calls.map Prod.fst++[now]).Pairwise (· ≤ ·))
    (hstart : ∀ t ∈ calls.map Prod.fst++[now], Agrees mapLower t log st) (hinv : Consistent p st) :
    ∃ r, runCalls mapLower calls log st = .ok r ∧ Consistent p r.2 ∧ Agrees mapLower now r.1 r.2 := by
  induction calls generalizing log st with
  | nil => exact ⟨_,rfl,hinv,hstart now (by simp)⟩
  | cons tc calls ih =>
    obtain ⟨t,c⟩ := tc
    obtain ⟨⟨reply,st'⟩,hr,hinv',hagrees⟩ := call_agrees hm hsize hinv (hstart t (by simp)) c
    obtain ⟨hle,htail⟩ := List.pairwise_cons.mp hclock
    obtain ⟨r,hrun,hfin⟩ := ih htail (fun t' ht' => hagrees.mono (hle t' ht')) hinv'
    exact ⟨r,by simp [runCalls,hr,hrun],hfin⟩

/-- Every address ever returned, and every address with an entry, is usable. -/
def AllUsable (p : Prefix) (log : List Allocation) (st : FakeIPStore) : Prop :=
  (∀ a ∈ log, IsUsable p a.ip) ∧ ∀ ip e, st.ipToEntry ip = some e → IsUsable p ip

theorem call_usable (mapLower : Str → Str) (hm : p.masked = p.addr) (hsize : 2 ≤ p.size)
    (hinv : Consistent p st) (h : AllUsable p log st) (now : ℤ) (c : Call) :
    ∃ r, call mapLower now st c = .ok r ∧ Consistent p r.2 ∧
      AllUsable p (record now c r.1 log) r.2 := by
  cases c with
  | lookupDomain ip =>
    obtain ⟨hinv',htrims⟩ := hinv.lookupDomain ip now
    exact ⟨_,rfl,hinv',h.1,fun b e he => h.2 b e ((htrims b).some_of_after he)⟩
  | allocate domain lifetime =>
    obtain ⟨⟨r,st'⟩,hr,hinv',halloc⟩ := hinv.allocate hm hsize mapLower domain lifetime now
    refine ⟨(.allocate r,st'),by simp [call,hr],hinv',?_⟩
    cases r with
    | error err => exact ⟨h.1,fun b e he => h.2 b e ((halloc b).some_of_after he)⟩
    | ok ip =>
      have hip := hinv.allocate_usable hm hsize h.2 hr
      refine ⟨fun a ha => ?_,fun b e he => ?_⟩
      · rcases List.mem_cons.mp ha with rfl | ha
        · exact hip
        · exact h.1 a ha
      · by_cases hb : b = ip
        · exact hb ▸ hip
        · exact h.2 b e ((halloc.others b hb).some_of_after he)

theorem runCalls_usable (mapLower : Str → Str) (hm : p.masked = p.addr) (hsize : 2 ≤ p.size)
    (calls : List (ℤ × Call)) (hinv : Consistent p st) (h : AllUsable p log st) :
    ∃ r, runCalls mapLower calls log st = .ok r ∧ Consistent p r.2 ∧ AllUsable p r.1 r.2 := by
  induction calls generalizing log st with
  | nil => exact ⟨_,rfl,hinv,h⟩
  | cons tc calls ih =>
    obtain ⟨t,c⟩ := tc
    obtain ⟨⟨reply,st'⟩,hr,hinv',hu⟩ := call_usable mapLower hm hsize hinv h t c
    obtain ⟨r,hrun,hfin⟩ := ih hinv' hu
    exact ⟨r,by simp [runCalls,hr,hrun],hfin⟩

end Run

theorem newFakeIPStore_agrees (mapLower : Str → Str) (p : Prefix) (now : ℤ) :
    Agrees mapLower now [] (newFakeIPStore p) := fun _ => .inl rfl

theorem lookupDomain_refines_log (mapLower : Str → Str) {p : Prefix} (hm : p.masked = p.addr)
    (hsize : 2 ≤ p.size) (calls : List (ℤ × Call)) (now : ℤ)
    (hclock : (calls.map Prod.fst++[now]).Pairwise (· ≤ ·)) (ip : Str) :
    ∃ log st, runCalls mapLower calls [] (newFakeIPStore p) = .ok (log,st) ∧
      (∀ d, (st.lookupDomain ip now).1 = (d,true) ↔
        ∃ a, mostRecent log ip = some a ∧ toLower mapLower a.domain = d ∧
          now < a.madeAt+effectiveLifetime a.lifetime) ∧
      ((∀ d, (st.lookupDomain ip now).1 ≠ (d,true)) → (st.lookupDomain ip now).1 = ([],false)) := by
  obtain ⟨⟨log,st⟩,hrun,-,hagrees⟩ := runCalls_agrees hm hsize hclock
    (fun t _ => newFakeIPStore_agrees mapLower p t) (newFakeIPStore_consistent hm hsize)
  refine ⟨log,st,hrun,fun d => ?_,fun hno => ?_⟩
  · rw [lookupDomain_answer,(hagrees ip).answer_eq,answer_eq_iff]
    constructor
    · rintro ⟨e,he,hd,hlive⟩
      obtain ⟨a,ha,rfl⟩ := Option.map_eq_some_iff.mp he
      exact ⟨a,ha,hd,hlive⟩
    · rintro ⟨a,ha,hd,hlive⟩
      exact ⟨a.entry mapLower,by rw [logEntry,ha]; rfl,hd,hlive⟩
  · rw [lookupDomain_answer] at hno ⊢
    exact answer_of_not_found hno

/-- Two addresses, of which the second is given out. -/
def pairOfAddresses : Prefix := ⟨.v4 0xC6336400,31,by decide,rfl⟩

theorem lookupDomain_refines_log_pair :
    ∃ log st, runCalls id [(0,.allocate (str "A.com") (2*second))] []
        (newFakeIPStore pairOfAddresses) = .ok (log,st) ∧
      (st.lookupDomain (str "198.51.100.1") second).1 = (str "a.com",true) := by
  obtain ⟨log,st,hrun,hlookup,-⟩ := lookupDomain_refines_log id (p := pairOfAddresses)
    (by decide) (by decide) [(0,.allocate (str "A.com") (2*second))] second (by decide)
    (str "198.51.100.1")
  have hlog : log = [⟨str "A.com",2*second,0,str "198.51.100.1"⟩] := by
    have hfst := congrArg (Except.map Prod.fst) hrun
    exact (Except.ok.inj hfst).symm
  refine ⟨log,st,hrun,(hlookup _).mpr ?_⟩
  subst hlog
  exact ⟨_,rfl,by decide,by decide⟩

/-- In every state of a store its two maps are inverse to each other. -/
theorem runCalls_maps_inverse (mapLower : Str → Str) {p : Prefix} (hm : p.masked = p.addr)
    (hsize : 2 ≤ p.size) (calls : List (ℤ × Call)) :
    ∃ log st, runCalls mapLower calls [] (newFakeIPStore p) = .ok (log,st) ∧
      (∀ d e, st.domainToEntry d = some e → e.domain = d ∧ st.ipToEntry e.ip = some e) ∧
      (∀ ip e, st.ipToEntry ip = some e → e.ip = ip ∧ st.domainToEntry e.domain = some e) ∧
      (∀ a ∈ log, ∃ addr, a.ip = addr.string ∧ p.contains addr = true ∧ addr ≠ p.addr) ∧
      ∀ d d' e e', st.domainToEntry d = some e → st.domainToEntry d' = some e' → e.ip = e'.ip →
        d = d' := by
  have hnone : AllUsable p [] (newFakeIPStore p) := by
    refine ⟨fun a ha => by simp at ha,fun ip e he => ?_⟩
    simp [newFakeIPStore,ipToEntry,TwoWay.empty] at he
  obtain ⟨⟨log,st⟩,hrun,hinv,husable⟩ := runCalls_usable mapLower hm hsize calls
    (newFakeIPStore_consistent hm hsize) hnone
  refine ⟨log,st,hrun,fun d e => hinv.ipToEntry_of_domain,
    fun ip e he => ⟨hinv.ip_eq he,hinv.domainToEntry_of_ip he⟩,fun a ha => ?_,?_⟩
  · obtain ⟨i,hpos,hi,hip⟩ := husable.1 a ha
    exact ⟨p.addrAt i,hip,(Prefix.contains_addrAt hm (Prefix.addr_ne_invalid hsize)).mpr hi,
      Prefix.addrAt_ne_addr hm hpos hi⟩
  · intro d d' e e' he he' hip
    obtain ⟨rfl,hentry⟩ := hinv.ipToEntry_of_domain he
    obtain ⟨rfl,hentry'⟩ := hinv.ipToEntry_of_domain he'
    rw [hip,hentry'] at hentry
    rw [Option.some.inj hentry]

theorem runCalls_maps_inverse_pair :
    ∃ log st, runCalls id [(0,.allocate (str "A.com") second),(second,.allocate (str "b.com") 0)] []
        (newFakeIPStore pairOfAddresses) = .ok (log,st) ∧
      log.map Allocation.ip = [str "198.51.100.1",str "198.51.100.1"] ∧
      ∀ ip e, st.ipToEntry ip = some e → e.ip = ip ∧ st.domainToEntry e.domain = some e := by
  obtain ⟨log,st,hrun,-,hip,-⟩ := runCalls_maps_inverse id (p := pairOfAddresses) (by decide)
    (by decide) [(0,.allocate (str "A.com") second),(second,.allocate (str "b.com") 0)]
  refine ⟨log,st,hrun,?_,hip⟩
  have hfst := congrArg (Except.map fun r => r.1.map Allocation.ip) hrun
  exact (Except.ok.inj hfst).symm

end FakeIP
end Enimul
