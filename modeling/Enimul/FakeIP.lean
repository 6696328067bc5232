import Enimul.NetIP
import Enimul.TwoWay

/-! Fake addresses.
A store gives every name an address of its own for some time. Entries are filed under
their name and under their address; a cursor runs through the addresses of the prefix.
The clock is an argument of every call, in nanoseconds. -/
namespace Enimul
namespace FakeIP

open GoSlice GoText NetIP TwoWay

def second : ℤ := 10^9
def defaultFakeTTL : ℕ := 60
def fakeIPTTLFloor : ℤ := 60*second

structure FakeIPEntry where
  domain : Str
  ip : Str
  expiresAt : ℤ
  deriving DecidableEq, Repr

/-- The maps `domainToEntry` and `ipToEntry` are the two sides of `entries`. -/
structure FakeIPStore where
  cidr : Prefix
  next : Addr
  entries : Table FakeIPEntry Str Str

def newFakeIPStore (cidr : Prefix) : FakeIPStore := ⟨cidr,cidr.addr.next,TwoWay.empty⟩

namespace FakeIPStore

def domainToEntry (st : FakeIPStore) (domain : Str) : Option FakeIPEntry :=
  st.entries.byLeft.lookup domain

def ipToEntry (st : FakeIPStore) (ip : Str) : Option FakeIPEntry := st.entries.byRight.lookup ip

def deleteEntryLocked (entry : FakeIPEntry) (st : FakeIPStore) : FakeIPStore :=
  {st with entries := discard FakeIPEntry.domain FakeIPEntry.ip entry st.entries}

/-- The order of the visits does not matter: an entry deletes nothing but itself. -/
def cleanupExpiredLocked (now : ℤ) (st : FakeIPStore) : FakeIPStore :=
  let expired (entry : FakeIPEntry) : Bool := ¬ now < entry.expiresAt
  {st with entries := sweep FakeIPEntry.domain FakeIPEntry.ip expired st.entries}

/-- `s.domainToEntry[domain] = entry; s.ipToEntry[ip] = entry`. -/
def setEntry (domain ip : Str) (entry : FakeIPEntry) (st : FakeIPStore) : FakeIPStore :=
  {st with entries := ⟨st.entries.byLeft.insert domain entry,st.entries.byRight.insert ip entry⟩}

def takeCandidate (domain : Str) (expiresAt : ℤ) (candidate : Addr) (st : FakeIPStore) :
    Except String Str × FakeIPStore :=
  let ip := candidate.string
  (.ok ip,{st.setEntry domain ip ⟨domain,ip,expiresAt⟩ with next := candidate.next})

/-- The search for an address. The first argument bounds its rounds. -/
def search (domain : Str) (now expiresAt : ℤ) (start : Addr) :
    ℕ → Addr → FakeIPStore → Checked (Except String Str × FakeIPStore)
  | 0, _, _ => .error .fuel
  | rounds+1, cursor, st =>
    let candidate := if st.cidr.contains cursor then cursor else st.cidr.addr.next
    match st.ipToEntry candidate.string with
    | some entry =>
      if now < entry.expiresAt then
        if candidate.next = start then .ok (.error "fake ip pool exhausted",st)
        else search domain now expiresAt start rounds candidate.next st
      else .ok (takeCandidate domain expiresAt candidate (st.deleteEntryLocked entry))
    | none => .ok (takeCandidate domain expiresAt candidate st)

def effectiveLifetime (lifetime : ℤ) : ℤ :=
  if lifetime ≤ 0 then defaultFakeTTL*second else lifetime

def allocateLocked (domain : Str) (now expiresAt : ℤ) (st : FakeIPStore) :
    Checked (Except String Str × FakeIPStore) :=
  match st.domainToEntry domain with
  | some entry => .ok (.ok entry.ip,st.setEntry domain entry.ip {entry with expiresAt})
  | none => search domain now expiresAt st.next st.cidr.size st.next st

def allocate (mapLower : Str → Str) (domain : Str) (lifetime now : ℤ) (st : FakeIPStore) :
    Checked (Except String Str × FakeIPStore) :=
  let domain := toLower mapLower domain
  if domain = [] then .ok (.error "domain is empty",st)
  else allocateLocked domain now (now+effectiveLifetime lifetime) (st.cleanupExpiredLocked now)

def lookupDomain (ip : Str) (now : ℤ) (st : FakeIPStore) : (Str × Bool) × FakeIPStore :=
  match st.ipToEntry ip with
  | none => (([],false),st)
  | some entry =>
    if now < entry.expiresAt then ((entry.domain,true),st)
    else (([],false),st.deleteEntryLocked entry)

section Search

variable {domain : Str} {now expiresAt : ℤ} {st : FakeIPStore}

/-- What a search among live entries ends in. -/
inductive Found (domain : Str) (expiresAt : ℤ) (st : FakeIPStore) :
    Except String Str × FakeIPStore → Prop
  | exhausted : Found domain expiresAt st (.error "fake ip pool exhausted",st)
  | free {i : ℕ} (hpos : 1 ≤ i) (hi : i < st.cidr.size)
      (hfree : st.ipToEntry (st.cidr.addrAt i).string = none) :
      Found domain expiresAt st (takeCandidate domain expiresAt (st.cidr.addrAt i) st)

/-- The rounds from cursor `i` until the search is back at `start`. The cursor may stand
behind the last address; the address of the prefix itself is never visited. -/
def distance (size i start : ℕ) : ℕ :=
  if i = size then start-1 else if i < start then start-i else size-i+start-1

variable (hm : st.cidr.masked = st.cidr.addr) (hsize : 2 ≤ st.cidr.size)
include hm hsize

theorem candidate_eq {i : ℕ} (hi : i ≤ st.cidr.size) :
    (if st.cidr.contains (st.cidr.addrAt i) then st.cidr.addrAt i else st.cidr.addr.next) =
      st.cidr.addrAt (if i < st.cidr.size then i else 1) := by
  have hc := Prefix.contains_addrAt hm (Prefix.addr_ne_invalid hsize) (i := i)
  by_cases h : i < st.cidr.size
  · rw [if_pos (hc.mpr h),if_pos h]
  · rw [if_neg (mt hc.mp h),if_neg h,← Prefix.next_addrAt hm (by omega),Prefix.addrAt_zero]

theorem search_nothing_filed (hnone : ∀ ip, st.ipToEntry ip = none) {start : Addr} {i : ℕ}
    (hi : 1 ≤ i ∧ i ≤ st.cidr.size) {rounds : ℕ} (hr : 0 < rounds) :
    ∃ r, search domain now expiresAt start rounds (st.cidr.addrAt i) st = .ok r ∧
      Found domain expiresAt st r := by
  obtain ⟨k,rfl⟩ : ∃ k, rounds = k+1 := ⟨rounds-1,by omega⟩
  have hlt : (if i < st.cidr.size then i else 1) < st.cidr.size := by split <;> omega
  have hpos : 1 ≤ if i < st.cidr.size then i else 1 := by split <;> omega
  refine ⟨_,?_,.free hpos hlt (hnone _)⟩
  rw [search,candidate_eq hm hsize hi.2,hnone]

/-- Among live entries the search comes to an end before it runs out of rounds. -/
theorem search_found (hlive : ∀ ip e, st.ipToEntry ip = some e → now < e.expiresAt) {i j : ℕ}
    (hi : 1 ≤ i ∧ i ≤ st.cidr.size) (hj : 2 ≤ j ∧ j ≤ st.cidr.size) {rounds : ℕ}
    (hr : distance st.cidr.size i j ≤ rounds) :
    ∃ r, search domain now expiresAt (st.cidr.addrAt j) rounds (st.cidr.addrAt i) st = .ok r ∧
      Found domain expiresAt st r := by
  induction rounds generalizing i with
  | zero =>
    rw [distance] at hr
    split at hr <;> (try split at hr) <;> omega
  | succ rounds ih =>
    rw [search,candidate_eq hm hsize hi.2]
    have hlt : (if i < st.cidr.size then i else 1) < st.cidr.size := by split <;> omega
    have hpos : 1 ≤ if i < st.cidr.size then i else 1 := by split <;> omega
    generalize hk : (if i < st.cidr.size then i else 1) = k at hlt hpos ⊢
    cases hl : st.ipToEntry (st.cidr.addrAt k).string with
    | none =>
      exact ⟨_,rfl,.free hpos hlt hl⟩
    | some e =>
      simp only [if_pos (hlive _ e hl),Prefix.next_addrAt hm hlt]
      by_cases hstart : st.cidr.addrAt (k+1) = st.cidr.addrAt j
      · rw [if_pos hstart]
        exact ⟨_,rfl,.exhausted⟩
      · rw [if_neg hstart]
        have hne : k+1 ≠ j := fun h => hstart (by rw [h])
        refine ih ⟨by omega,by omega⟩ ?_
        rw [distance] at hr ⊢
        split at hk <;> split at hr <;> split <;> (try split at hr) <;> (try split) <;> omega

end Search

/-- Both maps hold the same entries, their addresses are under the prefix, and as long as the
cursor stands on the first address nothing is filed. -/
structure Consistent (p : Prefix) (st : FakeIPStore) : Prop where
  cidr : st.cidr = p
  linked : Linked FakeIPEntry.domain FakeIPEntry.ip st.entries
  address : ∀ ip e, st.ipToEntry ip = some e → ∃ i < p.size, ip = (p.addrAt i).string
  cursor : ∃ i, 1 ≤ i ∧ i ≤ p.size ∧ st.next = p.addrAt i ∧
    (i = 1 → ∀ ip, st.ipToEntry ip = none)

/-- The text of an address under the prefix that is not the address of the prefix. -/
def IsUsable (p : Prefix) (ip : Str) : Prop := ∃ i, 1 ≤ i ∧ i < p.size ∧ ip = (p.addrAt i).string

/-- An entry is as before, or it has expired and is gone. -/
def Trims (now : ℤ) (before after : Option FakeIPEntry) : Prop :=
  after = before ∨ (after = none ∧ ∀ e, before = some e → e.expiresAt ≤ now)

section Steps

variable {p : Prefix} {st : FakeIPStore} {now : ℤ} {b : Str} {e : FakeIPEntry}
variable {before after : Option FakeIPEntry}

theorem Trims.some_of_before (h : Trims now before after) (hb : before = some e)
    (hlive : now < e.expiresAt) : after = some e := by
  rcases h with h | ⟨-,hexp⟩
  · rw [h,hb]
  · exact absurd (hexp e hb) (not_le.mpr hlive)

theorem Trims.some_of_after (h : Trims now before after) (ha : after = some e) :
    before = some e := by
  rcases h with h | ⟨hnone,-⟩
  · rw [← h,ha]
  · simp [hnone] at ha

theorem Trims.trans {middle : Option FakeIPEntry} (h : Trims now before middle)
    (h' : Trims now middle after) : Trims now before after := by
  rcases h with rfl | ⟨rfl,hexp⟩
  · exact h'
  · rcases h' with rfl | ⟨rfl,-⟩
    · exact .inr ⟨rfl,hexp⟩
    · exact .inr ⟨rfl,hexp⟩

theorem Consistent.ip_eq (h : Consistent p st) (he : st.ipToEntry b = some e) : e.ip = b :=
  (h.linked.filed_right b e he).1

theorem Consistent.domainToEntry_of_ip (h : Consistent p st) (he : st.ipToEntry b = some e) :
    st.domainToEntry e.domain = some e := (h.linked.filed_right b e he).2

theorem Consistent.ipToEntry_of_domain (h : Consistent p st) (he : st.domainToEntry b = some e) :
    e.domain = b ∧ st.ipToEntry e.ip = some e := h.linked.filed_left b e he

/-- Taking entries out keeps the invariant. -/
theorem Consistent.keeps (h : Consistent p st) {keep : FakeIPEntry → Bool} {entries : Table FakeIPEntry Str Str}
    (hk : Keeps keep st.entries entries) : Consistent p {st with entries} := by
  obtain ⟨i,hpos,hi,hnext,hfirst⟩ := h.cursor
  refine ⟨h.cidr,h.linked.keeps hk,fun ip e he => ?_,i,hpos,hi,hnext,fun h₁ ip => ?_⟩
  · change entries.byRight.lookup ip = some e at he
    rw [hk.lookup_right,Option.filter_eq_some_iff] at he
    exact h.address ip e he.1
  have hnone : st.entries.byRight.lookup ip = none := hfirst h₁ ip
  change entries.byRight.lookup ip = none
  rw [hk.lookup_right,hnone]
  rfl

theorem trims_of_keeps {keep : FakeIPEntry → Bool} {entries : Table FakeIPEntry Str Str}
    (hk : Keeps keep st.entries entries)
    (hexp : ∀ b e, st.ipToEntry b = some e → keep e = false → e.expiresAt ≤ now) (b : Str) :
    Trims now (st.ipToEntry b) (entries.byRight.lookup b) := by
  rw [hk.lookup_right]
  change Trims now (st.ipToEntry b) ((st.ipToEntry b).filter keep)
  cases hc : st.ipToEntry b with
  | none => exact .inl rfl
  | some c =>
    cases hkeep : keep c with
    | true => exact .inl (by simp [Option.filter_some,hkeep])
    | false =>
      refine .inr ⟨by simp [Option.filter_some,hkeep],fun e he => ?_⟩
      exact Option.some.inj he ▸ hexp b c hc hkeep

theorem Consistent.cleanupExpiredLocked (h : Consistent p st) (now : ℤ) :
    Consistent p (st.cleanupExpiredLocked now) ∧
      (∀ b, Trims now (st.ipToEntry b) ((st.cleanupExpiredLocked now).ipToEntry b)) ∧
      ∀ b e, (st.cleanupExpiredLocked now).ipToEntry b = some e → now < e.expiresAt := by
  have hk := h.linked.sweep fun entry => ¬ now < entry.expiresAt
  refine ⟨h.keeps hk,trims_of_keeps hk fun b e _ he => by simpa using he,fun b e he => ?_⟩
  change (TwoWay.sweep _ _ _ st.entries).byRight.lookup b = some e at he
  rw [hk.lookup_right,Option.filter_eq_some_iff] at he
  simpa using he.2

/-- Deleting an expired entry. -/
theorem Consistent.deleteEntryLocked (h : Consistent p st) (he : st.ipToEntry b = some e)
    (hexp : e.expiresAt ≤ now) :
    Consistent p (st.deleteEntryLocked e) ∧
      ∀ b, Trims now (st.ipToEntry b) ((st.deleteEntryLocked e).ipToEntry b) := by
  have hk := h.linked.discard e
  refine ⟨h.keeps hk,trims_of_keeps hk fun b' c hc hsame => ?_⟩
  have hkeys : c.domain = e.domain ∧ c.ip = e.ip := by simpa [sameKeys] using hsame
  -- the same address, so the same entry
  rw [← h.ip_eq hc,hkeys.2,h.ip_eq he,he] at hc
  exact Option.some.inj hc ▸ hexp

theorem ipToEntry_setEntry (domain ip : Str) (entry : FakeIPEntry) (st : FakeIPStore) (b : Str) :
    (st.setEntry domain ip entry).ipToEntry b = if b = ip then some entry else st.ipToEntry b := by
  change (st.entries.byRight.insert ip entry).lookup b = _
  by_cases hb : b = ip
  · subst hb
    rw [AList.lookup_insert,if_pos rfl]
  · rw [AList.lookup_insert_ne hb,if_neg hb]
    rfl

/-- What a successful allocation does. -/
structure Grants (now : ℤ) (st st' : FakeIPStore) (domain ip : Str) (expiresAt : ℤ) : Prop where
  granted : st'.ipToEntry ip = some ⟨domain,ip,expiresAt⟩
  others : ∀ b, b ≠ ip → Trims now (st.ipToEntry b) (st'.ipToEntry b)
  owner : ∀ b e, st.ipToEntry b = some e → now < e.expiresAt → (e.domain = domain ↔ b = ip)

/-- Filing an entry under free keys, or again under its own. -/
theorem Consistent.setEntry (h : Consistent p st) {domain ip : Str} {expiresAt : ℤ} {next : Addr} {i : ℕ}
    (hdomain : ∀ c, st.domainToEntry domain = some c → c.ip = ip)
    (hip : ∀ c, st.ipToEntry ip = some c → c.domain = domain)
    (haddr : ∃ k < p.size, ip = (p.addrAt k).string)
    (hi : 2 ≤ i ∧ i ≤ p.size) (hnext : next = p.addrAt i) :
    Consistent p {st.setEntry domain ip ⟨domain,ip,expiresAt⟩ with next} := by
  refine ⟨h.cidr,?_,fun b e he => ?_,i,by omega,hi.2,hnext,fun h₁ => by omega⟩
  case refine_2 =>
    have hset := ipToEntry_setEntry domain ip ⟨domain,ip,expiresAt⟩ st b
    by_cases hb : b = ip
    · exact hb ▸ haddr
    · rw [if_neg hb] at hset
      exact h.address b e (hset ▸ he)
  have hput : Linked FakeIPEntry.domain FakeIPEntry.ip
      (put FakeIPEntry.domain FakeIPEntry.ip ⟨domain,ip,expiresAt⟩ st.entries) :=
    h.linked.put hdomain hip
  exact hput

theorem Grants.of_trims {st₀ st' : FakeIPStore} {domain ip : Str} {expiresAt : ℤ}
    (hg : Grants now st st' domain ip expiresAt)
    (ht : ∀ b, Trims now (st₀.ipToEntry b) (st.ipToEntry b)) :
    Grants now st₀ st' domain ip expiresAt := by
  refine ⟨hg.granted,fun b hb => (ht b).trans (hg.others b hb),fun b e he hl => ?_⟩
  exact hg.owner b e ((ht b).some_of_before he hl) hl

/-- What an allocation among live entries ends in. -/
def Allocates (now : ℤ) (st : FakeIPStore) (domain : Str) (expiresAt : ℤ) :
    Except String Str × FakeIPStore → Prop
  | (.error _,st') => ∀ b, Trims now (st.ipToEntry b) (st'.ipToEntry b)
  | (.ok ip,st') => Grants now st st' domain ip expiresAt

/-- The name has an entry, whose lifetime starts again. -/
theorem allocateLocked_refresh (h : Consistent p st) {domain : Str} (hd : st.domainToEntry domain = some e)
    (expiresAt : ℤ) :
    ∃ r, allocateLocked domain now expiresAt st = .ok r ∧ Consistent p r.2 ∧
      Allocates now st domain expiresAt r := by
  obtain ⟨rfl,hip⟩ := h.ipToEntry_of_domain hd
  obtain ⟨i,hpos,hi,hnext,hfirst⟩ := h.cursor
  have hne : i ≠ 1 := by
    intro h₁
    simp [hfirst h₁ e.ip] at hip
  have heq : ∀ c, st.domainToEntry e.domain = some c → c = e := by
    intro c hc
    exact (Option.some.inj (hd ▸ hc)).symm
  have heq' : ∀ c, st.ipToEntry e.ip = some c → c = e := by
    intro c hc
    exact (Option.some.inj (hip ▸ hc)).symm
  refine ⟨_,by rw [allocateLocked,hd],?_,?_⟩
  · exact h.setEntry (fun c hc => by rw [heq c hc]) (fun c hc => by rw [heq' c hc])
      (h.address e.ip e hip) ⟨by omega,hi⟩ hnext
  · refine ⟨by rw [ipToEntry_setEntry,if_pos rfl],fun b hb => .inl ?_,fun b c hc _ => ?_⟩
    · rw [ipToEntry_setEntry,if_neg hb]
    · constructor
      · intro hdom
        rw [← h.ip_eq hc,heq c (hdom ▸ h.domainToEntry_of_ip hc)]
      · rintro rfl
        rw [heq' c hc]

/-- The name has no entry, so the search decides. -/
theorem allocateLocked_found (h : Consistent p st) (hm : p.masked = p.addr) (hsize : 2 ≤ p.size)
    (hlive : ∀ b e, st.ipToEntry b = some e → now < e.expiresAt) {domain : Str}
    (hd : st.domainToEntry domain = none) (expiresAt : ℤ) :
    ∃ r, allocateLocked domain now expiresAt st = .ok r ∧ Found domain expiresAt st r := by
  obtain ⟨i,hpos,hi,hnext,hfirst⟩ := h.cursor
  have hcidr := h.cidr
  subst hcidr
  rw [allocateLocked,hd,hnext]
  by_cases h₁ : i = 1
  · exact search_nothing_filed hm hsize (hfirst h₁) ⟨hpos,hi⟩ (by omega)
  · refine search_found hm hsize hlive ⟨hpos,hi⟩ ⟨by omega,hi⟩ ?_
    rw [distance]
    split <;> (try split) <;> omega

theorem allocateLocked_search (h : Consistent p st) (hm : p.masked = p.addr) (hsize : 2 ≤ p.size)
    (hlive : ∀ b e, st.ipToEntry b = some e → now < e.expiresAt) {domain : Str}
    (hd : st.domainToEntry domain = none) (expiresAt : ℤ) :
    ∃ r, allocateLocked domain now expiresAt st = .ok r ∧ Consistent p r.2 ∧
      Allocates now st domain expiresAt r := by
  obtain ⟨r,hr,hf⟩ := allocateLocked_found h hm hsize hlive hd expiresAt
  refine ⟨r,hr,?_⟩
  cases hf with
  | exhausted => exact ⟨h,fun b => .inl rfl⟩
  | @free i hpos hi hfree =>
    have hcidr := h.cidr
    subst hcidr
    refine ⟨?_,?_⟩
    · refine h.setEntry (fun c hc => ?_) (fun c hc => ?_) ⟨i,hi,rfl⟩ ⟨by omega,hi⟩
        (Prefix.next_addrAt hm hi)
      · simp [hd] at hc
      · simp [hfree] at hc
    · refine ⟨(ipToEntry_setEntry ..).trans (if_pos rfl),fun b hb => .inl ?_,fun b c hc _ => ?_⟩
      · exact (ipToEntry_setEntry ..).trans (if_neg hb)
      · constructor
        · intro hdom
          simp [← hdom,h.domainToEntry_of_ip hc] at hd
        · rintro rfl
          simp [hfree] at hc

/-- The answer that an entry gives. -/
def answer (now : ℤ) : Option FakeIPEntry → Str × Bool
  | some e => if now < e.expiresAt then (e.domain,true) else ([],false)
  | none => ([],false)

theorem lookupDomain_answer (ip : Str) (now : ℤ) (st : FakeIPStore) :
    (st.lookupDomain ip now).1 = answer now (st.ipToEntry ip) := by
  rw [FakeIPStore.lookupDomain]
  cases st.ipToEntry ip with
  | none => rfl
  | some e =>
    dsimp only [answer]
    split <;> rfl

/-- A trimmed entry gives the answer of the entry it was. -/
theorem Trims.answer_eq (h : Trims now before after) : answer now after = answer now before := by
  rcases h with rfl | ⟨rfl,hexp⟩
  · rfl
  · cases before with
    | none => rfl
    | some e => exact (if_neg (not_lt.mpr (hexp e rfl))).symm

theorem answer_eq_iff {d : Str} :
    answer now before = (d,true) ↔ ∃ e, before = some e ∧ e.domain = d ∧ now < e.expiresAt := by
  cases before with
  | none => simp [answer]
  | some e =>
    by_cases hl : now < e.expiresAt <;> simp [answer,hl]

theorem answer_of_not_found (h : ∀ d, answer now before ≠ (d,true)) :
    answer now before = ([],false) := by
  cases before with
  | none => rfl
  | some e =>
    by_cases hl : now < e.expiresAt
    · exact absurd (if_pos hl) (h e.domain)
    · exact if_neg hl

section Calls

variable (h : Consistent p st)
include h

/-- An allocation returns, keeps the invariant and touches no live entry but its own. -/
theorem Consistent.allocate (hm : p.masked = p.addr) (hsize : 2 ≤ p.size) (mapLower : Str → Str)
    (domain : Str) (lifetime now : ℤ) :
    ∃ r, st.allocate mapLower domain lifetime now = .ok r ∧ Consistent p r.2 ∧
      Allocates now st (toLower mapLower domain) (now+effectiveLifetime lifetime) r := by
  rw [FakeIPStore.allocate]
  by_cases hempty : toLower mapLower domain = []
  · exact ⟨_,if_pos hempty,h,fun b => .inl rfl⟩
  rw [if_neg hempty]
  obtain ⟨hinv,htrims,hlive⟩ := h.cleanupExpiredLocked now
  have hlocked : ∃ r, allocateLocked (toLower mapLower domain) now
      (now+effectiveLifetime lifetime) (st.cleanupExpiredLocked now) = .ok r ∧ Consistent p r.2 ∧
      Allocates now (st.cleanupExpiredLocked now) (toLower mapLower domain)
        (now+effectiveLifetime lifetime) r := by
    cases hd : (st.cleanupExpiredLocked now).domainToEntry (toLower mapLower domain) with
    | some e => exact allocateLocked_refresh hinv hd _
    | none => exact allocateLocked_search hinv hm hsize hlive hd _
  obtain ⟨⟨r,st'⟩,hr,hinv',halloc⟩ := hlocked
  refine ⟨(r,st'),hr,hinv',?_⟩
  cases r with
  | error err => exact fun b => (htrims b).trans (halloc b)
  | ok ip => exact Grants.of_trims halloc htrims

/-- A lookup deletes an expired entry at most. -/
theorem Consistent.lookupDomain (ip : Str) (now : ℤ) :
    Consistent p (st.lookupDomain ip now).2 ∧
      ∀ b, Trims now (st.ipToEntry b) ((st.lookupDomain ip now).2.ipToEntry b) := by
  rw [FakeIPStore.lookupDomain]
  cases he : st.ipToEntry ip with
  | none => exact ⟨h,fun b => .inl rfl⟩
  | some e =>
    dsimp only
    split
    · exact ⟨h,fun b => .inl rfl⟩
    · rename_i hexp
      exact h.deleteEntryLocked he (not_lt.mp hexp)

/-- An allocation returns an address that is filed already, or one that the search found. -/
theorem Consistent.allocate_usable (hm : p.masked = p.addr) (hsize : 2 ≤ p.size)
    (hu : ∀ b e, st.ipToEntry b = some e → IsUsable p b) {mapLower : Str → Str} {domain ip : Str}
    {lifetime now : ℤ} {st' : FakeIPStore}
    (hr : st.allocate mapLower domain lifetime now = .ok (.ok ip,st')) : IsUsable p ip := by
  rw [FakeIPStore.allocate] at hr
  split at hr
  · simp at hr
  obtain ⟨hinv,htrims,hlive⟩ := h.cleanupExpiredLocked now
  cases hd : (st.cleanupExpiredLocked now).domainToEntry (toLower mapLower domain) with
  | some e =>
    have hip := (hinv.ipToEntry_of_domain hd).2
    simp only [allocateLocked,hd,Except.ok.injEq,Prod.mk.injEq] at hr
    rw [← hr.1]
    exact hu e.ip e ((htrims e.ip).some_of_after hip)
  | none =>
    obtain ⟨r,hr',hf⟩ := allocateLocked_found hinv hm hsize hlive hd (now+effectiveLifetime lifetime)
    obtain rfl := Except.ok.inj (hr'.symm.trans hr)
    cases hf with
    | @free i hpos hi _ =>
      have hcidr := hinv.cidr
      rw [hcidr] at hi
      exact ⟨i,hpos,hi,by rw [hcidr]⟩

end Calls

end Steps

end FakeIPStore

open FakeIPStore

theorem newFakeIPStore_consistent {p : Prefix} (hm : p.masked = p.addr) (hsize : 2 ≤ p.size) :
    Consistent p (newFakeIPStore p) := by
  refine ⟨rfl,TwoWay.linked_empty,fun ip e he => ?_,1,le_refl 1,by omega,?_,fun _ ip => rfl⟩
  · simp [newFakeIPStore,ipToEntry,TwoWay.empty] at he
  rw [newFakeIPStore,← Prefix.next_addrAt hm (by omega),Prefix.addrAt_zero]

end FakeIP
end Enimul
