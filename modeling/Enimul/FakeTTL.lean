import Enimul.HostPort
import Enimul.Memo
import Enimul.TTLProbe
import Enimul.TTLRules
import Enimul.TunReject

/-! The TTL of the fake packets.
`getFakeTTL` takes the TTL of the policy or derives one from the smallest TTL that reaches the
server. That one is probed for once, filed in a cache under the address, and shared by the
connections that ask for it at the same time. The probe needs the address with its port; the
connections of the tun device pass it the address alone. -/
namespace Enimul
namespace FakeTTL

open Machine GoSlice GoText NetIP Policies PeerProgram Fragment TTLProbe TTLRules
open Memo (Work CacheConfig Sourced)
open DoHDial (joinHostPort)

/-- The arguments of `getMinimumReachableTTL`, with the host that stands in the address. -/
structure Query where
  addr : Str
  ip : Str
  split : (splitHostPort addr).map Prod.fst = some ip
  isIPv6 : Bool
  maxTTL : ℤ
  attempts : ℤ
  dialTimeout : ℤ
  cacheTTL : ℤ

def newQuery (p : Policy) (addr : Str) (ipv6 : Bool) : Option Query :=
  match h : (splitHostPort addr).map Prod.fst with
  | none => none
  | some ip => some ⟨addr,ip,h,ipv6,p.maxTTL,p.attempts,p.singleTimeout,p.ttlCacheTTL⟩

/-- How the network ends the dials of one probe, the first, the second and so on. -/
abbrev Net := ℕ → Dialer → Str → Dialed

def network (u : Net) : TTLProbe.Env ℕ Unit where
  dial d addr n := (u n d addr,n+1)
  addWithLifetime _ _ _ cache := cache

/-- The TTL that `probeMinimumReachableTTL` finds, before it files it. -/
def probed (u : Net) (q : Query) : Except String ℤ :=
  (probeMinimumReachableTTL (network u) q.addr q.ip q.isIPv6 q.maxTTL q.attempts q.dialTimeout
    q.cacheTTL ⟨0,[],none⟩).1

/-- `getMinimumReachableTTL` and `probeMinimumReachableTTL`. The cache knows a probe by the IP
address, the group by the address with the port. -/
def getMinimumReachableTTL : Work Query Str Str ℤ Net where
  cacheKey := Query.ip
  groupKey := Query.addr
  result := probed
  lifetime q found := if found ≠ -1 ∧ q.cacheTTL ≠ 0 ∧ q.cacheTTL ≠ unsetInt then some q.cacheTTL
    else none
  onError := unsetInt
  defaultCapacity := 1024

abbrev State := Memo.State Query Str Str ℤ Net

abbrev Label := Memo.Label Query Net

/-- The part of `setTTLProbing` that makes the cache and the group. -/
def setTTLProbing (conf : CacheConfig) (unfit gomaxprocs : ℕ) : Label :=
  .configure conf unfit gomaxprocs

def step (hash : Str → UInt32) : State → Label → Option State := Memo.step getMinimumReachableTTL hash

/-- The second half of `getFakeTTL`, with the function that is configured by then. -/
def fromReachable (calcTTL : Option (Int64 → Except String Int64)) :
    Except String (ℤ × Bool) → Except String ℤ
  | .error err => .error ("get minimum reachable ttl: " ++ err)
  | .ok (ttl,_) =>
    if ttl = unsetInt then .error "reachable ttl not found"
    else match calcTTL with
      | none => .error "ttl probing not configured"
      | some rule => match rule (Int64.ofInt ttl) with
        | .error err => .error ("calculate fake ttl: " ++ err)
        | .ok fake => .ok fake.toInt

section GetFakeTTL

variable (splitError : Str → String) (minimum : Query → Act Event (ℤ × Bool))
  (calcTTL : Option (Int64 → Except String Int64))

def result {α : Type} (r : Except String α) : Act Event α := fun p => .ok (r,p)

/-- `splitError` is the text of the error of `net.SplitHostPort`. -/
def getFakeTTL (p : Policy) (addr : Str) (ipv6 : Bool) : Act Event ℤ :=
  if p.fakeTTL ≠ 0 ∧ p.fakeTTL ≠ unsetInt then return p.fakeTTL
  else match newQuery p addr ipv6 with
    | none => result (.error ("get minimum reachable ttl: " ++ splitError addr))
    | some q => do
      let reached ← attempt (minimum q)
      result (fromReachable calcTTL reached)

end GetFakeTTL

section Reach

variable {hops : Str → ℤ} {s : State} {i g : ℕ}

/-- Every probe has gone over a network that reached the address from its number of hops on, and
was allowed a dial. -/
def Steady (hops : Str → ℤ) (answers : List (Memo.Answer Query Net)) : Prop :=
  ∀ a ∈ answers, 1 ≤ hops a.query.ip ∧ 1 ≤ a.query.attempts ∧
    ReachableFrom (network a.replies) a.query.addr a.query.isIPv6 a.query.dialTimeout
      (hops a.query.ip)

theorem probed_reachable {u : Net} {q : Query} {h : ℤ} (hh : 1 ≤ h) (hatt : 1 ≤ q.attempts)
    (hreach : ReachableFrom (network u) q.addr q.isIPv6 q.dialTimeout h) :
    probed u q = .ok (if h ≤ q.maxTTL then h else -1) := by
  have hpair := Prod.eta (search (network u) q.addr q.isIPv6 q.dialTimeout q.attempts 1 q.maxTTL (-1)
    ⟨0,[],none⟩)
  rw [search_reachable hreach hatt hh] at hpair
  obtain ⟨cache,hcache⟩ := addToCache_run (network u) q.ip (if h ≤ q.maxTTL then h else -1) q.cacheTTL
    (search (network u) q.addr q.isIPv6 q.dialTimeout q.attempts 1 q.maxTTL (-1) ⟨0,[],none⟩).2
  rw [probed,probeMinimumReachableTTL,GoRun.bind_of_ok hpair.symm,GoRun.bind_of_ok hcache]
  rfl

/-- Queries with one address are about one host. -/
theorem ip_of_addr {q q' : Query} (h : q.addr = q'.addr) : q.ip = q'.ip := by
  have hsplit := q.split
  rw [h,q'.split] at hsplit
  exact (Option.some.inj hsplit).symm

/-- Whoever has probed, and whoever has asked: the TTL is the number of hops, or there is none
because a probe of the address was not allowed as many. -/
theorem ttl_of_sourced {answers : List (Memo.Answer Query Net)} {q : Query} {ttl : ℤ}
    (hsteady : Steady hops answers) (h : Sourced getMinimumReachableTTL answers g q ttl) :
    (1 ≤ hops q.ip ∧ ttl = hops q.ip) ∨
      ∃ a ∈ answers, a.query.addr = q.addr ∧ a.query.maxTTL < hops q.ip := by
  obtain ⟨a,ha,hresult,-,hkey⟩ := h
  obtain ⟨hpos,hatt,hreach⟩ := hsteady a ha
  have hprobed := probed_reachable hpos hatt hreach
  have hfound : ttl = if hops a.query.ip ≤ a.query.maxTTL then hops a.query.ip else -1 :=
    Except.ok.inj (hresult.symm.trans hprobed)
  rcases hkey with hgroup | ⟨hcache,hfiled⟩
  · have hip : a.query.ip = q.ip := ip_of_addr hgroup
    rw [hip] at hfound hpos
    split at hfound
    · exact .inl ⟨hpos,hfound⟩
    · rename_i hfar
      exact .inr ⟨a,ha,hgroup,by omega⟩
  · have hip : a.query.ip = q.ip := hcache
    -- the value -1 is not filed
    have hne : ttl ≠ -1 := by
      rintro rfl
      simp [getMinimumReachableTTL] at hfiled
    rw [hip] at hfound hpos
    split at hfound
    · exact .inl ⟨hpos,hfound⟩
    · exact absurd hfound hne

/-- The query of a connection to port 443 with ten hops allowed. -/
def fourAway : Query :=
  ⟨str "1.2.3.4:443",str "1.2.3.4",by decide,false,10,1,500,0⟩

/-- The server answers from the fourth hop on. -/
def fourHopsNet : Net := fun _ d _ => if 4 ≤ d.ttl then .connected else .timeout

end Reach

section Tun

open TunBridge ClientHello

variable {env : TunBridge.Env} {plan : TunBridge.DialPlan} {splitError : Str → String}
  {minimum : Query → Act Event (ℤ × Bool)} {calcTTL : Option (Int64 → Except String Int64)}

theorem newQuery_none {addr : Str} (h : splitHostPort addr = none) (p : Policy) (ipv6 : Bool) :
    newQuery p addr ipv6 = none := by
  rw [newQuery]
  split
  · rfl
  · rename_i hsplit
    rw [h] at hsplit
    cases hsplit

theorem newQuery_joined {host port : Str} (hhost : 91 ∉ host ∧ 93 ∉ host)
    (hport : ∀ c ∈ port, isDigit c = true) (p : Policy) (ipv6 : Bool) :
    ∃ q, newQuery p (joinHostPort host port) ipv6 = some q ∧ q.ip = host := by
  rw [newQuery]
  split
  · rename_i hsplit
    rw [HostPort.splitHostPort_joinHostPort hhost hport] at hsplit
    cases hsplit
  · rename_i ip hsplit
    refine ⟨_,rfl,?_⟩
    rw [HostPort.splitHostPort_joinHostPort hhost hport] at hsplit
    exact (Option.some.inj hsplit).symm

/-- Without a TTL in the policy and without a port in the address there is only an error. -/
theorem getFakeTTL_fails {p : Policy} {addr : Str} (hunset : p.fakeTTL = 0 ∨ p.fakeTTL = unsetInt)
    (haddr : splitHostPort addr = none) (ipv6 : Bool) :
    getFakeTTL splitError minimum calcTTL p addr ipv6 =
      result (.error ("get minimum reachable ttl: " ++ splitError addr)) := by
  rw [getFakeTTL,if_neg (by tauto),newQuery_none haddr]

/-- A ClientHello that is to be sent in mode ttl-d is not sent: the connection fails for want of a
fake TTL. -/
theorem handleTLSLocked_ttld (henv : env.getFakeTTL = getFakeTTL splitError minimum calcTTL)
    (hmode : plan.policy.mode = .ttld)
    (hunset : plan.policy.fakeTTL = 0 ∨ plan.policy.fakeTTL = unsetInt)
    (hhost : splitHostPort plan.targetHost = none) {record : Bytes} {r : Parsed}
    (hr : parseClientHello record = .ok r) (hok : r.err = none) (hplain : hasPlainSNI r = true)
    (hkey : plan.policy.tls13Only.isTrue = true → r.hasKeyShare = true) {sniMode : Option Mode}
    (hrule : sniPolicyMode env record r = .ok sniMode)
    (hpass : sniMode ≠ some .block ∧ sniMode ≠ some .tlsAlert) (c : TunPolicyConn) :
    handleTLSLocked env plan c record =
      pure (some ("get minimum reachable ttl: " ++ splitError plan.targetHost),c) := by
  have hsni : 0 < r.sniStart ∧ r.sniLen ≠ 0 ∧ r.hasECH = false := of_decide_eq_true hplain
  rw [handleTLSLocked,fromChecked_bind hr]
  dsimp only
  rw [if_neg (by simp [hok]),if_neg (by simp [hmode]),
    if_neg (fun h => h.2 (hkey h.1)),if_neg (by omega),if_neg (by simp [hsni.2.2]),
    fromChecked_bind hrule,if_neg hpass.1,if_neg hpass.2,hmode,forwardTLS,sendTLS,sendDesync]
  dsimp only
  rw [if_pos hunset,henv,getFakeTTL_fails hunset hhost]
  rfl

/-- A probe that would find the server behind four hops. -/
def probing : TunBridge.Env :=
  {noRules with
    getFakeTTL := getFakeTTL (fun _ => "missing port in address") (fun _ => pure (4,false))
      (some fun ttl => .ok (ttl-1))}

end Tun

end FakeTTL
end Enimul
