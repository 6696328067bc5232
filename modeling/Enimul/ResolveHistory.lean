import Enimul.Resolve

/-! Name resolution over whole histories.
The cache and the resolutions in flight are found by the name alone. Every answer in them
was resolved in some mode; a call gets it whatever its own mode is. -/
namespace Enimul
namespace ResolveHistory

open GoSlice GoText NetIP Policies GoRun Resolve

/-- An address record has the length of its family, or no address at all. -/
def WellSized (rr : RR) : Prop :=
  match rr.data with
  | .a ip => ip = [] ∨ ip.length = 4
  | .aaaa ip => ip = [] ∨ ip.length = 16
  | _ => True

/-- What the upstream servers return during a call: any messages that can be on the wire. -/
structure Upstream where
  exchange : Msg → Except String Msg
  edns0SubnetOpt : Option RR := none
  rcodeToString : ℕ → String := fun _ => ""
  wellSized : ∀ msg resp, exchange msg = .ok resp → ∀ rr ∈ resp.answer, WellSized rr

/-- A call with what it meets: whether an entry of the cache is still there, and the
resolution in flight whose result it shares. -/
structure Call where
  domain : Str
  mode : DNSMode
  ttl : ℤ
  upstream : Upstream
  seesCache : Bool := true
  joins : Option ℕ := none

/-- A resolution that was carried out. -/
structure Resolution where
  domain : Str
  mode : DNSMode
  result : Except String Str

/-- The cache, each answer with the mode that it was resolved in, and the resolutions so far.
The program keeps neither the modes nor the past. -/
structure State where
  cache : Str → Option (DNSMode × Str) := fun _ => none
  resolutions : List Resolution := []

namespace Call

def cacheEntry (c : Call) (domain : Str) (s : State) : Option (DNSMode × Str) :=
  if c.seesCache then s.cache domain else none

/-- The resolution for the same name that the call joins. -/
def flight (c : Call) (domain : Str) (s : State) : Option Resolution :=
  (c.joins.bind fun i => s.resolutions[i]?).filter fun r => r.domain = domain

def world (c : Call) : World State where
  exchangeMsg msg := ofExcept (c.upstream.exchange msg)
  edns0SubnetOpt := c.upstream.edns0SubnetOpt
  hasCache := true
  cacheGet domain s := ((c.cacheEntry domain s).map Prod.snd,s)
  cacheAdd domain ip _ s := ((),{s with cache := Function.update s.cache domain (some (c.mode,ip))})
  inFlight domain s := ((c.flight domain s).map Resolution.result,s)
  rcodeToString := c.upstream.rcodeToString
  getFromIPPool _ := fail "no ip pools"

/-- Where the answer of a call comes from. -/
inductive Source
  | cached (mode : DNSMode) (ip : Str)
  | joined (r : Resolution)
  | own

def source (c : Call) (s : State) : Source :=
  match c.cacheEntry c.domain s with
  | some (mode,ip) => .cached mode ip
  | none =>
    match c.flight c.domain s with
    | some r => .joined r
    | none => .own

def record (c : Call) (r : Except String (Str × Bool)) (s : State) : State :=
  {s with resolutions := s.resolutions++[⟨c.domain,c.mode,r.map Prod.fst⟩]}

def run (c : Call) (s : State) : Except String (Str × Bool) × State :=
  let r := dnsResolve c.world c.domain c.mode c.ttl s
  match c.source s with
  | .own => (r.1,c.record r.1 r.2)
  | _ => r

end Call

/-- The calls of a history and their results, in the order in which they take effect. -/
def runCalls : List Call → State → List (Call × Except String (Str × Bool))
  | [], _ => []
  | c::cs, s => (c,(c.run s).1)::runCalls cs (c.run s).2

def IsIPv4Literal (ip : Str) : Prop := ∃ b, parseAddr ip = some (.v4 b)
def IsIPv6Literal (ip : Str) : Prop := ∃ b, parseAddr ip = some (.v6 b [])

/-- An answer that a mode allows. -/
def Fits (mode : DNSMode) (ip : Str) : Prop :=
  (mode = .ipv4Only → IsIPv4Literal ip) ∧ (mode = .ipv6Only → IsIPv6Literal ip)

def IsOnly (mode : DNSMode) : Prop := mode = .ipv4Only ∨ mode = .ipv6Only

/-- The condition on one call: a call that insists on a family shares only answers that were
resolved in its own mode, and the IPv6 address that it resolves does not stand for an IPv4
address. -/
def Meets (c : Call) (s : State) : Prop :=
  match c.source s with
  | .cached mode _ => IsOnly c.mode → mode = c.mode
  | .joined r => IsOnly c.mode → r.mode = c.mode
  | .own => c.mode = .ipv6Only →
    ∀ resp, c.upstream.exchange (request c.world c.domain c.mode) = .ok resp →
      to4 (pickFirstAAAARecord resp.answer) = none

def MeetsAll : List Call → State → Prop
  | [], _ => True
  | c::cs, s => Meets c s ∧ MeetsAll cs (c.run s).2

section Picks

variable {answer : List RR}

theorem pickFirstARecord_mem :
    pickFirstARecord answer ≠ [] → ∃ rr ∈ answer, rr.data = .a (pickFirstARecord answer) := by
  fun_induction pickFirstARecord answer with
  | case1 => simp
  | case2 rr rest ip hdata => exact fun _ => ⟨rr,List.mem_cons_self,hdata⟩
  | case3 rr rest hother ih =>
    intro hne
    obtain ⟨found,hmem,hdata⟩ := ih hne
    exact ⟨found,List.mem_cons_of_mem rr hmem,hdata⟩

theorem pickFirstAAAARecord_mem :
    pickFirstAAAARecord answer ≠ [] → ∃ rr ∈ answer, rr.data = .aaaa (pickFirstAAAARecord answer) := by
  fun_induction pickFirstAAAARecord answer with
  | case1 => simp
  | case2 rr rest ip hdata => exact fun _ => ⟨rr,List.mem_cons_self,hdata⟩
  | case3 rr rest hother ih =>
    intro hne
    obtain ⟨found,hmem,hdata⟩ := ih hne
    exact ⟨found,List.mem_cons_of_mem rr hmem,hdata⟩

end Picks

section Resolution

variable {c : Call} {s : State}

theorem exchangeAnswer_keeps (c : Call) (msg : Msg) : Keeps (exchangeAnswer c.world msg) := by
  refine ((Keeps.ofExcept _).withStr _).bind fun resp => ?_
  split
  · exact .fail _
  · exact .pure _

theorem exchangeAnswer_ok {msg : Msg} {answer : List RR} {s₁ : State}
    (h : exchangeAnswer c.world msg s = (.ok answer,s₁)) :
    ∃ resp, c.upstream.exchange msg = .ok resp ∧ answer = resp.answer := by
  obtain ⟨resp,s₂,hresp,hrest⟩ := bind_ok h
  refine ⟨resp,(Prod.mk.inj (withStr_ok hresp)).1,?_⟩
  split at hrest
  · simp [fail] at hrest
  · exact (Except.ok.inj (Prod.mk.inj hrest).1).symm

theorem require_keeps (ip : Bytes) (err : String) : Keeps (require ip err : Run State Bytes) := by
  rw [require]
  split
  · exact .fail err
  · exact .pure ip

theorem require_ok {ip ip' : Bytes} {err : String} {s₁ : State}
    (h : require ip err s = (.ok ip',s₁)) : ip' = ip ∧ ip ≠ [] := by
  rw [require] at h
  split at h
  · simp [fail] at h
  · rename_i hne
    exact ⟨(Except.ok.inj (Prod.mk.inj h).1).symm,hne⟩

theorem fallback_keeps (c : Call) (domain : Str) (mode : DNSMode) (qtype : ℕ)
    (pick : List RR → Bytes) : Keeps (fallback c.world domain mode qtype pick) :=
  (exchangeAnswer_keeps c _).bind fun _ => require_keeps _ _

theorem chooseAddress_keeps (c : Call) (domain : Str) (mode : DNSMode) (answer : List RR) :
    Keeps (chooseAddress c.world domain mode answer) := by
  cases mode with
  | ipv4Only => exact require_keeps _ _
  | ipv6Only => exact require_keeps _ _
  | unset => exact .pure _
  | preferIPv4 =>
    rw [chooseAddress]
    split
    · exact fallback_keeps c _ _ _ _
    · exact .pure _
  | preferIPv6 =>
    rw [chooseAddress]
    split
    · exact fallback_keeps c _ _ _ _
    · exact .pure _

/-- A resolution files its answer, or leaves the cache alone. -/
theorem doDNSResolve_state (c : Call) (s : State) :
    (doDNSResolve c.world c.domain c.mode c.ttl s).2 = s ∨
      ∃ ip, (doDNSResolve c.world c.domain c.mode c.ttl s).1 = .ok ip ∧
        (doDNSResolve c.world c.domain c.mode c.ttl s).2 =
          {s with cache := Function.update s.cache c.domain (some (c.mode,ip))} := by
  have hanswer := (exchangeAnswer_keeps c (request c.world c.domain c.mode)).run s
  cases ha : (exchangeAnswer c.world (request c.world c.domain c.mode) s).1 with
  | error err =>
    rw [ha] at hanswer
    rw [doDNSResolve,bind_of_error hanswer]
    exact .inl rfl
  | ok answer =>
    rw [ha] at hanswer
    have hchoice := (chooseAddress_keeps c c.domain c.mode answer).run s
    rw [doDNSResolve,bind_of_ok hanswer]
    cases hc : (chooseAddress c.world c.domain c.mode answer s).1 with
    | error err =>
      rw [hc] at hchoice
      rw [bind_of_error hchoice]
      exact .inl rfl
    | ok ip =>
      rw [hc] at hchoice
      rw [bind_of_ok hchoice,remember]
      split
      · exact .inr ⟨ipString ip,rfl,rfl⟩
      · exact .inl rfl

theorem chooseAddress_fits {answer : List RR} (hsize : ∀ rr ∈ answer, WellSized rr)
    (hmapped : c.mode = .ipv6Only → to4 (pickFirstAAAARecord answer) = none) {ip : Bytes} {s₁ : State}
    (h : chooseAddress c.world c.domain c.mode answer s = (.ok ip,s₁)) : Fits c.mode (ipString ip) := by
  constructor
  · intro hmode
    rw [hmode] at h
    obtain ⟨rfl,hne⟩ := require_ok h
    obtain ⟨rr,hrr,hdata⟩ := pickFirstARecord_mem hne
    have hlen := hsize rr hrr
    simp only [WellSized,hdata] at hlen
    exact parseAddr_ipString4 (hlen.resolve_left hne)
  · intro hmode
    have hnone := hmapped hmode
    rw [hmode] at h
    obtain ⟨rfl,hne⟩ := require_ok h
    obtain ⟨rr,hrr,hdata⟩ := pickFirstAAAARecord_mem hne
    have hlen := hsize rr hrr
    simp only [WellSized,hdata] at hlen
    obtain ⟨a,ha,-,hv6⟩ := parseAddr_ipString16 (hlen.resolve_left hne)
    obtain ⟨b,rfl⟩ := hv6 hnone
    exact ⟨b,ha⟩

theorem doDNSResolve_fits (hmapped : c.mode = .ipv6Only → ∀ resp,
      c.upstream.exchange (request c.world c.domain c.mode) = .ok resp →
      to4 (pickFirstAAAARecord resp.answer) = none) {ip : Str} {s₁ : State}
    (h : doDNSResolve c.world c.domain c.mode c.ttl s = (.ok ip,s₁)) : Fits c.mode ip := by
  obtain ⟨answer,s₂,hanswer,h⟩ := bind_ok h
  obtain ⟨resp,hresp,rfl⟩ := exchangeAnswer_ok hanswer
  obtain ⟨addr,s₃,haddr,h⟩ := bind_ok h
  obtain ⟨u,s₄,-,h⟩ := bind_ok h
  obtain rfl : ip = ipString addr := (Except.ok.inj (Prod.mk.inj h).1).symm
  exact chooseAddress_fits (c.upstream.wellSized _ resp hresp)
    (fun hmode => hmapped hmode resp hresp) haddr

end Resolution

section Sources

variable {c : Call} {s : State}

theorem source_cached {mode : DNSMode} {ip : Str} (h : c.source s = .cached mode ip) :
    s.cache c.domain = some (mode,ip) ∧
      dnsResolve c.world c.domain c.mode c.ttl s = (.ok (ip,true),s) := by
  have hentry : c.cacheEntry c.domain s = some (mode,ip) := by
    rw [Call.source] at h
    split at h
    · rename_i mode' ip' hentry
      obtain ⟨rfl,rfl⟩ := Call.Source.cached.inj h
      exact hentry
    · split at h <;> simp at h
  have hcached : cached c.world c.domain s = (.ok (some ip),s) := by
    simp [cached,Call.world,call,hentry]
  constructor
  · rw [Call.cacheEntry] at hentry
    split at hentry
    · exact hentry
    · simp at hentry
  · rw [dnsResolve,bind_of_ok hcached]
    rfl

theorem cached_none (h : c.cacheEntry c.domain s = none) :
    cached c.world c.domain s = (.ok none,s) := by
  simp [cached,Call.world,call,h]

theorem source_joined {r : Resolution} (h : c.source s = .joined r) :
    r ∈ s.resolutions ∧ dnsResolve c.world c.domain c.mode c.ttl s = (r.result.map (·,false),s) := by
  rw [Call.source] at h
  split at h
  · simp at h
  rename_i hentry
  split at h
  · rename_i r' hflight
    obtain rfl := Call.Source.joined.inj h
    have hin : call (c.world.inFlight c.domain) s = (.ok (some r'.result),s) := by
      simp [call,Call.world,hflight]
    constructor
    · rw [Call.flight,Option.filter_eq_some_iff] at hflight
      obtain ⟨i,-,hi⟩ := Option.bind_eq_some_iff.mp hflight.1
      exact List.mem_of_getElem? hi
    · rw [dnsResolve,bind_of_ok (cached_none hentry)]
      dsimp only
      rw [bind_of_ok hin]
      cases r'.result <;> rfl
  · simp at h

theorem source_own (h : c.source s = .own) :
    dnsResolve c.world c.domain c.mode c.ttl s =
      ((doDNSResolve c.world c.domain c.mode c.ttl s).1.map (·,false),
        (doDNSResolve c.world c.domain c.mode c.ttl s).2) := by
  rw [Call.source] at h
  split at h
  · simp at h
  rename_i hentry
  split at h
  · simp at h
  rename_i hflight
  have hin : call (c.world.inFlight c.domain) s = (.ok none,s) := by
    simp [call,Call.world,hflight]
  rw [dnsResolve,bind_of_ok (cached_none hentry)]
  dsimp only
  rw [bind_of_ok hin]
  dsimp only
  cases hr : doDNSResolve c.world c.domain c.mode c.ttl s with
  | mk r s₁ =>
    cases r with
    | error err => rw [bind_of_error hr]; rfl
    | ok ip => rw [bind_of_ok hr]; rfl

end Sources

section Histories

variable {c : Call} {s : State}

/-- Every answer that can be shared fits the mode that it was resolved in. -/
structure Fitting (s : State) : Prop where
  cache : ∀ domain mode ip, s.cache domain = some (mode,ip) → Fits mode ip
  resolutions : ∀ r ∈ s.resolutions, ∀ ip, r.result = .ok ip → Fits r.mode ip

theorem Fits.of_same {mode mode' : DNSMode} {ip : Str} (h : Fits mode ip)
    (hsame : IsOnly mode' → mode = mode') : Fits mode' ip := by
  constructor
  · intro hmode
    exact h.1 ((hsame (.inl hmode)).trans hmode)
  · intro hmode
    exact h.2 ((hsame (.inr hmode)).trans hmode)

theorem map_pair_ok {r : Except String Str} {ip : Str} {cached b : Bool}
    (h : r.map (·,b) = .ok (ip,cached)) : r = .ok ip := by
  cases r with
  | error err => simp [Except.map] at h
  | ok ip' =>
    obtain ⟨rfl,-⟩ := Prod.mk.inj (Except.ok.inj h)
    rfl

theorem Fitting.resolve (h : Fitting s)
    (hfits : ∀ ip, (doDNSResolve c.world c.domain c.mode c.ttl s).1 = .ok ip → Fits c.mode ip) :
    Fitting (doDNSResolve c.world c.domain c.mode c.ttl s).2 := by
  rcases doDNSResolve_state c s with hsame | ⟨ip',hok,hcache⟩
  · rw [hsame]
    exact h
  rw [hcache]
  refine ⟨fun domain mode ip hentry => ?_,h.resolutions⟩
  by_cases hd : domain = c.domain
  · subst hd
    change Function.update s.cache c.domain (some (c.mode,ip')) c.domain = _ at hentry
    rw [Function.update_self] at hentry
    obtain ⟨rfl,rfl⟩ := Prod.mk.inj (Option.some.inj hentry)
    exact hfits ip' hok
  · change Function.update s.cache c.domain (some (c.mode,ip')) domain = _ at hentry
    rw [Function.update_of_ne hd] at hentry
    exact h.cache domain mode ip hentry

theorem Fitting.record (h : Fitting s) {r : Except String (Str × Bool)}
    (hfits : ∀ ip cached, r = .ok (ip,cached) → Fits c.mode ip) : Fitting (c.record r s) := by
  refine ⟨h.cache,fun r' hr' ip hip => ?_⟩
  rcases List.mem_append.mp hr' with hold | hnew
  · exact h.resolutions r' hold ip hip
  · obtain rfl := List.mem_singleton.mp hnew
    cases r with
    | error err => simp [Except.map] at hip
    | ok found =>
      obtain rfl : found.1 = ip := by simpa [Except.map] using hip
      exact hfits found.1 found.2 rfl

theorem Fitting.run_own (h : Fitting s) (hsource : c.source s = .own) (hm : Meets c s) :
    Fitting (c.run s).2 ∧ ∀ ip cached, (c.run s).1 = .ok (ip,cached) → Fits c.mode ip := by
  have hfits : ∀ ip, (doDNSResolve c.world c.domain c.mode c.ttl s).1 = .ok ip → Fits c.mode ip := by
    intro ip hip
    rw [Meets,hsource] at hm
    exact doDNSResolve_fits hm (Prod.ext hip rfl)
  have hrun : c.run s = ((doDNSResolve c.world c.domain c.mode c.ttl s).1.map (·,false),
      c.record ((doDNSResolve c.world c.domain c.mode c.ttl s).1.map (·,false))
        (doDNSResolve c.world c.domain c.mode c.ttl s).2) := by
    rw [Call.run,hsource,source_own hsource]
  have hanswer : ∀ ip cached, (doDNSResolve c.world c.domain c.mode c.ttl s).1.map (·,false) =
      .ok (ip,cached) → Fits c.mode ip := fun ip cached hip => hfits ip (map_pair_ok hip)
  rw [hrun]
  exact ⟨(h.resolve hfits).record hanswer,hanswer⟩

/-- One call keeps the invariant, and its answer fits. -/
theorem Fitting.run (h : Fitting s) (hm : Meets c s) :
    Fitting (c.run s).2 ∧ ∀ ip cached, (c.run s).1 = .ok (ip,cached) → Fits c.mode ip := by
  cases hsource : c.source s with
  | own => exact h.run_own hsource hm
  | cached mode ip =>
    obtain ⟨hentry,hresolve⟩ := source_cached hsource
    have hrun : c.run s = (.ok (ip,true),s) := by rw [Call.run,hsource,hresolve]
    rw [Meets,hsource] at hm
    rw [hrun]
    refine ⟨h,fun ip' cached hip => ?_⟩
    obtain ⟨rfl,-⟩ := Prod.mk.inj (Except.ok.inj hip)
    exact (h.cache _ _ _ hentry).of_same hm
  | joined r =>
    obtain ⟨hmem,hresolve⟩ := source_joined hsource
    have hrun : c.run s = (r.result.map (·,false),s) := by rw [Call.run,hsource,hresolve]
    rw [Meets,hsource] at hm
    rw [hrun]
    exact ⟨h,fun ip cached hip => (h.resolutions r hmem ip (map_pair_ok hip)).of_same hm⟩

theorem Fitting.runCalls (h : Fitting s) {calls : List Call} (hm : MeetsAll calls s) {ip : Str}
    {cached : Bool} (hmem : (c,.ok (ip,cached)) ∈ runCalls calls s) : Fits c.mode ip := by
  induction calls generalizing s with
  | nil => simp [ResolveHistory.runCalls] at hmem
  | cons c' calls ih =>
    obtain ⟨hm,hrest⟩ := hm
    obtain ⟨hnext,hfits⟩ := h.run hm
    rcases List.mem_cons.mp hmem with heq | hmem
    · obtain ⟨rfl,hresult⟩ := Prod.mk.inj heq
      exact hfits ip cached hresult.symm
    · exact ih hnext hrest hmem

theorem runCalls_respect_mode (calls : List Call) (hm : MeetsAll calls {}) (c : Call) (ip : Str)
    (cached : Bool) (hmem : (c,.ok (ip,cached)) ∈ runCalls calls {}) :
    (c.mode = .ipv4Only → IsIPv4Literal ip) ∧ (c.mode = .ipv6Only → IsIPv6Literal ip) := by
  have hstart : Fitting {} := ⟨fun _ _ _ h => by simp at h,fun _ h => by simp at h⟩
  exact hstart.runCalls hm hmem

/-- A name with one address of each family. -/
def dualStackAnswer (q : Question) : List RR :=
  if q.qtype = typeA then [⟨⟨q.name,typeA,classINET,300⟩,.a [1,2,3,4]⟩]
  else [⟨⟨q.name,typeAAAA,classINET,300⟩,.aaaa ([0x20,0x01,0x0d,0xb8]++List.replicate 11 0++[1])⟩]

theorem dualStackAnswer_wellSized (q : Question) : ∀ rr ∈ dualStackAnswer q, WellSized rr := by
  intro rr hrr
  rw [dualStackAnswer] at hrr
  split at hrr
  · obtain rfl := List.mem_singleton.mp hrr
    exact .inr rfl
  · obtain rfl := List.mem_singleton.mp hrr
    exact .inr rfl

def dualStack : Upstream where
  exchange msg := .ok {answer := msg.question.flatMap dualStackAnswer}
  wellSized := by
    intro msg resp h rr hrr
    obtain rfl := Except.ok.inj h
    obtain ⟨q,-,hq⟩ := List.mem_flatMap.mp hrr
    exact dualStackAnswer_wellSized q rr hq

def dualStackCall (mode : DNSMode) : Call := ⟨str "a.b",mode,10^9,dualStack,true,none⟩

theorem runCalls_respect_mode_twice :
    runCalls [dualStackCall .ipv4Only,dualStackCall .ipv4Only] {} =
        [(dualStackCall .ipv4Only,.ok (str "1.2.3.4",false)),
          (dualStackCall .ipv4Only,.ok (str "1.2.3.4",true))] ∧ IsIPv4Literal (str "1.2.3.4") := by
  have hrun : runCalls [dualStackCall .ipv4Only,dualStackCall .ipv4Only] {} =
      [(dualStackCall .ipv4Only,.ok (str "1.2.3.4",false)),
        (dualStackCall .ipv4Only,.ok (str "1.2.3.4",true))] := rfl
  have hmeets : MeetsAll [dualStackCall .ipv4Only,dualStackCall .ipv4Only] {} :=
    ⟨fun hmode => by simp [dualStackCall] at hmode,fun _ => rfl,trivial⟩
  have hfits := runCalls_respect_mode _ hmeets (dualStackCall .ipv4Only) (str "1.2.3.4") true
    (by rw [hrun]; exact List.mem_cons_of_mem _ List.mem_cons_self)
  exact ⟨hrun,hfits.1 rfl⟩

/-- A call that insists on IPv4 gets the IPv6 address that an earlier call left behind. -/
theorem runCalls_mixes_modes :
    runCalls [dualStackCall .preferIPv6,dualStackCall .ipv4Only] {} =
        [(dualStackCall .preferIPv6,.ok (str "2001:db8::1",false)),
          (dualStackCall .ipv4Only,.ok (str "2001:db8::1",true))] ∧
      ¬ IsIPv4Literal (str "2001:db8::1") := by
  refine ⟨rfl,?_⟩
  rintro ⟨b,hb⟩
  have hparse : parseAddr (str "2001:db8::1") = some (.v6 0x20010db8000000000000000000000001 []) := by
    decide +kernel
  simp [hparse] at hb

end Histories

end ResolveHistory
end Enimul
