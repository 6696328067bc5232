import Enimul.DNSHijack
import Enimul.DoHDial
import Enimul.GoTime
import Mathlib.Data.List.Rotate

/-! The upstream servers.
`setDNS` makes one exchange for each endpoint of the configuration. The resolver goes round
the exchanges, from the one that answered last; a hijacked query goes to the first of them
and to no other. -/
namespace Enimul
namespace Exchange

open GoSlice GoText NetIP GoRun Resolve FakeIP DNSHijack

structure DNSConfig where
  type : Str := []
  addr : Str := []
  resolvers : List Str := []
  disableCache : Bool := false
  cacheCapacity : ℕ := 0
  edns0Subnet : Str := []
  udpSize : ℕ := 0
  clientTimeout : Str := []
  waitTimeout : Str := []
  minRTT : Str := []
  doHSocks5Addr : Str := []

/-- How a server is asked. A duration of 0 is one that is not set; without the address of a
SOCKS5 server a DoH server is dialled directly. -/
inductive Transport
  | udp (udpSize : ℕ) (timeout : ℤ)
  | antiHijack (udpSize : ℕ) (timeout waitTimeout minRTT : ℤ)
  | tcp
  | tls
  | https (socks5Addr : Str)
  | quic
  deriving DecidableEq, Repr

/-- What an exchange function asks. -/
structure Server where
  transport : Transport
  endpoint : Str
  deriving DecidableEq, Repr

/-- The runtime state of the exchanges. The index is the place of the one to start from. -/
structure Upstreams (ι : Type) where
  dnsExchanges : List ι := []
  dnsExchange : Option ι := none
  dnsExchangeIdx : ℤ := 0

section Configure

/-- What `setDNS` calls: the parser of URLs, the dial functions and the caches. -/
structure Libs where
  isValidHTTPSURL : Str → Bool
  genDoHDialFuncFor : Str → Except String DoHDial.Dial
  socks5 : Str → Except String Unit
  newSharded : ℕ → Except String Unit

/-- `netip.ParseAddrPort`. -/
def parseAddrPort (s : Str) : Option (Addr × ℕ) := do
  let i ← lastIndexByte s 58
  let host := s.take i
  let bracketed := host.head? = some 91
  if bracketed ∧ (host.length < 2 ∨ host.getLast? ≠ some 93) then none else
  let port ← parseNat10 (s.drop (i+1))
  let ip ← parseAddr (if bracketed then (host.drop 1).dropLast else host)
  if 65535 < port ∨ (bracketed ↔ ip.is4 = true) then none else some (ip,port)

example : parseAddrPort (str "[::1]:53") = some (.v6 1 [],53) := by decide +kernel

def endpoints (c : DNSConfig) : List Str :=
  c.addr::(c.resolvers.map trimSpace).filter fun r => r ≠ [] ∧ r ≠ c.addr

/-- A duration of the configuration, 0 if it is not set. -/
def durationOf (field : String) (s : Str) : Except String ℤ :=
  if s = [] then .ok 0
  else
    match GoTime.parseDuration s with
    | .error err => .error ("invalid dns." ++ field ++ ": " ++ err)
    | .ok d => if d ≤ 0 then .error ("dns." ++ field ++ " must be greater than 0") else .ok d

def udpTransport (c : DNSConfig) : Except String Transport := do
  let timeout ← durationOf "client_timeout" c.clientTimeout
  if c.waitTimeout = [] ∧ c.minRTT = [] then return .udp c.udpSize timeout
  else
    let waitTimeout ← durationOf "wait_timeout" c.waitTimeout
    let minRTT ← durationOf "min_rtt" c.minRTT
    return .antiHijack c.udpSize timeout waitTimeout minRTT

/-- The exchanges of the clients that are given an address with a port. -/
def addrPortServers (transport : Transport) (eps : List Str) : Except String (List Server) :=
  eps.mapM fun ep =>
    if (parseAddrPort ep).isSome then .ok ⟨transport,ep⟩ else .error "invalid dns.addr"

variable (libs : Libs)

def httpsServer (socks5Addr ep : Str) : Except String Server :=
  if ¬ libs.isValidHTTPSURL ep then .error ("invalid dns resolver url: " ++ text ep)
  else if socks5Addr = [] then
    match libs.genDoHDialFuncFor ep with
    | .error err => .error ("generate DoH dial function: " ++ err)
    | .ok _ => .ok ⟨.https socks5Addr,ep⟩
  else
    match libs.socks5 socks5Addr with
    | .error err => .error ("create socks5 dialer: " ++ err)
    | .ok _ => .ok ⟨.https socks5Addr,ep⟩

def quicServer (ep : Str) : Server :=
  ⟨.quic,if (splitHostPort ep).isSome then ep else DoHDial.joinHostPort ep (str "853")⟩

def servers (c : DNSConfig) : Except String (List Server) :=
  if c.type = [] ∨ c.type = str "udp" then do
    let transport ← udpTransport c
    addrPortServers transport (endpoints c)
  else if c.type = str "tcp" then addrPortServers .tcp (endpoints c)
  else if c.type = str "tls" then addrPortServers .tls (endpoints c)
  else if c.type = str "https" then
    if ¬ libs.isValidHTTPSURL c.addr then .error "invalid dns.addr"
    else (endpoints c).mapM (httpsServer libs c.doHSocks5Addr)
  else if c.type = str "quic" then .ok ((endpoints c).map quicServer)
  else .error ("unknown dns.type: " ++ text c.type)

/-- The two caches of the resolver. -/
def checkCaches (c : DNSConfig) : Except String Unit :=
  if c.disableCache then .ok ()
  else
    match libs.newSharded (if c.cacheCapacity = 0 then 4096 else c.cacheCapacity) with
    | .error err => .error ("init DNS cache: " ++ err)
    | .ok _ => .ok ()

def checkSubnet (c : DNSConfig) : Except String Unit :=
  if c.edns0Subnet = [] ∨ (parsePrefix c.edns0Subnet).isSome then .ok ()
  else .error ("invalid edns0_subnet " ++ text c.edns0Subnet)

/-- The exchanges are replaced in one step; the index stays what it was. -/
def commit {ι : Type} (exchanges : List ι) (u : Upstreams ι) : Upstreams ι where
  dnsExchanges := exchanges
  dnsExchange := exchanges.head?
  dnsExchangeIdx := u.dnsExchangeIdx

def setDNS (c : DNSConfig) (u : Upstreams Server) : Except String (Upstreams Server) :=
  if c.addr = [] then .error "dns.addr cannot be empty"
  else do
    let exchanges ← servers libs c
    checkCaches libs c
    checkSubnet c
    return commit exchanges u

end Configure

section Ask

variable {ι ρ : Type} (ask : ι → Except String ρ)

/-- Index into a slice with a signed number. -/
def elem (exchanges : List ι) (i : ℤ) : Checked ι :=
  match exchanges[i.toNat]? with
  | some exchange => if 0 ≤ i then .ok exchange else .error (.index i.natAbs exchanges.length)
  | none => .error (.index i.natAbs exchanges.length)

def exchangeUpstream (u : Upstreams ι) : Except String ρ :=
  match u.dnsExchange with
  | none => .error "no dns upstream configured"
  | some single => ask single

/-- The loop of `exchangeMsg` from round `i` on, and the index that it stores. -/
def askFrom (exchanges : List ι) (start : ℤ) : ℕ → ℕ → String → Checked (Except String ρ × ℤ)
  | 0, _, lastErr => .ok (.error lastErr,0)
  | rounds+1, i, _ => do
    let idx := (start+i).tmod exchanges.length
    let exchange ← elem exchanges idx
    match ask exchange with
    | .ok resp => return (.ok resp,idx)
    | .error err => askFrom exchanges start rounds (i+1) err

def exchangeMsg (u : Upstreams ι) : Checked (Except String ρ × Upstreams ι) :=
  let exchanges := u.dnsExchanges
  if exchanges = [] then .ok (exchangeUpstream ask u,u)
  else do
    let start := u.dnsExchangeIdx.tmod exchanges.length
    let r ← askFrom ask exchanges start exchanges.length 0 ""
    return (r.1,{u with dnsExchangeIdx := r.2})

end Ask

section Around

variable {ι ρ : Type} {ask : ι → Except String ρ} {exchanges : List ι}

theorem elem_ofNat {i : ℕ} (h : i < exchanges.length) : elem exchanges i = .ok exchanges[i] := by
  simp [elem,List.getElem?_eq_getElem h]

theorem tmod_natCast (a : ℤ) (n : ℕ) (h : 0 ≤ a) : a.tmod n = ((a.toNat%n : ℕ) : ℤ) := by
  rw [Int.tmod_eq_emod_of_nonneg h,Int.natCast_mod,Int.toNat_of_nonneg h]

theorem tmod_add_natCast (start i n : ℕ) :
    ((start : ℤ)+i).tmod n = (((start+i)%n : ℕ) : ℤ) := by
  rw [tmod_natCast _ _ (by omega)]
  congr 2

/-- The places in the order in which a call visits them. -/
def around (n start : ℕ) : List ℕ := (List.range n).rotate start

theorem around_length (n start : ℕ) : (around n start).length = n := by simp [around]

theorem around_nodup (n start : ℕ) : (around n start).Nodup :=
  List.nodup_rotate.mpr List.nodup_range

theorem mem_around {n start i : ℕ} : i ∈ around n start ↔ i < n := by simp [around]

theorem around_getElem {n start i : ℕ} (h : i < (around n start).length) :
    (around n start)[i] = (start+i)%n := by
  simp [around,List.getElem_rotate,Nat.add_comm]

theorem around_take_succ {n start i : ℕ} (h : i < n) :
    (around n start).take (i+1) = (around n start).take i++[(start+i)%n] := by
  have hlen : i < (around n start).length := by rwa [around_length]
  rw [List.take_succ_eq_append_getElem hlen,around_getElem]

theorem askFrom_succ {start i rounds : ℕ} {lastErr : String} (hn : 0 < exchanges.length) :
    askFrom ask exchanges start (rounds+1) i lastErr =
      match ask (exchanges.get ⟨(start+i)%exchanges.length,Nat.mod_lt _ hn⟩) with
      | .ok resp => .ok (.ok resp,(((start+i)%exchanges.length : ℕ) : ℤ))
      | .error err => askFrom ask exchanges start rounds (i+1) err := by
  rw [askFrom,tmod_add_natCast]
  simp only [elem_ofNat (Nat.mod_lt (start+i) hn),ok_bind,List.get_eq_getElem]
  rfl

end Around

section Failover

variable {ι ρ : Type} (ask : ι → Except String ρ) {exchanges : List ι} {u : Upstreams ι}

def Answered (r : Except String ρ) : Prop := ∃ resp, r = .ok resp

/-- The loop ends, and with an answer if one of the exchanges it has still to ask gives one. -/
theorem askFrom_answered (hn : 0 < exchanges.length) (start rounds i : ℕ) (lastErr : String) :
    ∃ r, askFrom ask exchanges start rounds i lastErr = .ok r ∧
      (Answered r.1 ↔ ∃ j, i ≤ j ∧ j < i+rounds ∧
        Answered (ask (exchanges.get ⟨(start+j)%exchanges.length,Nat.mod_lt _ hn⟩))) := by
  induction rounds generalizing i lastErr with
  | zero =>
    refine ⟨_,rfl,?_⟩
    constructor
    · rintro ⟨resp,h⟩
      cases h
    · rintro ⟨j,hj₁,hj₂,-⟩
      omega
  | succ rounds ih =>
    rw [askFrom_succ hn]
    cases hask : ask (exchanges.get ⟨(start+i)%exchanges.length,Nat.mod_lt _ hn⟩) with
    | ok resp => exact ⟨_,rfl,fun _ => ⟨i,le_rfl,by omega,resp,hask⟩,fun _ => ⟨resp,rfl⟩⟩
    | error err =>
      obtain ⟨r,hr,hiff⟩ := ih (i+1) err
      refine ⟨r,hr,hiff.trans ?_⟩
      constructor
      · rintro ⟨j,hj₁,hj₂,hj⟩
        exact ⟨j,by omega,by omega,hj⟩
      · rintro ⟨j,hj₁,hj₂,hj⟩
        rcases Nat.eq_or_lt_of_le hj₁ with rfl | hlt
        · obtain ⟨resp,hresp⟩ := hj
          rw [hask] at hresp
          cases hresp
        · exact ⟨j,hlt,by omega,hj⟩

/-- Going round from any place visits every place. -/
theorem exists_round {n : ℕ} (start : ℕ) {k : ℕ} (hk : k < n) : ∃ j, j < n ∧ (start+j)%n = k := by
  obtain ⟨j,hj,hjk⟩ := List.getElem_of_mem (mem_around.mpr hk : k ∈ around n start)
  rw [around_getElem] at hjk
  exact ⟨j,by rwa [around_length] at hj,hjk⟩

/-- The resolver gets an answer exactly if one of the servers has one. -/
theorem exchangeMsg_answered (hne : u.dnsExchanges ≠ []) (hidx : 0 ≤ u.dnsExchangeIdx) :
    ∃ r, exchangeMsg ask u = .ok r ∧
      (Answered r.1 ↔ ∃ exchange ∈ u.dnsExchanges, Answered (ask exchange)) := by
  have hn : 0 < u.dnsExchanges.length := List.length_pos_iff.mpr hne
  obtain ⟨r,hr,hiff⟩ := askFrom_answered ask hn
    (u.dnsExchangeIdx.toNat%u.dnsExchanges.length) u.dnsExchanges.length 0 ""
  refine ⟨(r.1,{u with dnsExchangeIdx := r.2}),?_,hiff.trans ?_⟩
  · simp only [exchangeMsg,if_neg hne,tmod_natCast _ _ hidx,hr,ok_bind,pure_eq_ok]
  · constructor
    · rintro ⟨j,-,-,hj⟩
      exact ⟨_,List.get_mem _ _,hj⟩
    · rintro ⟨exchange,hmem,hans⟩
      obtain ⟨k,hk,rfl⟩ := List.getElem_of_mem hmem
      obtain ⟨j,hj,hjk⟩ := exists_round (u.dnsExchangeIdx.toNat%u.dnsExchanges.length) hk
      refine ⟨j,Nat.zero_le j,by omega,?_⟩
      simpa only [List.get_eq_getElem,hjk] using hans

end Failover

section Hijacked

theorem mapM_ne_nil {α β : Type} {f : α → Except String β} {x : α} {xs : List α} {ys : List β}
    (h : (x::xs).mapM f = .ok ys) : ys ≠ [] := by
  rw [List.mapM_cons] at h
  obtain ⟨y,-,h₁⟩ := except_bind_ok h
  obtain ⟨ys',-,h₂⟩ := except_bind_ok h₁
  cases h₂
  simp

/-- There is an exchange for the address itself, whatever the resolvers are. -/
theorem servers_ne_nil {libs : Libs} {c : DNSConfig} {exchanges : List Server}
    (h : servers libs c = .ok exchanges) : exchanges ≠ [] := by
  unfold servers at h
  split at h
  · obtain ⟨transport,-,h₁⟩ := except_bind_ok h
    exact mapM_ne_nil h₁
  · split at h
    · exact mapM_ne_nil h
    · split at h
      · exact mapM_ne_nil h
      · split at h
        · split at h
          · cases h
          · exact mapM_ne_nil h
        · split at h
          · cases h
            simp [endpoints]
          · cases h

theorem setDNS_ok {libs : Libs} {c : DNSConfig} {u₀ u : Upstreams Server}
    (h : setDNS libs c u₀ = .ok u) :
    ∃ exchanges, servers libs c = .ok exchanges ∧ u = commit exchanges u₀ := by
  unfold setDNS at h
  split at h
  · cases h
  · obtain ⟨exchanges,hservers,h₁⟩ := except_bind_ok h
    obtain ⟨-,-,h₂⟩ := except_bind_ok h₁
    obtain ⟨-,-,h₃⟩ := except_bind_ok h₂
    cases h₃
    exact ⟨exchanges,hservers,rfl⟩

variable {ι : Type} (ask : ι → Msg → Except String Msg) (u : Upstreams ι)

/-- A hijacked query as the program handles it: its upstream answer is that of
`exchangeUpstream`. -/
def hijackedQuery (mapLower : Str → Str) (shouldUseFakeIP : Str → Bool) (now : ℤ) (req : Msg) :
    Proc Stores Msg :=
  handleDNSQuery mapLower (exchangeUpstream (fun exchange => ask exchange req) u)
    shouldUseFakeIP now req

variable {u}

/-- Without an upstream answer a query fails, whatever it asks for. -/
theorem hijackedQuery_of_error {req : Msg} {err : String}
    (h : exchangeUpstream (fun exchange => ask exchange req) u = .error err)
    (mapLower : Str → Str) (shouldUseFakeIP : Str → Bool) (now : ℤ) (stores : Stores) :
    ∃ err', hijackedQuery ask u mapLower shouldUseFakeIP now req stores =
      .ok (.error err',stores) := by
  have hraw : ∃ err', (Proc.ofExcept (.error err) : Proc Stores Msg) stores =
      .ok (.error err',stores) := ⟨err,rfl⟩
  have hquestion : ∀ question, ∃ err', handleQuestion mapLower (.error err) shouldUseFakeIP now
      question stores = .ok (.error err',stores) := by
    intro question
    unfold handleQuestion
    split_ifs
    · exact hraw
    · exact hraw
    · exact ⟨_,rfl⟩
    · exact hraw
  unfold hijackedQuery handleDNSQuery
  rw [h]
  rcases req.question with _ | ⟨question,_ | ⟨_,_⟩⟩
  · exact hraw
  · exact hquestion question
  · exact hraw

/-- The resolver and the hijacked queries of a configuration get an answer for the same
requests exactly as far as the first server is not the only one that has none. -/
theorem hijacked_failover_iff {libs : Libs} {c : DNSConfig} {u₀ u : Upstreams Server}
    (hset : setDNS libs c u₀ = .ok u) (hidx : 0 ≤ u₀.dnsExchangeIdx)
    (ask : Server → Msg → Except String Msg) (req : Msg) :
    (((∃ r, exchangeMsg (fun exchange => ask exchange req) u = .ok r ∧ Answered r.1) →
        Answered (exchangeUpstream (fun exchange => ask exchange req) u)) ↔
      ((∃ server ∈ u.dnsExchanges, Answered (ask server req)) →
        ∃ first ∈ u.dnsExchanges.head?, Answered (ask first req))) ∧
    ((∃ r, exchangeMsg (fun exchange => ask exchange req) u = .ok r ∧ Answered r.1) ↔
      ∃ server ∈ u.dnsExchanges, Answered (ask server req)) ∧
    (¬ Answered (exchangeUpstream (fun exchange => ask exchange req) u) →
      ∀ mapLower shouldUseFakeIP now stores, ∃ err,
        hijackedQuery ask u mapLower shouldUseFakeIP now req stores = .ok (.error err,stores)) := by
  obtain ⟨exchanges,hservers,rfl⟩ := setDNS_ok hset
  have hne := servers_ne_nil hservers
  obtain ⟨r,hr,hiff⟩ := exchangeMsg_answered (fun exchange => ask exchange req)
    (u := commit exchanges u₀) hne hidx
  have hmsg : (∃ r, exchangeMsg (fun exchange => ask exchange req) (commit exchanges u₀) = .ok r ∧
      Answered r.1) ↔ ∃ server ∈ exchanges, Answered (ask server req) := by
    refine Iff.trans ?_ hiff
    constructor
    · rintro ⟨r',hr',hans⟩
      rw [hr] at hr'
      cases hr'
      exact hans
    · exact fun hans => ⟨r,hr,hans⟩
  have hfirst :
      Answered (exchangeUpstream (fun exchange => ask exchange req) (commit exchanges u₀)) ↔
      ∃ first ∈ exchanges.head?, Answered (ask first req) := by
    cases exchanges with
    | nil => exact absurd rfl hne
    | cons first rest => simp [exchangeUpstream,commit]
  refine ⟨?_,hmsg,fun hnot => ?_⟩
  · rw [hmsg,hfirst]
    rfl
  · cases hup : exchangeUpstream (fun exchange => ask exchange req) (commit exchanges u₀) with
    | ok resp => exact absurd ⟨resp,hup⟩ hnot
    | error err => exact hijackedQuery_of_error ask hup

def anyLibs : Libs := ⟨fun _ => true,fun _ => .error "",fun _ => .ok (),fun _ => .ok ()⟩

/-- Two servers; the first does not answer. -/
def twoServers : DNSConfig where
  addr := str "192.0.2.1:53"
  resolvers := [str " 192.0.2.2:53 "]

def firstServer : Server := ⟨.udp 0 0,str "192.0.2.1:53"⟩
def secondServer : Server := ⟨.udp 0 0,str "192.0.2.2:53"⟩

def firstDown (server : Server) (req : Msg) : Except String Msg :=
  if server = firstServer then .error "i/o timeout" else .ok req

theorem setDNS_twoServers (u : Upstreams Server) :
    setDNS anyLibs twoServers u = .ok (commit [firstServer,secondServer] u) := by
  have hservers : (servers anyLibs twoServers).toOption = some [firstServer,secondServer] := by
    decide +kernel
  cases h : servers anyLibs twoServers with
  | error err =>
    rw [h] at hservers
    cases hservers
  | ok exchanges =>
    rw [h] at hservers
    cases hservers
    have haddr : twoServers.addr ≠ [] := by decide
    rw [setDNS,if_neg haddr,h]
    rfl

theorem hijacked_failover_iff_twoServers :
    ¬ ((∃ r, exchangeMsg (fun server => firstDown server {})
        (commit [firstServer,secondServer] {}) = .ok r ∧ Answered r.1) →
      Answered (exchangeUpstream (fun server => firstDown server {})
        (commit [firstServer,secondServer] {}))) := by
  rw [(hijacked_failover_iff (setDNS_twoServers {}) le_rfl firstDown {}).1]
  intro h
  obtain ⟨first,hmem,resp,hresp⟩ := h ⟨secondServer,by simp [commit],{},by decide⟩
  cases hmem
  cases hresp

/-- The resolver is answered by the second server, and every hijacked query fails. -/
theorem hijacked_query_without_failover :
    ∃ u, setDNS anyLibs twoServers {} = .ok u ∧ ∀ req : Msg,
      (∃ r, exchangeMsg (fun server => firstDown server req) u = .ok r ∧ r.1 = .ok req) ∧
      ∀ mapLower shouldUseFakeIP now stores, ∃ err,
        hijackedQuery firstDown u mapLower shouldUseFakeIP now req stores =
          .ok (.error err,stores) := by
  refine ⟨_,setDNS_twoServers {},fun req => ⟨⟨_,rfl,rfl⟩,?_⟩⟩
  exact hijackedQuery_of_error firstDown rfl

end Hijacked

end Exchange
end Enimul
