import Enimul.GoRun
import Enimul.NetIPText
import Enimul.Policies

/-! Name resolution.
The upstream servers, the cache and the calls in flight are the state of a `World`;
`dnsResolve` is the resolver that the routing code calls. -/
namespace Enimul
namespace Resolve

open GoSlice GoText NetIP Policies GoRun

def typeA : ℕ := 1
def typeAAAA : ℕ := 28
def classINET : ℕ := 1
def rcodeSuccess : ℕ := 0

structure RRHeader where
  name : Str
  rrtype : ℕ
  cls : ℕ
  ttl : ℕ
  deriving DecidableEq, Repr

/-- A parameter of an HTTPS record. The two kinds of hints are lists of addresses. -/
inductive SVCBKeyValue
  | ipv4Hint (hint : List Bytes)
  | ipv6Hint (hint : List Bytes)
  | other (key : ℕ) (value : Bytes)
  deriving DecidableEq, Repr

/-- The data of a record; an address is its bytes, none for nil. -/
inductive RData
  | a (ip : Bytes)
  | aaaa (ip : Bytes)
  | https (priority : ℕ) (target : Str) (value : List SVCBKeyValue)
  | other (data : Bytes)
  deriving DecidableEq, Repr

structure RR where
  header : RRHeader
  data : RData
  deriving DecidableEq, Repr

structure Question where
  name : Str
  qtype : ℕ
  qclass : ℕ
  deriving DecidableEq, Repr

/-- The header of a message, without its code. -/
structure MsgHdr where
  id : ℕ := 0
  response : Bool := false
  opcode : ℕ := 0
  authoritative : Bool := false
  truncated : Bool := false
  recursionDesired : Bool := false
  recursionAvailable : Bool := false
  zero : Bool := false
  authenticatedData : Bool := false
  checkingDisabled : Bool := false
  deriving DecidableEq, Repr

/-- A message. The code is the only part of its header that the program reads. -/
structure Msg where
  rcode : ℕ := 0
  question : List Question := []
  answer : List RR := []
  ns : List RR := []
  extra : List RR := []
  hdr : MsgHdr := {}
  deriving DecidableEq, Repr

/-- What the resolver shares with the rest of the program. `inFlight` is the result of
another call for the same name that this call joins, when calls are merged. -/
structure World (σ : Type) where
  exchangeMsg : Msg → Run σ Msg
  edns0SubnetOpt : Option RR
  hasCache : Bool
  cacheGet : Str → σ → Option Str × σ
  cacheAdd : Str → Str → ℤ → σ → Unit × σ
  inFlight : Str → σ → Option (Except String Str) × σ
  rcodeToString : ℕ → String
  getFromIPPool : Str → Run σ Str

def pickFirstARecord : List RR → Bytes
  | [] => []
  | rr::rest =>
    match rr.data with
    | .a ip => ip
    | _ => pickFirstARecord rest

def pickFirstAAAARecord : List RR → Bytes
  | [] => []
  | rr::rest =>
    match rr.data with
    | .aaaa ip => ip
    | _ => pickFirstAAAARecord rest

/-- `net.IP.String`, for an address of any length. -/
def ipString (ip : Bytes) : Str :=
  let n := bigEndian (ip.map UInt8.toNat)
  if ip = [] then str "<nil>"
  else if ip.length = 4 then Addr.string (.v4 (BitVec.ofNat 32 n))
  else if ip.length = 16 then Addr.string (Addr.v6 (BitVec.ofNat 128 n) []).unmap
  else str "?"++ip.flatMap fun b => [digit (b.toNat/16),digit (b.toNat%16)]

section Text

variable {ip : Bytes}

theorem parseAddr_ipString4 (hlen : ip.length = 4) : ∃ b, parseAddr (ipString ip) = some (.v4 b) := by
  have hne : ip ≠ [] := by
    rintro rfl
    simp at hlen
  rw [ipString,if_neg hne,if_pos hlen]
  exact ⟨_,parseAddr_string4 _⟩

/-- An IPv6 address is printed as one, unless it stands for an IPv4 address. -/
theorem parseAddr_ipString16 (hlen : ip.length = 16) :
    ∃ a, parseAddr (ipString ip) = some a ∧ a.zone = [] ∧ (to4 ip = none → ∃ b, a = .v6 b []) := by
  have hne : ip ≠ [] := by
    rintro rfl
    simp at hlen
  have htext : ipString ip =
      (Addr.v6 (BitVec.ofNat 128 (bigEndian (ip.map UInt8.toNat))) []).unmap.string := by
    rw [ipString,if_neg hne,if_neg (by omega),if_pos hlen]
  rw [htext]
  cases hm : (Addr.v6 (BitVec.ofNat 128 (bigEndian (ip.map UInt8.toNat))) []).is4In6 with
  | true =>
    simp only [Addr.unmap,hm,if_true]
    refine ⟨_,parseAddr_string4 _,rfl,fun hnone => ?_⟩
    simp [to4_of_is4In6 hlen hm] at hnone
  | false =>
    simp only [Addr.unmap,hm]
    exact ⟨_,parseAddr_string (by simp) rfl,rfl,fun _ => ⟨_,rfl⟩⟩

/-- An address that does not stand for an IPv4 address is printed in groups. -/
theorem ipString_of_to4_none (hlen : ip.length = 16) (hto4 : to4 ip = none) :
    ipString ip = string6 (BitVec.ofNat 128 (bigEndian (ip.map UInt8.toNat))) := by
  have hne : ip ≠ [] := by
    rintro rfl
    simp at hlen
  have hm : (Addr.v6 (BitVec.ofNat 128 (bigEndian (ip.map UInt8.toNat))) []).is4In6 = false := by
    by_contra hm
    simp [to4_of_is4In6 hlen (by simpa using hm)] at hto4
  rw [ipString,if_neg hne,if_neg (by omega),if_pos hlen]
  simp only [Addr.unmap,hm]
  exact string_v6 hm

theorem parseIP_ipString (hlen : ip.length = 16) (hto4 : to4 ip = none) :
    parseIP (ipString ip) = some ip := by
  have hlt := bigEndian_lt (toNat_lt_256 ip)
  rw [List.length_map,hlen] at hlt
  have hbytes := bytesOf_bigEndian ip
  rw [hlen] at hbytes
  rw [ipString_of_to4_none hlen hto4,parseIP_string6,BitVec.toNat_ofNat,
    Nat.mod_eq_of_lt (lt_of_lt_of_eq hlt (by decide)),hbytes]

/-- `net.IP.String` prints an address of either family as a literal. -/
theorem isIPLiteral_ipString (h : ip.length = 4 ∨ ip.length = 16) :
    isIPLiteral (ipString ip) = true := by
  rcases h with h | h
  · obtain ⟨b,hb⟩ := parseAddr_ipString4 h
    simp [isIPLiteral,hb,Addr.zone]
  · obtain ⟨a,ha,hz,-⟩ := parseAddr_ipString16 h
    simp [isIPLiteral,ha,hz]

end Text

section Resolver

variable {σ : Type} (w : World σ)

/-- The record type that a mode asks for first. -/
def firstType : DNSMode → Option ℕ
  | .preferIPv4 => some typeA
  | .ipv4Only => some typeA
  | .preferIPv6 => some typeAAAA
  | .ipv6Only => some typeAAAA
  | .unset => none

/-- The library also draws an id, which nothing here depends on. -/
def setQuestion (domain : Str) (qtype : ℕ) (msg : Msg) : Msg :=
  {msg with
    question := [⟨domain++str ".",qtype,classINET⟩]
    hdr := {msg.hdr with recursionDesired := true}}

/-- The request for a name. Without a mode it has no question. -/
def request (domain : Str) (mode : DNSMode) : Msg :=
  let msg := match firstType mode with
    | some qtype => setQuestion domain qtype {}
    | none => {}
  {msg with extra := w.edns0SubnetOpt.toList}

def exchangeAnswer (msg : Msg) : Run σ (List RR) := do
  let resp ← withStr "dns exchange" (w.exchangeMsg msg)
  if resp.rcode ≠ rcodeSuccess then fail ("bad rcode: " ++ w.rcodeToString resp.rcode)
  else return resp.answer

def require (ip : Bytes) (err : String) : Run σ Bytes :=
  if ip = [] then fail err else return ip

/-- The second question of the two modes that prefer a family. -/
def fallback (domain : Str) (mode : DNSMode) (qtype : ℕ) (pick : List RR → Bytes) : Run σ Bytes := do
  let answer ← exchangeAnswer w (setQuestion domain qtype (request w domain mode))
  require (pick answer) "record not found"

def chooseAddress (domain : Str) (mode : DNSMode) (answer : List RR) : Run σ Bytes :=
  match mode with
  | .ipv4Only => require (pickFirstARecord answer) "A record not found"
  | .ipv6Only => require (pickFirstAAAARecord answer) "AAAA record not found"
  | .preferIPv4 =>
    if pickFirstARecord answer = [] then fallback w domain mode typeAAAA pickFirstAAAARecord
    else return pickFirstARecord answer
  | .preferIPv6 =>
    if pickFirstAAAARecord answer = [] then fallback w domain mode typeA pickFirstARecord
    else return pickFirstAAAARecord answer
  | .unset => return []

def remember (domain ipStr : Str) (cacheTTL : ℤ) : Run σ Unit :=
  if cacheTTL ≠ 0 ∧ cacheTTL ≠ unsetInt ∧ w.hasCache then call (w.cacheAdd domain ipStr cacheTTL)
  else return ()

def doDNSResolve (domain : Str) (mode : DNSMode) (cacheTTL : ℤ) : Run σ Str := do
  let answer ← exchangeAnswer w (request w domain mode)
  let ip ← chooseAddress w domain mode answer
  remember w domain (ipString ip) cacheTTL
  return ipString ip

def cached (domain : Str) : Run σ (Option Str) :=
  if w.hasCache then call (w.cacheGet domain) else return none

/-- The address of a name, and whether it comes from the cache. -/
def dnsResolve (domain : Str) (mode : DNSMode) (cacheTTL : ℤ) : Run σ (Str × Bool) := do
  match ← cached w domain with
  | some ip => return (ip,true)
  | none =>
    match ← call (w.inFlight domain) with
    | some (.ok ip) => return (ip,false)
    | some (.error err) => fail err
    | none => do
      let ip ← doDNSResolve w domain mode cacheTTL
      return (ip,false)

end Resolver

/-- A world without state whose upstream answers every question with one address. -/
def answering (ip : Bytes) : World Unit where
  exchangeMsg msg := return {msg with
    answer := msg.question.map fun q => ⟨⟨q.name,typeA,classINET,300⟩,.a ip⟩}
  edns0SubnetOpt := none
  hasCache := false
  cacheGet _ s := (none,s)
  cacheAdd _ _ _ s := ((),s)
  inFlight _ s := (none,s)
  rcodeToString _ := ""
  getFromIPPool _ := fail "no ip pools"

end Resolve
end Enimul
