import Enimul.FakeIP
import Enimul.NetIPText
import Enimul.Resolve

/-! Answering DNS queries with fake addresses.
A query for the addresses of a listed name is sent upstream, and the address records of
the answer are replaced: one record for each owner name, all with the fake address of
the name that was asked for. -/
namespace Enimul
namespace DNSHijack

open GoSlice GoText NetIP GoRun Resolve FakeIP

def typeHTTPS : ℕ := 65

def fakeIPv4CIDR : Prefix := ⟨.v4 0xC6120000,15,by decide,rfl⟩
def fakeIPv6CIDR : Prefix := ⟨.v6 0xFD666C756D6901000000000000000000 [],56,by decide,rfl⟩

example : parsePrefix (str "198.18.0.0/15") = some fakeIPv4CIDR := by decide +kernel
example : parsePrefix (str "fd66:6c75:6d69:100::/56") = some fakeIPv6CIDR := by decide +kernel

/-- The two stores of the program. -/
structure Stores where
  defaultFakeIPv4Store : FakeIPStore := newFakeIPStore fakeIPv4CIDR
  defaultFakeIPv6Store : FakeIPStore := newFakeIPStore fakeIPv6CIDR

def fakeIPLifetime (ttl : ℕ) : ℤ :=
  let ttl := if ttl = 0 then defaultFakeTTL else ttl
  let lifetime := ttl*second
  if fakeIPTTLFloor > lifetime then fakeIPTTLFloor else lifetime

def lookupFakeDomainByIP (ip : Str) (now : ℤ) (s : Stores) : (Str × Bool) × Stores :=
  let r := s.defaultFakeIPv4Store.lookupDomain ip now
  let s := {s with defaultFakeIPv4Store := r.2}
  if r.1.2 then (r.1,s)
  else
    let r := s.defaultFakeIPv6Store.lookupDomain ip now
    (r.1,{s with defaultFakeIPv6Store := r.2})

/-- The TTL of a fake record: 0 stands for the default. -/
def fakeTTL (ttl : ℕ) : ℕ := if ttl = 0 then defaultFakeTTL else ttl

def buildFakeAnswerRR (header : RRHeader) (fakeIP : Str) : Except String RR :=
  let ttl := fakeTTL header.ttl
  if header.rrtype = typeA then
    match (parseIP fakeIP).bind to4 with
    | none => .error "invalid fake ipv4 address"
    | some ip => .ok ⟨⟨header.name,typeA,header.cls,ttl⟩,.a ip⟩
  else if header.rrtype = typeAAAA then
    match parseIP fakeIP with
    | none => .error "invalid fake ipv6 address"
    | some ip =>
      if (to4 ip).isSome then .error "invalid fake ipv6 address"
      else .ok ⟨⟨header.name,typeAAAA,header.cls,ttl⟩,.aaaa ip⟩
  else .error "unsupported fake answer type"

def buildQuestionFakeAnswerRR (question : Question) (fakeIP : Str) (ttl : ℕ) : Except String RR :=
  buildFakeAnswerRR ⟨question.name,question.qtype,question.qclass,ttl⟩ fakeIP

/-- The smallest TTL so far, 0 as long as there is none. -/
def consider (minTTL : ℕ) (rr : RR) : ℕ :=
  if rr.header.ttl = 0 then minTTL
  else if minTTL = 0 ∨ rr.header.ttl < minTTL then rr.header.ttl
  else minTTL

def fallbackFakeTTL (resp : Msg) : ℕ :=
  let minTTL := (resp.answer++resp.ns++resp.extra).foldl consider 0
  if minTTL = 0 then defaultFakeTTL else minTTL

section Query

variable (mapLower : Str → Str)

def allocateFakeIP (domain : Str) (qtype ttl : ℕ) (now : ℤ) : Proc Stores Str := fun s =>
  let lifetime := fakeIPLifetime ttl
  if qtype = typeA then do
    let r ← s.defaultFakeIPv4Store.allocate mapLower domain lifetime now
    return (r.1,{s with defaultFakeIPv4Store := r.2})
  else if qtype = typeAAAA then do
    let r ← s.defaultFakeIPv6Store.allocate mapLower domain lifetime now
    return (r.1,{s with defaultFakeIPv6Store := r.2})
  else return (.error "unsupported fake ip qtype",s)

/-- What the loop over the upstream answer has collected. -/
structure Rewrite where
  answer : List RR := []
  replacedNames : List Str := []
  fakeIP : Str := []
  replaced : Bool := false

/-- The address is allocated with the TTL of the first record that is replaced. -/
def ensureFakeIP (domain : Str) (qtype ttl : ℕ) (now : ℤ) (fakeIP : Str) : Proc Stores Str :=
  if fakeIP = [] then Proc.withStr "allocate fake ip" (allocateFakeIP mapLower domain qtype ttl now)
  else return fakeIP

def rewriteAnswer (domain : Str) (qtype : ℕ) (now : ℤ) : List RR → Rewrite → Proc Stores Rewrite
  | [], acc => return acc
  | rr::rrs, acc =>
    if rr.header.rrtype ≠ qtype then
      rewriteAnswer domain qtype now rrs {acc with answer := acc.answer++[rr]}
    else do
      let fakeIP ← ensureFakeIP mapLower domain qtype rr.header.ttl now acc.fakeIP
      if rr.header.name ∈ acc.replacedNames then
        rewriteAnswer domain qtype now rrs {acc with fakeIP, replaced := true}
      else
        let fakeRR ← Proc.ofExcept (buildFakeAnswerRR rr.header fakeIP)
        rewriteAnswer domain qtype now rrs ⟨acc.answer++[fakeRR],rr.header.name::acc.replacedNames,
          fakeIP,true⟩

/-- The record for the question itself, when there was no record to replace. -/
def fallbackAnswer (domain : Str) (qtype : ℕ) (now : ℤ) (question : Question) (resp : Msg) :
    Proc Stores Msg := do
  let ttl := fallbackFakeTTL resp
  let fakeIP ← Proc.withStr "allocate fallback fake ip" (allocateFakeIP mapLower domain qtype ttl now)
  let fakeRR ← Proc.ofExcept (buildQuestionFakeAnswerRR question fakeIP ttl)
  return {resp with answer := [fakeRR]}

def fakeAnswer (domain : Str) (qtype : ℕ) (now : ℤ) (question : Question) (resp : Msg) :
    Proc Stores Msg := do
  let acc ← rewriteAnswer mapLower domain qtype now resp.answer {}
  if acc.replaced then return {resp with answer := acc.answer}
  else fallbackAnswer mapLower domain qtype now question resp

/-- `upstream` is what the upstream server returns for the request. -/
def buildFakeAddressResponse (upstream : Except String Msg) (shouldUseFakeIP : Str → Bool)
    (domain : Str) (qtype : ℕ) (now : ℤ) (question : Question) : Proc Stores Msg := do
  let upstreamResp ← Proc.withStr "upstream dns exchange" (Proc.ofExcept upstream)
  if upstreamResp.rcode ≠ rcodeSuccess then return upstreamResp
  else if shouldUseFakeIP domain then fakeAnswer mapLower domain qtype now question upstreamResp
  else return upstreamResp

/-- `strings.TrimSuffix(name, ".")`. -/
def trimDot (name : Str) : Str := if name.getLast? = some 46 then name.dropLast else name

def queriedDomain (question : Question) : Str := toLower mapLower (trimDot question.name)

def handleQuestion (upstream : Except String Msg) (shouldUseFakeIP : Str → Bool) (now : ℤ)
    (question : Question) : Proc Stores Msg :=
  if question.qclass ≠ classINET then Proc.ofExcept upstream
  else if question.qtype = typeHTTPS then Proc.ofExcept upstream
  else if question.qtype = typeA ∨ question.qtype = typeAAAA then
    buildFakeAddressResponse mapLower upstream shouldUseFakeIP (queriedDomain mapLower question)
      question.qtype now question
  else Proc.ofExcept upstream

def handleDNSQuery (upstream : Except String Msg) (shouldUseFakeIP : Str → Bool) (now : ℤ)
    (req : Msg) : Proc Stores Msg :=
  match req.question with
  | [question] => handleQuestion mapLower upstream shouldUseFakeIP now question
  | _ => Proc.ofExcept upstream

end Query

end DNSHijack
end Enimul
