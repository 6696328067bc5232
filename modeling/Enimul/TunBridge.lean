import Enimul.DomainMatcher
import Enimul.FragmentStream

/-! The connection that buffers the first bytes of a client.
`write` collects bytes until it can tell whether they start with a TLS handshake
record, handles the first record under the policy of the plan, and from then on
passes everything through. -/
namespace Enimul
namespace TunBridge

open GoSlice GoText ClientHello PeerProgram Policies Fragment DomainMatcher

/-- The part of a plan that the connection reads. A blocked plan has no policy. -/
structure DialPlan where
  targetHost : Str
  policy : Policy
  blocked : Bool
  blocked_policy : blocked = true → policy = {}

/-- The rule tables, and the two operations of the TTL mode. -/
structure Env where
  domainMatcher : Matcher Policy
  defaultPolicy : Policy
  getFakeTTL : Policy → Str → Bool → Act Event ℤ
  desyncSend : Bool → Bytes → ℤ → ℕ → ℤ → ℤ → Act Event Unit

structure TunPolicyConn where
  handled : Bool := false
  closed : Bool := false
  pending : Bytes := []
  deriving DecidableEq, Repr

def tlsAlertLevelFatal : UInt8 := 2
def tlsAlertAccessDenied : UInt8 := 70
def tlsAlertProtocolVersion : UInt8 := 49

def sendTLSAlert (prtVer : Bytes) (desc level : UInt8) : Act Event Unit := do
  let major ← fromChecked (index prtVer 0)
  let minor ← fromChecked (index prtVer 1)
  let _ ← attempt (write [0x15,major,minor,0,2,level,desc])
  return ()

/-- `_ = c.Conn.Close()`. -/
def closeConn : Act Event Unit := do
  let _ ← attempt (perform .close)
  return ()

/-- An error, and the connection after the call. -/
abbrev Outcome := Option String × TunPolicyConn

def flushPendingLocked (c : TunPolicyConn) : Act Event Outcome :=
  if c.pending.length = 0 then return (none,{c with handled := true})
  else do
    match ← attempt (write c.pending) with
    | .error err => return (some err,c)
    | .ok () => return (none,{c with handled := true, pending := []})

def blockTLS (c : TunPolicyConn) : Act Event Outcome := do
  closeConn
  return (some "EOF",{c with closed := true})

def alertTLS (c : TunPolicyConn) (prtVer : Bytes) (desc : UInt8) : Act Event Outcome := do
  sendTLSAlert prtVer desc tlsAlertLevelFatal
  blockTLS c

section Write

variable (env : Env) (plan : DialPlan)

/-- The mode of the rule for the server name, when there is a rule. -/
def sniPolicyMode (record : Bytes) (r : Parsed) : Checked (Option Mode) := do
  let sniStr ← slice record r.sniStart.toNat (r.sniStart.toNat+r.sniLen)
  if sniStr = [] then return none
  else return (find env.domainMatcher sniStr).map fun domainPolicy =>
    (mergePolicies [domainPolicy,env.defaultPolicy]).mode

def sendDesync (record : Bytes) (r : Parsed) : Act Event Unit := do
  let ipv6 := hasPrefix plan.targetHost (str "[")
  let p := plan.policy
  let ttl ← if p.fakeTTL = 0 ∨ p.fakeTTL = unsetInt then env.getFakeTTL p plan.targetHost ipv6
    else pure p.fakeTTL
  env.desyncSend ipv6 record r.sniStart r.sniLen ttl p.fakeSleep

def sendTLS (mode : Mode) (record : Bytes) (r : Parsed) : Act Event Unit :=
  let p := plan.policy
  match mode with
  | .direct => write record
  | .tlsRF => sendRecords record r.sniStart r.sniLen p.numRecords p.numSegments p.minorVer
      p.oob.isTrue p.oobEx.isTrue p.waitForAck.isTrue p.sendInterval
  | .ttld => sendDesync env plan record r
  | _ => write record

def forwardTLS (c : TunPolicyConn) (mode : Mode) (record : Bytes) (r : Parsed) :
    Act Event Outcome := do
  match ← attempt (sendTLS env plan mode record r) with
  | .error err => return (some err,c)
  | .ok () => return (none,c)

def handleTLSLocked (c : TunPolicyConn) (record : Bytes) : Act Event Outcome := do
  let r ← fromChecked (parseClientHello record)
  let p := plan.policy
  if r.err.isSome then flushPendingLocked c
  else if p.mode = .tlsAlert then alertTLS c r.prtVer tlsAlertAccessDenied
  else if p.tls13Only.isTrue ∧ ¬ r.hasKeyShare then alertTLS c r.prtVer tlsAlertProtocolVersion
  else if r.sniStart ≤ 0 ∨ r.sniLen = 0 then forwardTLS env plan c .direct record r
  else if r.hasECH then forwardTLS env plan c .direct record r
  else do
    let sniMode ← fromChecked (sniPolicyMode env record r)
    if sniMode = some .block then blockTLS c
    else if sniMode = some .tlsAlert then alertTLS c r.prtVer tlsAlertAccessDenied
    else forwardTLS env plan c p.mode record r

def forwardTail (c : TunPolicyConn) (tail : Bytes) : Act Event (Bool × TunPolicyConn) :=
  if tail.length = 0 then return (true,c)
  else do
    match ← attempt (write tail) with
    | .error _ => return (true,{c with closed := true})
    | .ok () => return (true,c)

/-- The buffer starts with the header of a handshake record. -/
def handleRecordLocked (c : TunPolicyConn) : Act Event (Bool × TunPolicyConn) := do
  let n ← fromChecked (uint16At c.pending 3)
  let recordLen := 5+n
  if c.pending.length < recordLen then return (false,c) else
  let record ← fromChecked (sliceTo c.pending recordLen)
  let tail ← fromChecked (sliceFrom c.pending recordLen)
  let out ← handleTLSLocked env plan c record
  if out.1.isSome then return (true,{out.2 with closed := true})
  else forwardTail {out.2 with handled := true, pending := []} tail

def flushAndReport (c : TunPolicyConn) : Act Event (Bool × TunPolicyConn) := do
  let out ← flushPendingLocked c
  return (true,{out.2 with closed := out.1.isSome})

def tryHandlePendingLocked (c : TunPolicyConn) : Act Event (Bool × TunPolicyConn) :=
  if c.pending.length = 0 then return (false,c)
  else if plan.blocked ∨ plan.policy.mode = .block then do
    closeConn
    return (true,{c with closed := true})
  else if plan.policy.mode = .raw then flushAndReport c
  else if c.pending.length < 5 then return (false,c)
  else do
    let b₀ ← fromChecked (index c.pending 0)
    let b₁ ← fromChecked (index c.pending 1)
    if b₀ = 0x16 ∧ b₁ = 0x03 then handleRecordLocked env plan c
    else flushAndReport {c with handled := true}

/-- The count and the error that `Write` returns, and the connection after it. -/
def TunPolicyConn.write (c : TunPolicyConn) (b : Bytes) :
    Act Event ((ℕ × Option String) × TunPolicyConn) :=
  if c.closed then return ((0,some "EOF"),c)
  else if c.handled then do
    match ← attempt (Fragment.write b) with
    | .error err => return ((0,some err),c)
    | .ok () => return ((b.length,none),c)
  else do
    let out ← tryHandlePendingLocked env plan {c with pending := c.pending++b}
    return ((b.length,none),out.2)

/-- A client that writes one chunk after the other. -/
def writeAll : List Bytes → TunPolicyConn → Act Event TunPolicyConn
  | [], c => return c
  | b::bs, c => do
    let out ← c.write env plan b
    writeAll bs out.2

end Write

end TunBridge
end Enimul
