import Enimul.BufReader
import Enimul.DoHDial
import Enimul.TunBridge

/-! The tunnel of a client of the desktop proxy.
`handleTunnel` looks at the first bytes of the client. A ClientHello is read, checked against the
rules for its server name and sent in the way that the policy asks for; an HTTP request is parsed
and written again; then what is buffered is sent, and the rest is copied from one connection to
the other. -/
namespace Enimul
namespace Tunnel

open GoSlice GoText Policies GoRun Resolve ClientHello PeerProgram Fragment GenPolicy BufReader

/-- A connection to a server to which nothing has been sent, by how it answers. -/
abbrev Conn := List Event → Event → Option String

def openConn (conn : Conn) : Peer Event := ⟨conn,[]⟩

/-- If the action succeeds, it has sent exactly these bytes. -/
def Sent {α : Type} (m : Act Event α) (d : Bytes) : Prop :=
  ∀ p a q, m p = .ok (.ok a,q) → ∃ es, q.log = p.log++es ∧ wire es = d

/-- What the tunnel needs from outside: names, dials and the TTL mode. A ClientHello that is sent
with a fake packet arrives as it is. -/
structure Net (σ : Type) where
  world : World σ
  dialTCPTimeout : Str → ℤ → Run σ Conn
  getFakeTTL : Policy → Str → Bool → Run σ ℤ
  desyncSend : Bool → Bytes → ℤ → ℕ → ℤ → ℤ → Act Event Unit
  desyncSend_sent : ∀ ipv6 record sniStart sniLen ttl sleep,
    Sent (desyncSend ipv6 record sniStart sniLen ttl sleep) record

/-- `net/http`. `readRequest` takes what it has read from the reader, also when it fails. Writing a
request takes its body from the reader. -/
structure HTTP where
  Request : Type
  host : Request → Str
  urlHost : Request → Str
  requestURI : Request → Str
  readRequest : Reader UInt8 → Except String Request × Reader UInt8
  write : Request → Reader UInt8 → Act Event (Reader UInt8)
  serialised : Request → Bytes → Bytes
  readRequest_took : ∀ r : Reader UInt8, r.stream ≠ [] → ∃ n, 0 < n ∧ r.Took n (readRequest r).2
  write_sent : ∀ req (r : Reader UInt8) p r' q, write req r p = .ok (.ok r',q) →
    ∃ n es, r.Took n r' ∧ q.log = p.log++es ∧ wire es = serialised req (r.stream.take n)

/-- What a client is told before its connection is closed. -/
inductive Reply
  | nothing
  | alert (record : Bytes)
  | status (code : ℤ) (location : Option Str)
  deriving DecidableEq, Repr

/-- The world, the reader of the client's connection, and what has been sent to the client. -/
structure State (σ : Type) where
  world : σ
  reader : Reader UInt8
  client : List Reply

section Actions

variable {σ α : Type}

def ofChecked (c : Checked α) : Proc σ α := fun s =>
  match c with
  | .error fault => .error fault
  | .ok a => .ok (.ok a,s)

def outside (m : Run σ α) : Proc (State σ) α := fun s =>
  .ok ((m s.world).1,{s with world := (m s.world).2})

/-- Tell the client and give up. -/
def stop (reply : Reply) (err : String) : Proc (State σ) α := fun s =>
  .ok (.error err,{s with client := s.client++[reply]})

/-- An action on a connection to the server. -/
def onConn (dst : Peer Event) (m : Act Event Unit) : Proc (State σ) (Peer Event) := fun s =>
  match m dst with
  | .error fault => .error fault
  | .ok (.error err,_) => .ok (.error err,s)
  | .ok (.ok (),dst) => .ok (.ok dst,s)

/-- The size of the buffer of `bufio.NewReader`. -/
def defaultBufSize : ℕ := 4096

def peekBytes (n : ℕ) : Proc (State σ) Bytes := fun s =>
  match peek defaultBufSize n s.reader with
  | (none,r) => .ok (.error "Read first packet",{s with reader := r})
  | (some b,r) => .ok (.ok b,{s with reader := r})

def readRecord (n : ℕ) : Proc (State σ) Bytes := fun s =>
  match readFull defaultBufSize n s.reader with
  | none => .ok (.error "Read first record",{s with reader := ⟨[],[]⟩})
  | some (b,r) => .ok (.ok b,{s with reader := r})

end Actions

section Choice

variable {σ : Type} (t : Tables) (net : Net σ)

/-- How a ClientHello is going to be sent. An unset mode is the mode of the policy. -/
structure Chosen where
  mode : Mode
  p : Policy
  dstConn : Option Conn
  target : Str

def Chosen.finalMode (c : Chosen) : Mode := if c.mode = .unset then c.p.mode else c.mode

def alertReply (prtVer : Bytes) (desc : UInt8) : Checked Reply := do
  let major ← index prtVer 0
  let minor ← index prtVer 1
  return .alert [0x15,major,minor,0,2,TunBridge.tlsAlertLevelFatal,desc]

/-- The rule for the server name refines the policy of the tunnel. -/
def overrideRoute (sniStr prtVer : Bytes) (c : Chosen) : Checked (Except Reply Chosen) :=
  match DomainMatcher.find t.domainMatcher sniStr with
  | none => return .ok c
  | some sniPolicy =>
    if sniPolicy.mode = .block then return .error .nothing
    else if sniPolicy.mode = .tlsAlert then do
      let alert ← alertReply prtVer TunBridge.tlsAlertAccessDenied
      return .error alert
    else return .ok {c with p := mergePolicies [sniPolicy,c.p]}

def overridePort (originPort : Str) (sniPolicy : Policy) : Str :=
  if sniPolicy.port ≠ 0 ∧ sniPolicy.port ≠ unsetInt then DoHDial.formatInt sniPolicy.port
  else originPort

/-- The tunnel goes to the server of the server name instead, if that can be reached. -/
def overrideTarget (sniStr prtVer : Bytes) (originPort : Str) (c : Chosen) (s : σ) :
    Checked (Except Reply Chosen × σ) :=
  let req : GenPolicy.Request := ⟨sniStr,false,c.p.sniffOverrideMode = .policyExists⟩
  match genPolicy t net.world req s with
  | (.failed,s) => return (.ok c,s)
  | (.domainNotFound,s) => return (.ok c,s)
  | (.blocked,s) => return (.error .nothing,s)
  | (.routed newDst sniPolicy,s) =>
    if sniPolicy.mode = .tlsAlert then do
      let alert ← alertReply prtVer TunBridge.tlsAlertAccessDenied
      return (.error alert,s)
    else
      let newTarget := DoHDial.joinHostPort newDst (overridePort originPort sniPolicy)
      match net.dialTCPTimeout newTarget sniPolicy.connectTimeout s with
      | (.ok newConn,s) =>
        return (.ok {c with dstConn := some newConn, p := sniPolicy, target := newTarget},s)
      | (.error _,s) => return (.ok c,s)

/-- The checks of `handleTLS`, up to the sending of the ClientHello. -/
def chooseTLS (originHost originPort : Str) (record : Bytes) (r : Parsed) (c : Chosen) (s : σ) :
    Checked (Except Reply Chosen × σ) :=
  if c.p.mode = .tlsAlert then do
    let alert ← alertReply r.prtVer TunBridge.tlsAlertAccessDenied
    return (.error alert,s)
  else if c.p.tls13Only.isTrue ∧ ¬ r.hasKeyShare then do
    let alert ← alertReply r.prtVer TunBridge.tlsAlertProtocolVersion
    return (.error alert,s)
  else if r.sniStart ≤ 0 then return (.ok {c with mode := .direct},s)
  else do
    let sniStr ← slice record r.sniStart.toNat (r.sniStart.toNat+r.sniLen)
    if r.hasECH then return (.ok {c with mode := .direct},s)
    else if originHost = sniStr then return (.ok c,s)
    else match c.p.sniffOverrideMode with
      | .routeOnly => do
        let choice ← overrideRoute t sniStr r.prtVer c
        return (choice,s)
      | .always => overrideTarget t net sniStr r.prtVer originPort c s
      | .policyExists => overrideTarget t net sniStr r.prtVer originPort c s
      | _ => return (.ok c,s)

end Choice

section Tunnel

variable {σ : Type} (t : Tables) (net : Net σ) (http : HTTP)

def dialIfNil (dstConn : Option Conn) (target : Str) (p : Policy) : Proc (State σ) Conn :=
  match dstConn with
  | some conn => pure conn
  | none => outside (net.dialTCPTimeout target p.connectTimeout)

def chooseTLSProc (originHost originPort : Str) (record : Bytes) (r : Parsed) (c : Chosen) :
    Proc (State σ) Chosen := fun s =>
  match chooseTLS t net originHost originPort record r c s.world with
  | .error fault => .error fault
  | .ok (.error reply,world) =>
    .ok (.error "Connection blocked",{s with world, client := s.client++[reply]})
  | .ok (.ok c,world) => .ok (.ok c,{s with world})

def sendHello (c : Chosen) (record : Bytes) (r : Parsed) (conn : Conn) :
    Proc (State σ) (Peer Event) :=
  let p := c.p
  match c.finalMode with
  | .direct => onConn (openConn conn) (Fragment.write record)
  | .raw => onConn (openConn conn) (Fragment.write record)
  | .tlsRF => onConn (openConn conn) (sendRecords record r.sniStart r.sniLen p.numRecords
      p.numSegments p.minorVer p.oob.isTrue p.oobEx.isTrue p.waitForAck.isTrue p.sendInterval)
  | .ttld => do
    let first ← ofChecked (index c.target 0)
    let ipv6 : Bool := first = 91
    let ttl ← outside (net.getFakeTTL p c.target ipv6)
    onConn (openConn conn) (net.desyncSend ipv6 record r.sniStart r.sniLen ttl p.fakeSleep)
  | _ => return openConn conn

def handleTLS (recordLen : ℕ) (p : Policy) (dstConn : Option Conn)
    (originHost target originPort : Str) : Proc (State σ) (Peer Event) := do
  let record ← readRecord recordLen
  let r ← ofChecked (parseClientHello record)
  if r.err.isSome then Proc.ofExcept (.error "Parse record")
  else
    let c ← chooseTLSProc t net originHost originPort record r ⟨.unset,p,dstConn,target⟩
    let conn ← dialIfNil net c.dstConn c.target c.p
    sendHello net c record r conn

/-- The host for a redirect. -/
def requestHost (req : http.Request) (originHost : Str) : Str :=
  if http.host req ≠ [] then http.host req
  else if http.urlHost req ≠ [] then http.urlHost req
  else originHost

def redirectLocation (p : Policy) (req : http.Request) (originHost : Str) : Option Str :=
  if p.httpStatus = 301 ∨ p.httpStatus = 302 then
    some (str "https://"++requestHost http req originHost++http.requestURI req)
  else none

def dialForRequest (dstConn : Option Conn) (target : Str) (p : Policy) : Proc (State σ) Conn :=
  fun s =>
    match dialIfNil net dstConn target p s with
    | .ok (.error err,s) => stop (.status 502 none) err s
    | result => result

def writeRequest (req : http.Request) (conn : Conn) : Proc (State σ) (Peer Event) := fun s =>
  match http.write req s.reader (openConn conn) with
  | .error fault => .error fault
  | .ok (.error err,_) => .ok (.error err,s)
  | .ok (.ok reader,dst) => .ok (.ok dst,{s with reader})

def handleHTTP (p : Policy) (dstConn : Option Conn) (originHost target : Str)
    (req : http.Request) : Proc (State σ) (Peer Event) :=
  if p.httpStatus ≠ 0 ∧ p.httpStatus ≠ unsetInt then
    stop (.status p.httpStatus (redirectLocation http p req originHost)) "Sent status"
  else do
    let conn ← dialForRequest net dstConn target p
    writeRequest http req conn

def methods : List Str :=
  [str "GET ",str "POST ",str "HEAD ",str "PUT ",str "DELETE ",str "OPTIONS ",str "TRACE ",
    str "PATCH "]

def bytesHasPrefix (b : Bytes) (prefixes : List Str) : Bool := prefixes.any fun m => hasPrefix b m

/-- `http.ReadRequest`, whose error is handled by the caller. -/
def readRequest : Proc (State σ) (Except String http.Request) := fun s =>
  .ok (.ok (http.readRequest s.reader).1,{s with reader := (http.readRequest s.reader).2})

/-- The first bytes of the client. The result is the connection to the server, if there is one. -/
def firstFlight (p : Policy) (dstConn : Option Conn) (originHost target originPort : Str) :
    Proc (State σ) (Option (Peer Event)) := do
  let first ← peekBytes 10
  let b₀ ← ofChecked (index first 0)
  if b₀ = 0x16 then
    let b₁ ← ofChecked (index first 1)
    if b₁ = 0x03 then
      let n ← ofChecked (uint16At first 3)
      let dst ← handleTLS t net (5+n) p dstConn originHost target originPort
      return some dst
    else return dstConn.map openConn
  else if bytesHasPrefix first methods then
    match ← readRequest http with
    | .ok req =>
      let dst ← handleHTTP net http p dstConn originHost target req
      return some dst
    | .error _ => return dstConn.map openConn
  else return dstConn.map openConn

/-- Send what is buffered. -/
def drain (dst : Peer Event) : Proc (State σ) (Peer Event) := fun s =>
  if s.reader.buffered.length = 0 then .ok (.ok dst,s)
  else onConn dst (Fragment.write s.reader.buffered) s

/-- The connection to which the rest of the client's bytes is copied. -/
def handleTunnel (p : Policy) (dstConn : Option Conn) (originHost target originPort : Str) :
    Proc (State σ) (Peer Event) :=
  if p.mode = .raw then do
    let conn ← dialIfNil net dstConn target p
    return openConn conn
  else do
    match ← firstFlight t net http p dstConn originHost target originPort with
    | some dst => drain dst
    | none =>
      let conn ← dialIfNil net none target p
      drain (openConn conn)

/-- What the server has received when the client has ended: what was sent before, and the copy of
what was left in the client's connection. -/
def delivered (dst : Peer Event) (s : State σ) : Bytes := wire dst.log++s.reader.chunks.flatten

end Tunnel

end Tunnel
end Enimul
