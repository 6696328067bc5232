import Enimul.Dialogue
import Enimul.Socks5

/-! The SOCKS5 handshake, from both sides.
`ClientHandshake` asks a proxy for an address; `socks5Handler` reads such a request, decides on it
with the policies and answers. Both read exactly as many bytes as they need, in the order in which
the other side writes them. -/
namespace Enimul
namespace Socks5

open GoSlice GoText NetIP Resolve DoHDial Policies GenPolicy Dialogue Machine

section Client

def cmdConnect : UInt8 := 1
def cmdBind : UInt8 := 2
def cmdUDPAssociate : UInt8 := 3

def commandString (c : UInt8) : String :=
  if c = cmdConnect then "CONNECT"
  else if c = cmdBind then "BIND"
  else if c = cmdUDPAssociate then "UDP ASSOCIATE"
  else "UNDEFINED"

def replyString (r : UInt8) : String :=
  match r.toNat with
  | 0 => "succeeded"
  | 1 => "general SOCKS server failure"
  | 2 => "connection not allowed by ruleset"
  | 3 => "network unreachable"
  | 4 => "host unreachable"
  | 5 => "connection refused"
  | 6 => "TTL expired"
  | 7 => "command not supported"
  | 8 => "address type not supported"
  | n => "unassigned <0x"++text [digit (n/16),digit (n%16)]++">"

structure User where
  username : Str
  password : Str

/-- An error of the connection, or one of the handshake with its message. -/
inductive ClientError
  | io
  | handshake (message : String)
  deriving DecidableEq, Repr

abbrev Client := Talk UInt8 (Except ClientError Bytes)

def ioReadFull (n : ℕ) (next : Bytes → Client) : Client :=
  .read n fun
    | none => .done (.error .io)
    | some b => next b

def send (b : Bytes) (next : Client) : Client :=
  .write b fun ok => if ok then next else .done (.error .io)

def refuse (message : String) : Client := .done (.error (.handshake message))

def readAddr : Client :=
  ioReadFull 1 fun b =>
  let atyp := b.getD 0 0
  if atyp = atypDomainName then
    ioReadFull 1 fun l =>
    ioReadFull ((l.getD 0 0).toNat+2) fun rest => .done (.ok ([atyp]++l++rest))
  else if atyp = atypIPv4 then ioReadFull (4+2) fun rest => .done (.ok ([atyp]++rest))
  else if atyp = atypIPv6 then ioReadFull (16+2) fun rest => .done (.ok ([atyp]++rest))
  else refuse "invalid address type"

def awaitReply (command : UInt8) : Client :=
  ioReadFull 3 fun b =>
  if b.getD 1 0 ≠ 0 then refuse (commandString command++": "++replyString (b.getD 1 0))
  else readAddr

def request (addr : Bytes) (command : UInt8) : Client :=
  send ([5,command,0]++addr) (awaitReply command)

def authenticate (user : User) (next : Client) : Client :=
  if user.username = [] ∨ user.password = [] then refuse "auth username/password empty"
  else if 255 < user.username.length ∨ 255 < user.password.length then
    refuse "auth username/password too long"
  else
    send ([1,UInt8.ofNat user.username.length]++user.username++
      [UInt8.ofNat user.password.length]++user.password)
    (ioReadFull 2 fun b =>
    if b.getD 1 0 ≠ 0 then refuse "rejected username/password" else next)

def methodNoAuth : UInt8 := 0
def methodUserPass : UInt8 := 2

def clientHandshake (addr : Bytes) (command : UInt8) (user : Option User) : Client :=
  let method := if user.isSome then methodUserPass else methodNoAuth
  send [5,1,method]
  (ioReadFull 2 fun b =>
  if b.getD 0 0 ≠ 5 then refuse "socks version mismatched"
  else if b.getD 1 0 = methodUserPass then
    match user with
    | none => refuse "auth required"
    | some user => authenticate user (request addr command)
  else if b.getD 1 0 ≠ methodNoAuth then refuse "unsupported method"
  else request addr command)

end Client

section Handler

/-- What `handleTunnel` is called with; the destination is dialled before, or left to it. -/
structure TunnelCall where
  policy : Policy
  dialed : Bool
  oldTarget : Str
  target : Str
  originHost : Str
  originPort : Str
  deriving DecidableEq, Repr

/-- The handler closes the connection, or leaves it to the tunnel. -/
inductive Ended
  | closed
  | tunnel (call : TunnelCall)
  | panicked
  deriving DecidableEq, Repr

abbrev Handler := Talk UInt8 Ended

def readN (n : ℕ) (next : Bytes → Handler) : Handler :=
  .read n fun
    | none => .done .closed
    | some b => next b

def socks5Reply (code : UInt8) : Bytes := [5,code,0,1,0,0,0,0,0,0]

def noAuthReply : Bytes := [5,0]
def socks5ReplySuccess : Bytes := socks5Reply 0
def socks5ReplyServerFailure : Bytes := socks5Reply 1
def socks5ReplyConnNotAllowed : Bytes := socks5Reply 2
def socks5ReplyCmdNotSupported : Bytes := socks5Reply 7
def socks5ReplyAtypNotSupported : Bytes := socks5Reply 8

/-- Whether the reply was written or not, the handler returns. -/
def sendReply (reply : Bytes) : Handler := .write reply fun _ => .done .closed

variable {σ : Type} (t : Tables) (w : World σ) (s : σ) (dial : Str → ℤ → Bool)

/-- The targets for the port of the request; the port of the policy is cut to two bytes. -/
def tunnelCall (originHost dstHost : Str) (policy : Policy) (dstPort : ℕ) : TunnelCall :=
  let port :=
    if policy.port ≠ 0 ∧ policy.port ≠ unsetInt then (policy.port%65536).toNat else dstPort
  { policy
    dialed := policy.replyFirst ≠ .true
    oldTarget := joinHostPort originHost (formatInt dstPort)
    target := joinHostPort dstHost (formatInt port)
    originHost
    originPort := formatInt dstPort }

/-- A reply that cannot be written closes both connections. -/
def connect (originHost dstHost : Str) (policy : Policy) : Handler :=
  readN 2 fun portBytes =>
  let call := tunnelCall originHost dstHost policy
    ((portBytes.getD 0 0).toNat*256+(portBytes.getD 1 0).toNat)
  if call.dialed ∧ ¬ dial call.target policy.connectTimeout then sendReply socks5ReplyServerFailure
  else .write socks5ReplySuccess fun ok => if ok then .done (.tunnel call) else .done .closed

/-- The policy is chosen before the port is read. Without a policy the first use of it panics. -/
def serve (originHost : Str) (isIP : Bool) : Handler :=
  match (genPolicy t w ⟨originHost,isIP,false⟩ s).1 with
  | .failed => sendReply socks5ReplyServerFailure
  | .blocked => sendReply socks5ReplyConnNotAllowed
  | .domainNotFound => readN 2 fun _ => .done .panicked
  | .routed dstHost policy => connect dial originHost dstHost policy

def readHost (atyp : UInt8) : Handler :=
  if atyp = 0x1 then readN 4 fun ipBytes => serve t w s dial (ipString ipBytes) true
  else if atyp = 0x4 then readN 16 fun ipBytes => serve t w s dial (ipString ipBytes) true
  else if atyp = 0x3 then
    readN 1 fun lenByte =>
    if 253 < lenByte.getD 0 0 then .done .closed
    else readN (lenByte.getD 0 0).toNat fun domainBytes => serve t w s dial domainBytes false
  else sendReply socks5ReplyAtypNotSupported

def readRequest (header : Bytes) : Handler :=
  if header.getD 0 0 ≠ 0x5 then .done .closed
  else if header.getD 1 0 ≠ 0x1 then sendReply socks5ReplyCmdNotSupported
  else readHost t w s dial (header.getD 3 0)

def socks5Handler : Handler :=
  readN 2 fun header =>
  if header.getD 0 0 ≠ 0x5 then .done .closed
  else
    readN (header.getD 1 0).toNat fun methods =>
    if 0 ∉ methods then .done .closed
    else .write noAuthReply fun ok => if ok then readN 4 (readRequest t w s dial) else .done .closed

end Handler

section Requests

variable {σ : Type} (t : Tables) (w : World σ) (s : σ) (dial : Str → ℤ → Bool)

/-- What becomes of a request: closed without a reply, refused with one, or served. -/
inductive Verdict
  | silent
  | refused (code : UInt8)
  | accepted (call : TunnelCall)

/-- The host of a well-formed address as text, and whether it is an IP address; none for a name
that is too long. -/
def hostOf : Bytes → Option (Str × Bool)
  | [] => none
  | atyp::body =>
    if atyp = atypIPv4 then some (ipString (body.take 4),true)
    else if atyp = atypIPv6 then some (ipString (body.take 16),true)
    else if 253 < body.getD 0 0 then none
    else some ((body.drop 1).take (body.getD 0 0).toNat,false)

def portOf (addr : Bytes) : ℕ :=
  (addr.getD (addr.length-2) 0).toNat*256+(addr.getD (addr.length-1) 0).toNat

/-- What the policies and the network decide about an address. -/
def verdict (addr : Bytes) : Verdict :=
  match hostOf addr with
  | none => .silent
  | some (host,isIP) =>
    match (genPolicy t w ⟨host,isIP,false⟩ s).1 with
    | .failed => .refused 1
    | .blocked => .refused 2
    | .domainNotFound => .silent
    | .routed dstHost policy =>
      let call := tunnelCall host dstHost policy (portOf addr)
      if call.dialed ∧ ¬ dial call.target policy.connectTimeout then .refused 1
      else .accepted call

/-- The verdict on a whole handshake of the client. -/
def outcome (addr : Bytes) (command : UInt8) (user : Option User) : Verdict :=
  if user.isSome then .silent
  else if command ≠ cmdConnect then .refused 7
  else verdict t w s dial addr

def clientEnd (command : UInt8) : Verdict → Except ClientError Bytes
  | .silent => .error .io
  | .refused code => .error (.handshake (commandString command++": "++replyString code))
  | .accepted _ => .ok [atypIPv4,0,0,0,0,0,0]

def serverEnd : Verdict → Ended
  | .silent => .closed
  | .refused _ => .closed
  | .accepted call => .tunnel call

end Requests

section Agreement

variable {command : UInt8} {v : Verdict} {limit : ℕ} {x : Pair UInt8 (Except ClientError Bytes) Ended}

/-- The client has written all it has to, and the two come to the ends of a verdict. The bytes
that the handler leaves unread are those that it has now; a served request leaves none. -/
def Settles (command : UInt8) (v : Verdict) (limit : ℕ)
    (x : Pair UInt8 (Except ClientError Bytes) Ended) : Prop :=
  ∃ n unreadLeft unreadRight vs,
    Plays (clientEnd command v) (serverEnd v) unreadLeft unreadRight n x [] vs ∧ n ≤ limit ∧
    unreadRight.length ≤ x.toRight.length ∧ (vs = [] → unreadLeft = []) ∧
    ∀ call, v = .accepted call → unreadLeft = [] ∧ unreadRight = []

theorem Settles.read {c : Client} {k : ℕ} {next : Bytes → Handler} {r o : Bytes}
    (h : Settles command v limit ⟨c,next r,[],o⟩) (hr : r.length = k) :
    Settles command v (limit+1) ⟨c,readN k next,[],r++o⟩ := by
  obtain ⟨n,unreadLeft,unreadRight,vs,hplays,hn,hlen,hleft,hclean⟩ := h
  refine ⟨n+1,unreadLeft,unreadRight,vs,.readRight hr hplays,by omega,?_,hleft,hclean⟩
  exact hlen.trans (List.sublist_append_right r o).length_le

theorem Settles.mono {limit' : ℕ} (h : Settles command v limit x) (hle : limit ≤ limit') :
    Settles command v limit' x := by
  obtain ⟨n,unreadLeft,unreadRight,vs,hplays,hn,hrest⟩ := h
  exact ⟨n,unreadLeft,unreadRight,vs,hplays,hn.trans hle,hrest⟩

theorem settles_silent (o : Bytes) :
    Settles command .silent 1 ⟨awaitReply command,.done .closed,[],o⟩ :=
  ⟨1,[],o,[],.failLeft (by decide) .done,le_rfl,le_rfl,fun _ => rfl,by simp⟩

theorem settles_refused {code : UInt8} (hcode : code ≠ 0) (o : Bytes) :
    Settles command (.refused code) 2 ⟨awaitReply command,sendReply (socks5Reply code),[],o⟩ := by
  have hend : Plays (clientEnd command (.refused code)) (serverEnd (.refused code)) [1,0,0,0,0,0,0] o 1
      ⟨awaitReply command,.done .closed,[5,code,0]++[1,0,0,0,0,0,0],o⟩ [] [] := by
    refine .readLeft rfl ?_
    simp only [List.getD_cons_succ,List.getD_cons_zero,ne_eq,hcode,not_false_eq_true,if_true]
    exact .done
  exact ⟨2,_,o,_,.writeRight rfl (fun _ => by simp [socks5Reply]) hend,le_rfl,le_rfl,by simp,by simp⟩

theorem settles_accepted (call : TunnelCall) :
    Settles command (.accepted call) 4 ⟨awaitReply command,
      .write socks5ReplySuccess fun ok => if ok then .done (.tunnel call) else .done .closed,[],[]⟩ := by
  refine ⟨4,[],[],_,.writeRight rfl (by decide) (.readLeft (r := [5,0,0]) rfl
    (.readLeft (r := [1]) rfl (.readLeft (r := [0,0,0,0,0,0]) (i := []) rfl .done))),le_rfl,
    le_rfl,by simp,by simp⟩

section Request

variable {σ : Type} (t : Tables) (w : World σ) (s : σ) (dial : Str → ℤ → Bool)

/-- A request without a flag for names that are not found never gets that decision. -/
theorem genPolicy_ne_domainNotFound (host : Str) (isIP : Bool) :
    (genPolicy t w ⟨host,isIP,false⟩ s).1 ≠ .domainNotFound := by
  intro h
  obtain ⟨-,hflag,-⟩ := genPolicy_domainNotFound (Prod.ext h rfl)
  cases hflag

theorem portOf_append (front : Bytes) (hi lo : UInt8) :
    portOf (front++[hi,lo]) = hi.toNat*256+lo.toNat := by
  simp [portOf]

/-- With the host read, the port is what is left. -/
theorem settles_serve {addr : Bytes} {host : Str} {isIP : Bool} {hi lo : UInt8}
    (hhost : hostOf addr = some (host,isIP)) (hport : portOf addr = hi.toNat*256+lo.toNat) :
    Settles command (verdict t w s dial addr) 5
      ⟨awaitReply command,serve t w s dial host isIP,[],[hi,lo]⟩ := by
  simp only [verdict,hhost,serve,hport]
  cases hdecision : (genPolicy t w ⟨host,isIP,false⟩ s).1 with
  | failed => exact (settles_refused (by decide) _).mono (by decide)
  | blocked => exact (settles_refused (by decide) _).mono (by decide)
  | domainNotFound => exact absurd hdecision (genPolicy_ne_domainNotFound t w s host isIP)
  | routed dstHost policy =>
    refine Settles.read (r := [hi,lo]) (o := []) ?_ rfl
    simp only [List.getD_cons_zero,List.getD_cons_succ]
    split
    · exact (settles_refused (by decide) _).mono (by decide)
    · exact settles_accepted _

theorem hostOf_ipv4 {ip : Bytes} (hip : ip.length = 4) (hi lo : UInt8) :
    hostOf (atypIPv4::(ip++[hi,lo])) = some (ipString ip,true) := by
  simp [hostOf,← hip]

theorem hostOf_ipv6 {ip : Bytes} (hip : ip.length = 16) (hi lo : UInt8) :
    hostOf (atypIPv6::(ip++[hi,lo])) = some (ipString ip,true) := by
  simp [hostOf,← hip,atypIPv4,atypIPv6]

theorem hostOf_domain {n : UInt8} {name : Bytes} (hname : name.length = n.toNat) (hi lo : UInt8) :
    hostOf (atypDomainName::n::(name++[hi,lo])) = if 253 < n then none else some (name,false) := by
  simp [hostOf,atypDomainName,atypIPv4,atypIPv6,← hname]

theorem settles_host {atyp : UInt8} {body : Bytes} (h : IsAddr (atyp::body)) :
    Settles command (verdict t w s dial (atyp::body)) 7
      ⟨awaitReply command,readHost t w s dial atyp,[],body⟩ := by
  obtain ⟨n,name,hi,lo,ha,hname⟩ | ⟨ip,hi,lo,ha,hip⟩ | ⟨ip,hi,lo,ha,hip⟩ := h.forms
  · obtain ⟨rfl,rfl⟩ := List.cons.inj ha
    have hport := portOf_append (atypDomainName::n::name) hi lo
    have hhost := hostOf_domain hname hi lo
    refine Settles.read (r := [n]) ?_ rfl
    by_cases hlong : 253 < n
    · have hsilent : verdict t w s dial (atypDomainName::n::(name++[hi,lo])) = .silent := by
        rw [verdict,hhost,if_pos hlong]
      rw [hsilent]
      simp only [List.getD_cons_zero,hlong,if_true]
      exact (settles_silent _).mono (by decide)
    · rw [if_neg hlong] at hhost
      simp only [List.getD_cons_zero,hlong,if_false]
      exact Settles.read (settles_serve t w s dial hhost hport) hname
  · obtain ⟨rfl,rfl⟩ := List.cons.inj ha
    have hport := portOf_append (atypIPv4::ip) hi lo
    exact (Settles.read (settles_serve t w s dial (hostOf_ipv4 hip hi lo) hport) hip).mono (by decide)
  · obtain ⟨rfl,rfl⟩ := List.cons.inj ha
    have hport := portOf_append (atypIPv6::ip) hi lo
    exact (Settles.read (settles_serve t w s dial (hostOf_ipv6 hip hi lo) hport) hip).mono (by decide)

theorem settles_request (command : UInt8) {atyp : UInt8} {body : Bytes} (h : IsAddr (atyp::body)) :
    Settles command (outcome t w s dial (atyp::body) command none) 7
      ⟨awaitReply command,readRequest t w s dial [5,command,0,atyp],[],body⟩ := by
  simp only [outcome,readRequest,Option.isSome_none,List.getD_cons_zero,List.getD_cons_succ,ne_eq,
    not_true_eq_false,if_false]
  by_cases hcmd : command = 1
  · simp only [hcmd,cmdConnect,not_true_eq_false,if_false]
    exact settles_host t w s dial h
  · simp only [hcmd,cmdConnect,not_false_eq_true,if_true]
    exact (settles_refused (by decide) _).mono (by decide)

/-- One order of the steps: a side goes on until it has to wait. -/
theorem plays_handshake {addr : Bytes} (haddr : IsAddr addr) (command : UInt8) (user : Option User) :
    ∃ n unreadLeft unreadRight ws vs, n ≤ 14 ∧
      Plays (clientEnd command (outcome t w s dial addr command user))
        (serverEnd (outcome t w s dial addr command user)) unreadLeft unreadRight n
        ⟨clientHandshake addr command user,socks5Handler t w s dial,[],[]⟩ ws vs ∧
      ∀ call, outcome t w s dial addr command user = .accepted call →
        unreadLeft = [] ∧ unreadRight = [] := by
  cases user with
  | some user =>
    -- the handler looks for a method that this client does not offer
    exact ⟨4,[],[],_,_,by decide,.writeLeft rfl (fun _ => Nat.zero_lt_succ _)
      (.readRight (r := [5,1]) rfl (.readRight (r := [2]) (o := []) rfl
        (.failLeft (by decide) .done))),fun _ _ => ⟨rfl,rfl⟩⟩
  | none =>
    cases addr with
    | nil => cases haddr
    | cons atyp body =>
      obtain ⟨n,unreadLeft,unreadRight,vs,hplays,hn,hlen,hleft,hclean⟩ :=
        settles_request t w s dial command haddr
      refine ⟨n+7,unreadLeft,unreadRight,[[5,1,0],[5,command,0]++atyp::body],noAuthReply::vs,
        by omega,?_,hclean⟩
      refine .writeLeft rfl (fun h => by cases h) (.readRight (r := [5,1]) rfl
        (.readRight (r := [0]) (o := []) rfl ?_))
      refine .writeRight rfl (fun h => ?_) (.readLeft (r := [5,0]) (i := []) rfl
        (.writeLeft rfl (fun _ => ?_) (.readRight (r := [5,command,0,atyp]) rfl hplays)))
      · rw [hleft h]
        decide
      · have hlen : unreadRight.length ≤ body.length := hlen
        simp only [List.length_append,List.length_cons]
        omega

/-- In whatever order the client and the handler take their steps, they come to the same ends
and agree on them: the client succeeds exactly if the handler goes on to the tunnel, and then no
byte is left between them; a refusal reaches the client as the text of its code. -/
theorem handshake_agrees {addr : Bytes} (haddr : IsAddr addr) (command : UInt8)
    (user : Option User) {ls : List Side} {y : Pair UInt8 (Except ClientError Bytes) Ended}
    (hy : run step ls ⟨clientHandshake addr command user,socks5Handler t w s dial,[],[]⟩ = some y) :
    ∃ rest f, run step rest y = some f ∧ ls.length+rest.length ≤ 14 ∧
      f.left = .done (clientEnd command (outcome t w s dial addr command user)) ∧
      f.right = .done (serverEnd (outcome t w s dial addr command user)) ∧
      ∀ call, outcome t w s dial addr command user = .accepted call →
        f.toLeft = [] ∧ f.toRight = [] := by
  obtain ⟨n,unreadLeft,unreadRight,ws,vs,hn,hplays,hclean⟩ :=
    plays_handshake t w s dial haddr command user
  obtain ⟨rest,hrest,hlen⟩ := hplays.converges hy
  exact ⟨rest,_,hrest,by omega,rfl,rfl,hclean⟩

/-- With tables that block nothing, an address is served after its port has been read. -/
theorem handshake_agrees_served :
    ∃ rest f, run step rest ⟨clientHandshake [1,1,2,3,4,1,187] 1 none,
        socks5Handler {blockAll with defaultPolicy := {mergeStart with mode := .raw}} (answering [])
          () fun target _ => target = str "1.2.3.4:443",[],[]⟩ = some f ∧
      f.left = .done (.ok [1,0,0,0,0,0,0]) ∧ f.toLeft = [] ∧ f.toRight = [] := by
  have haddr : IsAddr [1,1,2,3,4,1,187] := by decide
  obtain ⟨rest,f,hrun,-,hleft,-,hclean⟩ := handshake_agrees
    {blockAll with defaultPolicy := {mergeStart with mode := .raw}} (answering []) ()
    (fun target _ => target = str "1.2.3.4:443") haddr 1 none (y := ⟨_,_,[],[]⟩) (show run step [] _ = _ from rfl)
  exact ⟨rest,f,hrun,hleft,hclean _ rfl⟩

end Request

end Agreement

section Acceptance

variable {σ : Type} (t : Tables) (w : World σ) (s : σ) (dial : Str → ℤ → Bool)
  {call : TunnelCall} {input rest : Bytes}

theorem follow_readN {n : ℕ} {next : Bytes → Handler} :
    ((readN n next).follow input).2 = (.tunnel call,rest) ↔
      ∃ b tail, input = b++tail ∧ b.length = n ∧ ((next b).follow tail).2 = (.tunnel call,rest) := by
  constructor
  · intro h
    rw [readN,Talk.follow] at h
    split at h
    · rename_i hn
      exact ⟨input.take n,input.drop n,(List.take_append_drop n input).symm,by simp [hn],h⟩
    · cases h
  · rintro ⟨b,tail,rfl,hb,h⟩
    rw [readN,follow_read hb]
    exact h

theorem follow_sendReply {reply : Bytes} :
    ((sendReply reply).follow input).2 ≠ (.tunnel call,rest) := by
  rintro ⟨⟩

/-- The handler goes on to the tunnel from a host exactly if the port follows and the verdict is
to serve. -/
theorem follow_serve (front : Bytes) {host : Str} {isIP : Bool}
    (hhost : ∀ hi lo, hostOf (front++[hi,lo]) = some (host,isIP)) :
    ((serve t w s dial host isIP).follow input).2 = (.tunnel call,rest) ↔
      ∃ hi lo, input = [hi,lo]++rest ∧ verdict t w s dial (front++[hi,lo]) = .accepted call := by
  simp only [verdict,hhost,portOf_append,serve]
  cases hdecision : (genPolicy t w ⟨host,isIP,false⟩ s).1 with
  | failed => simp [follow_sendReply]
  | blocked => simp [follow_sendReply]
  | domainNotFound => exact absurd hdecision (genPolicy_ne_domainNotFound t w s host isIP)
  | routed dstHost policy =>
    simp only [connect,follow_readN]
    constructor
    · rintro ⟨b,tail,rfl,hb,h⟩
      obtain ⟨hi,lo,rfl⟩ := exists_pair hb
      simp only [List.getD_cons_zero,List.getD_cons_succ] at h
      split at h
      · exact absurd h follow_sendReply
      · rename_i hdial
        cases h
        exact ⟨hi,lo,rfl,if_neg hdial⟩
    · rintro ⟨hi,lo,rfl,h⟩
      refine ⟨[hi,lo],rest,rfl,rfl,?_⟩
      simp only [List.getD_cons_zero,List.getD_cons_succ]
      split at h
      · cases h
      · rename_i hdial
        cases h
        rw [if_neg hdial]
        rfl

/-- An IP address of the length that its type says is read whole. -/
theorem follow_ip {atyp : UInt8} {k : ℕ} (haddr : ∀ body, IsAddr (atyp::body) ↔ body.length = k+2)
    (hhost : ∀ ip : Bytes, ip.length = k → ∀ hi lo,
      hostOf (atyp::(ip++[hi,lo])) = some (ipString ip,true)) :
    ((readN k fun ipBytes => serve t w s dial (ipString ipBytes) true).follow input).2 =
        (.tunnel call,rest) ↔
      ∃ body, input = body++rest ∧ IsAddr (atyp::body) ∧
        verdict t w s dial (atyp::body) = .accepted call := by
  rw [follow_readN]
  constructor
  · rintro ⟨ip,tail,rfl,hip,h⟩
    obtain ⟨hi,lo,rfl,hv⟩ := (follow_serve t w s dial (atyp::ip) (hhost ip hip)).mp h
    exact ⟨ip++[hi,lo],by simp,(haddr _).mpr (by simp [hip]),hv⟩
  · rintro ⟨body,rfl,hbody,hv⟩
    obtain ⟨ip,hi,lo,rfl,hip⟩ := exists_port ((haddr body).mp hbody)
    exact ⟨ip,[hi,lo]++rest,List.append_assoc _ _ _,hip,
      (follow_serve t w s dial (atyp::ip) (hhost ip hip)).mpr ⟨hi,lo,rfl,hv⟩⟩

theorem follow_domain :
    ((readN 1 fun lenByte =>
        if 253 < lenByte.getD 0 0 then .done .closed
        else readN (lenByte.getD 0 0).toNat fun domainBytes =>
          serve t w s dial domainBytes false).follow input).2 = (.tunnel call,rest) ↔
      ∃ body, input = body++rest ∧ IsAddr (atypDomainName::body) ∧
        verdict t w s dial (atypDomainName::body) = .accepted call := by
  rw [follow_readN]
  constructor
  · rintro ⟨l,tail,rfl,hl,h⟩
    obtain ⟨n,rfl⟩ := List.length_eq_one_iff.mp hl
    rw [List.getD_cons_zero] at h
    split at h
    · cases h
    · rename_i hlong
      obtain ⟨name,tail',rfl,hname,h⟩ := follow_readN.mp h
      have hhost : ∀ hi lo, hostOf (atypDomainName::n::name++[hi,lo]) = some (name,false) :=
        fun hi lo => (hostOf_domain hname hi lo).trans (if_neg hlong)
      obtain ⟨hi,lo,rfl,hv⟩ := (follow_serve t w s dial (atypDomainName::n::name) hhost).mp h
      exact ⟨n::(name++[hi,lo]),by simp,(isAddr_domain n _).mpr (by simp [hname]),hv⟩
  · rintro ⟨body,rfl,hbody,hv⟩
    cases body with
    | nil => cases hbody
    | cons n body =>
      obtain ⟨name,hi,lo,rfl,hname⟩ := exists_port ((isAddr_domain n body).mp hbody)
      have hlong : ¬ 253 < n := by
        intro hlong
        rw [verdict,hostOf_domain hname,if_pos hlong] at hv
        cases hv
      have hhost : ∀ hi lo, hostOf (atypDomainName::n::name++[hi,lo]) = some (name,false) :=
        fun hi lo => (hostOf_domain hname hi lo).trans (if_neg hlong)
      refine ⟨[n],name++[hi,lo]++rest,rfl,rfl,?_⟩
      rw [List.getD_cons_zero,if_neg hlong,follow_readN]
      exact ⟨name,[hi,lo]++rest,List.append_assoc _ _ _,hname,
        (follow_serve t w s dial (atypDomainName::n::name) hhost).mpr ⟨hi,lo,rfl,hv⟩⟩

theorem follow_readHost {atyp : UInt8} :
    ((readHost t w s dial atyp).follow input).2 = (.tunnel call,rest) ↔
      ∃ body, input = body++rest ∧ IsAddr (atyp::body) ∧
        verdict t w s dial (atyp::body) = .accepted call := by
  rw [readHost]
  split_ifs with h4 h6 hdomain
  · subst h4
    exact follow_ip t w s dial isAddr_ipv4 fun ip hip => hostOf_ipv4 hip
  · subst h6
    exact follow_ip t w s dial isAddr_ipv6 fun ip hip => hostOf_ipv6 hip
  · subst hdomain
    exact follow_domain t w s dial
  · constructor
    · intro h
      exact absurd h follow_sendReply
    · rintro ⟨body,rfl,hbody,-⟩
      simp [IsAddr,addrLen,atypDomainName,atypIPv4,atypIPv6,h4,h6,hdomain] at hbody

theorem follow_readRequest {ver cmd rsv atyp : UInt8}
    (h : ((readRequest t w s dial [ver,cmd,rsv,atyp]).follow input).2 = (.tunnel call,rest)) :
    ver = 5 ∧ cmd = 1 ∧ ((readHost t w s dial atyp).follow input).2 = (.tunnel call,rest) := by
  simp only [readRequest,List.getD_cons_zero,List.getD_cons_succ] at h
  split_ifs at h with hver hcmd
  · cases h
  · exact absurd h follow_sendReply
  · exact ⟨not_not.mp hver,not_not.mp hcmd,h⟩

/-- The handler goes on to the tunnel exactly for a greeting that offers no authentication and a
CONNECT request with a well-formed address that the policies serve; it has then read these and
not a byte more. -/
theorem handler_tunnel_iff :
    ((socks5Handler t w s dial).follow input).2 = (.tunnel call,rest) ↔
      ∃ methods rsv addr,
        input = [5,UInt8.ofNat methods.length]++methods++[5,1,rsv]++addr++rest ∧
        methods.length ≤ 255 ∧ 0 ∈ methods ∧ IsAddr addr ∧
        verdict t w s dial addr = .accepted call := by
  rw [socks5Handler,follow_readN]
  constructor
  · rintro ⟨header,tail,rfl,hheader,h⟩
    obtain ⟨ver,count,rfl⟩ := exists_pair hheader
    simp only [List.getD_cons_zero,List.getD_cons_succ] at h
    split at h
    · cases h
    rename_i hver
    rw [not_not] at hver
    subst hver
    obtain ⟨methods,tail,rfl,hmethods,h⟩ := follow_readN.mp h
    split at h
    · cases h
    rename_i hmem
    obtain ⟨header,tail,rfl,hheader,h⟩ := follow_readN.mp h
    obtain ⟨ver,cmd,rsv,atyp,rfl⟩ := List.length_eq_four.mp hheader
    obtain ⟨rfl,rfl,h⟩ := follow_readRequest t w s dial h
    obtain ⟨body,rfl,haddr,hv⟩ := (follow_readHost t w s dial).mp h
    refine ⟨methods,rsv,atyp::body,?_,?_,not_not.mp hmem,haddr,hv⟩
    · rw [hmethods]
      simp
    · have hlt := count.toNat_lt
      omega
  · rintro ⟨methods,rsv,addr,rfl,hlen,hmem,haddr,hv⟩
    cases addr with
    | nil => cases haddr
    | cons atyp body =>
      have hcount : (UInt8.ofNat methods.length).toNat = methods.length := by
        rw [UInt8.toNat_ofNat']
        omega
      refine ⟨[5,UInt8.ofNat methods.length],methods++([5,1,rsv,atyp]++(body++rest)),by simp,rfl,?_⟩
      simp only [List.getD_cons_zero,List.getD_cons_succ,ne_eq,not_true_eq_false,if_false,
        follow_readN]
      refine ⟨methods,_,rfl,hcount.symm,?_⟩
      simp only [hmem,not_true_eq_false,if_false,Talk.follow,if_true,follow_readN]
      exact ⟨[5,1,rsv,atyp],body++rest,rfl,rfl,(follow_readHost t w s dial).mpr ⟨body,rfl,haddr,hv⟩⟩

end Acceptance

end Socks5
end Enimul
