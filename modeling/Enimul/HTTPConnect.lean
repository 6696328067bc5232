import Enimul.HTTPForward
import Enimul.HostPort
import Enimul.Socks5Handshake

/-! CONNECT requests of the HTTP proxy.
`handleConnect` takes a host and a port as one text, and treats them as the SOCKS5 handler treats
the address of its request. The two are the front ends of the same policies and of the same
tunnel. -/
namespace Enimul
namespace HTTPConnect

open GoSlice GoText NetIP Resolve DoHDial Policies GenPolicy Socks5
open HostPort (splitHostPort_joinHostPort)
open HTTPForward (status403 status500)

/-- What the client gets: a status by way of `net/http`, which answers 200 for a handler that
has said nothing, or a line on the connection that the handler has taken over. -/
inductive Response
  | status (code : ℕ) (body : String)
  | unsaid
  | established
  | badGateway
  | unsent
  | panicked
  deriving DecidableEq, Repr

/-- A client takes any status from 200 to 299 for an open tunnel. -/
def Response.success : Response → Bool
  | .status code _ => 200 ≤ code ∧ code < 300
  | .unsaid => true
  | .established => true
  | _ => false

/-- What the server can do for the handler: to hand over the connection, and to write to it. -/
structure Server where
  hijacker : Bool := true
  hijack : Bool := true
  write : Bool := true

section Handler

variable {σ : Type} (t : Tables) (w : World σ) (s : σ) (dial : Str → ℤ → Bool) (server : Server)

/-- The arguments of `handleTunnel`. The port of the policy is put in as it is. -/
def connectCall (oldDest originHost originPort dstHost : Str) (policy : Policy) : TunnelCall where
  policy := policy
  dialed := policy.replyFirst ≠ .true
  oldTarget := oldDest
  target := joinHostPort dstHost
    (if policy.port ≠ 0 ∧ policy.port ≠ unsetInt then formatInt policy.port else originPort)
  originHost := originHost
  originPort := originPort

def establish (call : TunnelCall) : Response × Option TunnelCall :=
  if ¬ server.hijacker ∨ ¬ server.hijack then (.status 500 status500,none)
  else if call.dialed ∧ ¬ dial call.target call.policy.connectTimeout then
    (if server.write then .badGateway else .unsent,none)
  else if server.write then (.established,some call)
  else (.unsent,none)

/-- The response and the tunnel that is entered, if one is. -/
def handleConnect (oldDest : Str) : Response × Option TunnelCall :=
  if oldDest = [] then (.status 400 "",none)
  else match splitHostPort oldDest with
    | none => (.unsaid,none)
    | some (originHost,originPort) =>
      match (genPolicy t w ⟨originHost,false,false⟩ s).1 with
      | .failed => (.status 500 status500,none)
      | .blocked => (.status 403 status403,none)
      | .domainNotFound => (.panicked,none)
      | .routed dstHost policy =>
        if policy.mode = .block then (.status 403 status403,none)
        else establish dial server (connectCall oldDest originHost originPort dstHost policy)

end Handler

section Agreement

variable {σ : Type} {t : Tables} {w : World σ} {s : σ} {dial : Str → ℤ → Bool}

/-- An IP address is taken for one also without the flag. -/
theorem genPolicy_literal {host : Str} (isIP : Bool) (h : isIP = true → isIPLiteral host = true) :
    genPolicy t w ⟨host,isIP,false⟩ s = genPolicy t w ⟨host,false,false⟩ s := by
  cases isIP with
  | false => rfl
  | true =>
    have hip : isIPRequest ⟨host,true,false⟩ = true := by simp [isIPRequest]
    have hip' : isIPRequest ⟨host,false,false⟩ = true := by simp [isIPRequest,h rfl]
    rw [genPolicy,genPolicy,if_pos hip,if_pos hip']
    rfl

theorem isIPLiteral_of_hostOf {addr : Bytes} {host : Str} {isIP : Bool} (haddr : IsAddr addr)
    (hhost : hostOf addr = some (host,isIP)) : isIP = true → isIPLiteral host = true := by
  rintro rfl
  obtain ⟨n,name,hi,lo,rfl,hname⟩ | ⟨ip,hi,lo,rfl,hip⟩ | ⟨ip,hi,lo,rfl,hip⟩ := haddr.forms
  · rw [hostOf_domain hname] at hhost
    split at hhost <;> simp at hhost
  · rw [hostOf_ipv4 hip] at hhost
    cases hhost
    exact isIPLiteral_ipString (.inl hip)
  · rw [hostOf_ipv6 hip] at hhost
    cases hhost
    exact isIPLiteral_ipString (.inr hip)

/-- The two front ends call the tunnel alike, unless the port of the policy does not fit. -/
theorem connectCall_eq (host dstHost : Str) {policy : Policy} (n : ℕ)
    (hport : policy.port = unsetInt ∨ 0 ≤ policy.port ∧ policy.port < 65536) :
    connectCall (joinHostPort host (formatInt n)) host (formatInt n) dstHost policy =
      tunnelCall host dstHost policy n := by
  have htext : (if policy.port ≠ 0 ∧ policy.port ≠ unsetInt then formatInt policy.port
      else formatInt n) = formatInt (if policy.port ≠ 0 ∧ policy.port ≠ unsetInt then
        (policy.port%65536).toNat else n : ℕ) := by
    split
    · rename_i hset
      obtain hunset | ⟨hnonneg,hlt⟩ := hport
      · exact absurd hunset hset.2
      · rw [Int.emod_eq_of_lt hnonneg hlt,Int.toNat_of_nonneg hnonneg]
    · rfl
  rw [connectCall,tunnelCall,htext]

/-- With a server that hands over its connections, the tunnel is entered exactly if the dial
succeeds, and exactly then the client is told so. -/
theorem establish_eq (call : TunnelCall) :
    establish dial {} call = if call.dialed ∧ ¬ dial call.target call.policy.connectTimeout then
      (.badGateway,none) else (.established,some call) := by
  simp [establish]

theorem handleConnect_join {host : Str} {n : ℕ} (hplain : 91 ∉ host ∧ 93 ∉ host) (server : Server) :
    handleConnect t w s dial server (joinHostPort host (formatInt n)) =
      match (genPolicy t w ⟨host,false,false⟩ s).1 with
      | .failed => (.status 500 status500,none)
      | .blocked => (.status 403 status403,none)
      | .domainNotFound => (.panicked,none)
      | .routed dstHost policy =>
        if policy.mode = .block then (.status 403 status403,none)
        else establish dial server
          (connectCall (joinHostPort host (formatInt n)) host (formatInt n) dstHost policy) := by
  have hne : joinHostPort host (formatInt n) ≠ [] := by
    rw [joinHostPort]
    split <;> simp [str]
  rw [handleConnect,if_neg hne,
    splitHostPort_joinHostPort hplain fun c hc => isDigit_formatInt hc]

/-- The one request that is answered with success and has no tunnel is one without a port. -/
theorem success_iff (server : Server) (oldDest : Str) :
    (handleConnect t w s dial server oldDest).1.success = true ↔
      (handleConnect t w s dial server oldDest).2.isSome = true ∨
        oldDest ≠ [] ∧ splitHostPort oldDest = none := by
  have hestablish : ∀ call, (establish dial server call).1.success =
      (establish dial server call).2.isSome := by
    intro call
    rw [establish]
    split_ifs <;> rfl
  rw [handleConnect]
  by_cases hnil : oldDest = []
  · simp [hnil,Response.success]
  · rw [if_neg hnil]
    cases hsplit : splitHostPort oldDest with
    | none => simp [hnil,Response.success]
    | some hostPort =>
      obtain ⟨originHost,originPort⟩ := hostPort
      cases hdecision : (genPolicy t w ⟨originHost,false,false⟩ s).1 with
      | routed dstHost policy =>
        by_cases hmode : policy.mode = .block
        · simp [hdecision,hmode,Response.success]
        · simp [hdecision,hmode,hestablish]
      | _ => simp [hdecision,Response.success]

/-- The HTTP front end opens the tunnels that the SOCKS5 one does, for the same address with the
same arguments, apart from those whose policy blocks by default; and it tells its client that
there is a tunnel exactly if there is one, or if the client has not said a port. -/
theorem connect_agrees {addr : Bytes} {host : Str} {isIP : Bool} (haddr : IsAddr addr)
    (hhost : hostOf addr = some (host,isIP)) (hplain : 91 ∉ host ∧ 93 ∉ host)
    (hport : ∀ dstHost p, (genPolicy t w ⟨host,isIP,false⟩ s).1 = .routed dstHost p →
      p.port = unsetInt ∨ 0 ≤ p.port ∧ p.port < 65536) :
    (∀ call, (handleConnect t w s dial {} (joinHostPort host (formatInt (portOf addr)))).2 = some call ↔
      verdict t w s dial addr = .accepted call ∧ call.policy.mode ≠ .block) ∧
    ∀ server oldDest, (handleConnect t w s dial server oldDest).1.success = true ↔
      (handleConnect t w s dial server oldDest).2.isSome = true ∨
        oldDest ≠ [] ∧ splitHostPort oldDest = none := by
  refine ⟨fun call => ?_,success_iff⟩
  have hliteral := isIPLiteral_of_hostOf haddr hhost
  have hsame := genPolicy_literal (t := t) (w := w) (s := s) isIP hliteral
  rw [hsame] at hport
  rw [handleConnect_join hplain]
  simp only [verdict,hhost,hsame]
  cases hdecision : (genPolicy t w ⟨host,false,false⟩ s).1 with
  | failed => simp
  | blocked => simp
  | domainNotFound => exact absurd hdecision (genPolicy_ne_domainNotFound t w s host false)
  | routed dstHost policy =>
    have hcall := connectCall_eq host dstHost (portOf addr) (hport dstHost policy hdecision)
    have hpolicy : (tunnelCall host dstHost policy (portOf addr)).policy = policy := rfl
    simp only [hcall,establish_eq,hpolicy]
    by_cases hmode : policy.mode = .block
    · rw [if_pos hmode]
      refine ⟨nofun,?_⟩
      rintro ⟨h,hopen⟩
      split at h
      · cases h
      · cases h
        exact absurd hmode hopen
    · rw [if_neg hmode]
      split
      · simp
      · refine ⟨fun h => ?_,fun h => ?_⟩
        · cases h
          exact ⟨rfl,hmode⟩
        · obtain ⟨heq,-⟩ := h
          cases heq
          rfl

/-- Tables that block nothing. -/
def passAll : Tables := {blockAll with defaultPolicy := {mergeStart with mode := .raw}}

theorem connect_agrees_served :
    ∃ call, (handleConnect passAll (answering []) () (fun target _ => target = str "1.2.3.4:443") {}
      (joinHostPort (str "1.2.3.4") (formatInt (portOf [1,1,2,3,4,1,187])))).2 = some call := by
  have haddr : IsAddr [1,1,2,3,4,1,187] := by decide
  have hhost : hostOf [1,1,2,3,4,1,187] = some (str "1.2.3.4",true) := rfl
  have hport : ∀ dstHost p, (genPolicy passAll (answering []) ⟨str "1.2.3.4",true,false⟩ ()).1 =
      .routed dstHost p → p.port = unsetInt ∨ 0 ≤ p.port ∧ p.port < 65536 := by
    intro dstHost p hp
    have hrouted : Decision.routed (str "1.2.3.4") passAll.defaultPolicy = .routed dstHost p := hp
    cases hrouted
    exact .inl rfl
  exact ⟨_,((connect_agrees haddr hhost (by decide) hport).1 _).mpr ⟨rfl,by decide⟩⟩

end Agreement

end HTTPConnect
end Enimul
