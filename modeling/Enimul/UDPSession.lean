import Enimul.Machine
import Enimul.PlanRecovery

/-! A UDP session of the tunnel.
Every datagram is planned anew and sent to the target of its plan. The packets that come back
pass a filter: it compares their source port with the port that the app has sent to, and pins
the first source that it has accepted. -/
namespace Enimul
namespace UDPSession

open GoSlice GoText NetIP GoRun Resolve FakeIP DNSHijack PlanRequest Machine

structure UDPAddr where
  ip : Bytes
  port : ℤ
  deriving DecidableEq, Repr

def v4InV6Prefix : Bytes := List.replicate 10 0++[0xff,0xff]

/-- `net.IP.Equal`. -/
def ipEqual (ip x : Bytes) : Bool :=
  if ip.length = x.length then ip = x
  else if ip.length = 4 ∧ x.length = 16 then x.take 12 = v4InV6Prefix ∧ ip = x.drop 12
  else if ip.length = 16 ∧ x.length = 4 then ip.take 12 = v4InV6Prefix ∧ ip.drop 12 = x
  else false

section Filter

structure SymmetricNATPacketConn where
  dstPort : ℤ
  learnedPeer : Option UDPAddr := none
  deriving DecidableEq, Repr

/-- A round of the loop of `ReadFrom`: whether the packet is passed on. -/
def SymmetricNATPacketConn.accept (pc : SymmetricNATPacketConn) (source : UDPAddr) :
    Bool × SymmetricNATPacketConn :=
  if source.port ≠ pc.dstPort then (false,pc)
  else match pc.learnedPeer with
    | none => (true,{pc with learnedPeer := some source})
    | some peer =>
      if ¬ ipEqual peer.ip source.ip ∨ peer.port ≠ source.port then (false,pc) else (true,pc)

end Filter

section Session

variable {σ : Type} (rt : Runtime σ) (lookupUDP : Str → Run σ Bytes)

def vpnDNSIPv4Addr : Str := str "172.19.0.2"

def isVPNDNSAddress (host : Str) (port : ℤ) : Bool := host = vpnDNSIPv4Addr ∧ port = 53

/-- `net.ResolveUDPAddr` on the target address of a plan, which has no port if the port of the
plan is not positive. -/
def resolveTarget (plan : DialPlan) : Run σ UDPAddr :=
  if plan.targetPort ≤ 0 then fail "missing port in address"
  else if 65535 < plan.targetPort then fail "invalid port"
  else match parseIP plan.targetHost with
    | some ip => return ⟨ip,plan.targetPort⟩
    | none => do
      let ip ← lookupUDP plan.targetHost
      return ⟨ip,plan.targetPort⟩

/-- Where `luminePacketConn.WriteTo` sends a datagram, none if it answers the query itself. -/
def writeTo (addr : UDPAddr) (now : ℤ) (s : Stores × σ) :
    Except String (Option UDPAddr) × Stores × σ :=
  if addr.ip = [] then (.error "invalid udp destination",s)
  else if isVPNDNSAddress (ipString addr.ip) addr.port then (.ok none,s)
  else
    match planRequest rt {source := .mobile, host := ipString addr.ip, port := addr.port} now s with
    | (.error err,s₁) => (.error err,s₁)
    | (.ok plan,stores,w) =>
      if plan.blocked then (.error ("blocked by policy: " ++ text (ipString addr.ip)),stores,w)
      else
        let r := resolveTarget lookupUDP plan w
        (r.1.map some,stores,r.2)

/-- The session and, beside it, the target of its last datagram. -/
structure Session (σ : Type) where
  nat : SymmetricNATPacketConn
  stores : Stores
  world : σ
  sent : Option UDPAddr := none

/-- A datagram from the app, or a packet from somewhere. -/
inductive Label
  | write (now : ℤ)
  | receive (source : UDPAddr)

/-- An error of a write ends the session. -/
def step (addr : UDPAddr) (s : Session σ) : Label → Option (Session σ)
  | .write now =>
    match writeTo rt lookupUDP addr now (s.stores,s.world) with
    | (.error _,_) => none
    | (.ok none,stores,world) => some {s with stores, world}
    | (.ok (some dst),stores,world) => some {s with stores, world, sent := some dst}
  | .receive source => some {s with nat := (s.nat.accept source).2}

/-- The session for the datagrams to an address. -/
def newSession (addr : UDPAddr) (stores : Stores) (world : σ) : Session σ :=
  ⟨⟨addr.port,none⟩,stores,world,none⟩

end Session

section Equal

variable {a b c : Bytes}

/-- The form in which equal addresses are the same. -/
def to16 (ip : Bytes) : Bytes := if ip.length = 4 then v4InV6Prefix++ip else ip

theorem prefix_append_eq_iff (hb : b.length = 16) :
    v4InV6Prefix++a = b ↔ b.take 12 = v4InV6Prefix ∧ a = b.drop 12 := by
  have hlen : v4InV6Prefix.length = 12 := rfl
  constructor
  · rintro rfl
    exact ⟨List.take_left' hlen,(List.drop_left' hlen).symm⟩
  · rintro ⟨htake,rfl⟩
    rw [← htake,List.take_append_drop]

theorem ipEqual_iff : ipEqual a b = true ↔ to16 a = to16 b := by
  have hlen : v4InV6Prefix.length = 12 := rfl
  unfold ipEqual to16
  split
  · rename_i hsame
    rw [hsame]
    split <;> simp
  · rename_i hother
    split
    · rename_i h
      rw [if_pos h.1,if_neg (by omega),decide_eq_true_eq,prefix_append_eq_iff h.2]
    · rename_i h₁
      split
      · rename_i h
        rw [if_neg (by omega),if_pos h.2,decide_eq_true_eq,eq_comm (a := a),
          prefix_append_eq_iff h.1,eq_comm (a := b)]
      · rename_i h₂
        refine iff_of_false Bool.false_ne_true fun heq => ?_
        have hlength := congrArg List.length heq
        rw [apply_ite List.length,apply_ite List.length,List.length_append,List.length_append,
          hlen] at hlength
        split_ifs at hlength <;> omega

/-- Equal addresses are equal to the same addresses. -/
theorem ipEqual_congr (h : ipEqual b c = true) : ipEqual a b = ipEqual a c := by
  rw [Bool.eq_iff_iff,ipEqual_iff,ipEqual_iff,ipEqual_iff.mp h]

end Equal

section Runs

variable {σ : Type} {rt : Runtime σ} {lookupUDP : Str → Run σ Bytes} {addr : UDPAddr}

/-- The sources of the packets that have come in. -/
def sources (ls : List Label) : List UDPAddr :=
  ls.filterMap fun
    | .write _ => none
    | .receive source => some source

/-- The first source of a packet from a port. -/
def firstFrom (port : ℤ) (ls : List Label) : Option UDPAddr :=
  (sources ls).find? fun source => source.port = port

/-- The filter keeps its port and pins the first source of a packet from it. -/
def Pinned (addr : UDPAddr) (ls : List Label) (s : Session σ) : Prop :=
  s.nat = ⟨addr.port,firstFrom addr.port ls⟩

theorem accept_pins (port : ℤ) (ls : List Label) (source : UDPAddr) :
    ((⟨port,firstFrom port ls⟩ : SymmetricNATPacketConn).accept source).2 =
      ⟨port,firstFrom port (ls++[.receive source])⟩ := by
  have hfirst : firstFrom port (ls++[.receive source]) =
      (firstFrom port ls).or (if source.port = port then some source else none) := by
    rw [firstFrom,firstFrom,sources,sources,List.filterMap_append,List.find?_append]
    by_cases hport : source.port = port <;> simp [hport]
  rw [hfirst,SymmetricNATPacketConn.accept]
  by_cases hport : source.port = port
  · cases firstFrom port ls with
    | none => simp [hport]
    | some peer =>
      simp only [hport,ne_eq,not_true_eq_false,if_false,Option.some_or]
      split <;> rfl
  · simp [hport]

theorem step_pinned {ls : List Label} {s s' : Session σ} {l : Label} (hs : Pinned addr ls s)
    (h : step rt lookupUDP addr s l = some s') : Pinned addr (ls++[l]) s' := by
  cases l with
  | write now =>
    have hsame : firstFrom addr.port (ls++[.write now]) = firstFrom addr.port ls := by
      simp [firstFrom,sources]
    rw [Pinned,hsame]
    rw [step] at h
    split at h
    · cases h
    · cases h
      exact hs
    · cases h
      exact hs
  | receive source =>
    cases h
    rw [Pinned] at hs ⊢
    dsimp only
    rw [hs]
    exact accept_pins addr.port ls source

theorem run_pinned {stores : Stores} {w : σ} {ls : List Label} {s : Session σ}
    (h : run (step rt lookupUDP addr) ls (newSession addr stores w) = some s) :
    Pinned addr ls s := by
  have hstart : Pinned addr [] (newSession addr stores w) := rfl
  exact run_invariant hstart (fun _ hs hstep => step_pinned hs hstep) h

/-- The target of a datagram is that of a plan for the address of the session. -/
def Planned (rt : Runtime σ) (lookupUDP : Str → Run σ Bytes) (addr target : UDPAddr) : Prop :=
  ∃ now s stores w w' plan, planRequest rt
      {source := .mobile, host := ipString addr.ip, port := addr.port} now s = (.ok plan,stores,w) ∧
    plan.blocked = false ∧ resolveTarget lookupUDP plan w = (.ok target,w') ∧
    target.port = plan.targetPort

theorem resolveTarget_port {plan : DialPlan} {w w' : σ} {target : UDPAddr}
    (h : resolveTarget lookupUDP plan w = (.ok target,w')) : target.port = plan.targetPort := by
  unfold resolveTarget at h
  split at h
  · cases h
  · split at h
    · cases h
    · cases hip : parseIP plan.targetHost with
      | some ip =>
        rw [hip] at h
        cases h
        rfl
      | none =>
        rw [hip] at h
        obtain ⟨ip,w₁,-,hret⟩ := bind_ok h
        cases hret
        rfl

theorem writeTo_planned {now : ℤ} {s : Stores × σ} {target : UDPAddr} {s' : Stores × σ}
    (h : writeTo rt lookupUDP addr now s = (.ok (some target),s')) :
    Planned rt lookupUDP addr target := by
  unfold writeTo at h
  split at h
  · cases h
  · split at h
    · cases h
    · split at h
      · cases h
      · rename_i plan stores w hplan
        split at h
        · cases h
        · rename_i hblocked
          have hresult := (Prod.mk.inj h).1
          cases hr : resolveTarget lookupUDP plan w with
          | mk r w' =>
            rw [hr] at hresult
            cases r with
            | error err => cases hresult
            | ok dst =>
              cases hresult
              exact ⟨now,s,stores,w,w',plan,hplan,by simpa using hblocked,hr,resolveTarget_port hr⟩

theorem run_planned {stores : Stores} {w : σ} {ls : List Label} {s : Session σ}
    (h : run (step rt lookupUDP addr) ls (newSession addr stores w) = some s) :
    ∀ target ∈ s.sent, Planned rt lookupUDP addr target := by
  refine run_keeps (P := fun s => ∀ target ∈ s.sent, Planned rt lookupUDP addr target) ?_
    (by simp [newSession]) h
  intro s l s' _ hs hstep
  cases l with
  | receive source =>
    cases hstep
    exact hs
  | write now =>
    rw [step] at hstep
    split at hstep
    · cases hstep
    · cases hstep
      exact hs
    · rename_i hwrite
      cases hstep
      rintro target ⟨⟩
      exact writeTo_planned hwrite

/-- The last datagram was sent to the target of a plan. A reply from there is passed on exactly
if the target has the port that the app has sent to, and if the first packet from that port, if
there was one, came from the address of the target. -/
theorem reply_accepted_iff (rt : Runtime σ) (lookupUDP : Str → Run σ Bytes) (addr : UDPAddr)
    (stores : Stores) (w : σ) (ls : List Label) (s : Session σ)
    (h : run (step rt lookupUDP addr) ls (newSession addr stores w) = some s) :
    ∀ target ∈ s.sent, Planned rt lookupUDP addr target ∧
      ∀ reply, ipEqual reply.ip target.ip = true → reply.port = target.port →
        ((s.nat.accept reply).1 = true ↔ target.port = addr.port ∧
          ∀ first ∈ firstFrom addr.port ls, ipEqual first.ip target.ip = true) := by
  intro target hsent
  refine ⟨run_planned h target hsent,fun reply hip hport => ?_⟩
  have hpinned := run_pinned h
  rw [Pinned] at hpinned
  rw [hpinned,SymmetricNATPacketConn.accept,hport]
  by_cases hsame : target.port = addr.port
  · cases hfirst : firstFrom addr.port ls with
    | none => simp [hsame]
    | some peer =>
      have hpeer : peer.port = addr.port := by
        simpa using List.find?_some hfirst
      cases hequal : ipEqual peer.ip target.ip <;>
        simp [hsame,hpeer,ipEqual_congr hip,hequal]
  · simp [hsame]

end Runs

/-- A default policy with a port of its own. -/
def otherPort : Runtime Unit where
  tables := {oneRule.tables with defaultPolicy := {mode := .raw, port := 8443}}
  world := answering [1,2,3,4]
  mapLower := id
  gfwDomainMatcher := none
  gfwBypassMatcher := none
  ipDomainCacheGet := none

theorem reply_accepted_iff_first :
    ∃ s, run (step oneRule (fun _ => fail "") ⟨[192,0,2,1],443⟩) [.write 0]
        (newSession ⟨[192,0,2,1],443⟩ {} ()) = some s ∧
      (s.nat.accept ⟨[192,0,2,1],443⟩).1 = true := by
  refine ⟨_,rfl,?_⟩
  have hiff := reply_accepted_iff oneRule (fun _ => fail "") ⟨[192,0,2,1],443⟩ {} () [.write 0] _
    rfl
  exact ((hiff _ rfl).2 ⟨[192,0,2,1],443⟩ (by decide) rfl).mpr ⟨rfl,by simp [firstFrom,sources]⟩

/-- The datagram goes to port 8443, and the reply from there is dropped. -/
theorem reply_from_other_port_dropped :
    ∃ s target, run (step otherPort (fun _ => fail "") ⟨[192,0,2,1],443⟩) [.write 0]
        (newSession ⟨[192,0,2,1],443⟩ {} ()) = some s ∧ s.sent = some target ∧
      (s.nat.accept target).1 = false :=
  ⟨_,_,rfl,rfl,by decide⟩

end UDPSession
end Enimul
