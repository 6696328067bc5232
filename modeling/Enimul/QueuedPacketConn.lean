import Enimul.PipePacket
import Enimul.UDPSession

/-! The packet queue of a UDP session under the two copiers.
Packets of the socket are pumped into a channel of fixed capacity, and so are the answers to the
DNS queries that the session keeps to itself: the copier of the origin puts them there, and the
copier of the remote side takes them out. A full channel makes both producers wait. -/
namespace Enimul
namespace QueuedPacketConn

open GoSlice UDPSession PipePacket Machine

structure Packet where
  payload : Bytes
  addr : UDPAddr
  deriving DecidableEq, Repr

/-- Who puts a packet into the channel: `pumpBaseReads`, or `handleDNSQuery`. -/
inductive Producer
  | base | hijack
  deriving DecidableEq, Repr

inductive Pump
  | reading
  | holding (p : Packet)
  | ended
  deriving DecidableEq, Repr

/-- What the origin has sent: a query that is answered here, or a packet for the socket. -/
inductive Datagram
  | query (answer : Packet)
  | other
  deriving DecidableEq, Repr

/-- The copiers, the datagram that the one of the origin has read, the channel and the pump.
Beside them, what the producers have come up with and what has been taken out. -/
structure Session where
  relay : State
  datagram : Datagram := .other
  packets : List (Producer × Packet) := []
  pump : Pump := .reading
  produced : Producer → List Packet := fun _ => []
  taken : List (Producer × Packet) := []

/-- A step of a copier, with the datagram if it is a read from the origin; a packet that the
filter of the session throws away; the steps of the pump. -/
inductive Label
  | copier (l : PipePacket.Label) (datagram : Datagram)
  | discard
  | arrive (p : Packet)
  | push
  | stop
  deriving DecidableEq

def capacity : ℕ := 32

/-- A send to the channel, which waits as long as it is full. -/
def Session.send (s : Session) (producer : Producer) (p : Packet) : Option Session :=
  if s.packets.length < capacity then some {s with packets := s.packets++[(producer,p)]} else none

def Session.produce (s : Session) (producer : Producer) (p : Packet) : Session :=
  {s with produced := Function.update s.produced producer (s.produced producer++[p])}

def Session.readFrom (s : Session) : Option Session :=
  match s.packets with
  | [] => none
  | p::packets => some {s with packets, taken := s.taken++[p]}

def Session.enqueuePacket (s : Session) (answer : Packet) : Option Session :=
  (s.produce .hijack answer).send .hijack answer

/-- What a step of a copier does with the connection. -/
def effect (s : Session) (side : Side) (act : Act) (datagram : Datagram) : Option Session :=
  match side,act with
  | .origin,.packet => some {s with datagram}
  | .origin,.relay =>
    match s.datagram with
    | .query answer => s.enqueuePacket answer
    | .other => some s
  | .remote,.packet => s.readFrom
  | _,_ => some s

/-- The pump ends with a packet in its hands only when the connection has been closed. -/
def step (timeout : ℤ) (s : Session) : Label → Option Session
  | .copier l datagram =>
    (PipePacket.step timeout s.relay l).bind fun relay =>
      effect {s with relay} l.side l.act datagram
  | .discard =>
    match s.relay.phase .remote with
    | .reading _ => s.readFrom
    | _ => none
  | .arrive p => if s.pump = .reading then some {s.produce .base p with pump := .holding p} else none
  | .push =>
    match s.pump with
    | .holding p => {s with pump := .reading}.send .base p
    | _ => none
  | .stop =>
    match s.pump with
    | .reading => some {s with pump := .ended}
    | .holding _ => if s.relay.phase .origin = .done then some {s with pump := .ended} else none
    | .ended => none

def start (now : ℤ) : Session := {relay := PipePacket.start now}

section Steps

variable {timeout : ℤ} {s s' : Session} {l : Label}

/-- What a step does: a copier goes on by itself, an answer goes into the channel, a packet is
taken out while the copier of the remote side reads, or the pump takes a step. -/
inductive Moves (timeout : ℤ) (s : Session) : Session → Prop
  | quiet {l : PipePacket.Label} {relay : State} (datagram : Datagram)
      (h : PipePacket.step timeout s.relay l = some relay)
      (horigin : l.side = .origin → l.act = .relay → s.datagram = .other)
      (hremote : l.side = .remote → l.act ≠ .packet ∧ datagram = s.datagram) :
      Moves timeout s {s with relay, datagram}
  | enqueue {l : PipePacket.Label} {relay : State} {answer : Packet}
      (h : PipePacket.step timeout s.relay l = some relay) (hside : l.side = .origin)
      (hroom : s.packets.length < capacity) :
      Moves timeout s {s.produce .hijack answer with
        relay, packets := s.packets++[(.hijack,answer)]}
  | take {relay : State} {p : Producer × Packet} {packets : List (Producer × Packet)}
      (h : relay = s.relay ∨ ∃ l, PipePacket.step timeout s.relay l = some relay ∧ l.side = .remote)
      {d : ℤ} (hreading : s.relay.phase .remote = .reading d) (hp : s.packets = p::packets) :
      Moves timeout s {s with relay, packets, taken := s.taken++[p]}
  | arrive (p : Packet) (h : s.pump = .reading) :
      Moves timeout s {s.produce .base p with pump := .holding p}
  | push {p : Packet} (h : s.pump = .holding p) (hroom : s.packets.length < capacity) :
      Moves timeout s {s with pump := .reading, packets := s.packets++[(.base,p)]}
  | stop (h : s.pump = .reading ∨ s.relay.phase .origin = .done ∧ ∃ p, s.pump = .holding p) :
      Moves timeout s {s with pump := .ended}

theorem reading_of_packet {s s' : State} {l : PipePacket.Label}
    (h : PipePacket.step timeout s l = some s') (hact : l.act = .packet) :
    ∃ d, s.phase l.side = .reading d := by
  have hmove := (moves_of_step h).1
  generalize s.phase l.side = phase at hmove
  generalize s'.phase l.side = phase' at hmove
  cases hmove with
  | packet _ d => exact ⟨d,rfl⟩
  | _ => simp_all

theorem moves_of_copier {l : PipePacket.Label} {datagram : Datagram}
    (h : step timeout s (.copier l datagram) = some s') : Moves timeout s s' := by
  obtain ⟨relay,hstep,heffect⟩ := Option.bind_eq_some_iff.mp h
  unfold effect at heffect
  split at heffect
  · rename_i hside hact
    cases heffect
    exact .quiet datagram hstep (by simp [hact]) (by simp [hside])
  · rename_i hside hact
    split at heffect
    · rename_i answer hquery
      rw [Session.enqueuePacket,Session.send] at heffect
      split at heffect
      · rename_i hroom
        cases heffect
        exact .enqueue hstep hside hroom
      · cases heffect
    · rename_i hother
      cases heffect
      exact .quiet s.datagram hstep (fun _ _ => hother) (by simp [hside])
  · rename_i hside hact
    obtain ⟨d,hreading⟩ := reading_of_packet hstep hact
    rw [hside] at hreading
    rw [Session.readFrom] at heffect
    split at heffect
    · cases heffect
    · rename_i p packets hp
      cases heffect
      exact .take (.inr ⟨l,hstep,hside⟩) hreading hp
  · rename_i hpacket hrelay hread
    cases heffect
    exact .quiet s.datagram hstep (fun hside hact => absurd hact (hrelay hside))
      fun hside => ⟨hread hside,rfl⟩

theorem step_moves (h : step timeout s l = some s') : Moves timeout s s' := by
  cases l with
  | copier l datagram => exact moves_of_copier h
  | discard =>
    rw [step] at h
    split at h
    · rename_i d hreading
      rw [Session.readFrom] at h
      split at h
      · cases h
      · rename_i p packets hp
        cases h
        exact .take (.inl rfl) hreading hp
    · cases h
  | arrive p =>
    rw [step] at h
    split at h
    · rename_i hpump
      cases h
      exact .arrive p hpump
    · cases h
  | push =>
    rw [step] at h
    split at h
    · rename_i p hpump
      rw [Session.send] at h
      split at h
      · rename_i hroom
        cases h
        exact .push hpump hroom
      · cases h
    · cases h
  | stop =>
    rw [step] at h
    split at h
    · rename_i hpump
      cases h
      exact .stop (.inl hpump)
    · rename_i p hpump
      split at h
      · rename_i hdone
        cases h
        exact .stop (.inr ⟨hdone,p,hpump⟩)
      · cases h
    · cases h

end Steps

section Order

variable {timeout t₀ : ℤ} {s s' : Session} {ls : List Label}

/-- The packets of a producer. -/
def of (producer : Producer) (ps : List (Producer × Packet)) : List Packet :=
  (ps.filter fun p => p.1 = producer).map Prod.snd

theorem of_append (producer : Producer) (ps qs : List (Producer × Packet)) :
    of producer (ps++qs) = of producer ps++of producer qs := by
  simp [of]

theorem length_of (ps : List (Producer × Packet)) :
    (of .hijack ps).length+(of .base ps).length = ps.length := by
  induction ps with
  | nil => rfl
  | cons p ps ih =>
    obtain ⟨producer,packet⟩ := p
    cases producer <;> simp [of] at ih ⊢ <;> omega

/-- What the pump has read and not yet sent. -/
def Pump.held : Pump → List Packet
  | .holding p => [p]
  | _ => []

/-- All packets that have been produced are taken, in the channel, or with the pump, which
drops one at most, when the connection is closed. -/
structure Inv (s : Session) : Prop where
  answers : s.produced .hijack = of .hijack (s.taken++s.packets)
  base : ∃ rest, s.produced .base = of .base (s.taken++s.packets)++rest ∧ rest.length ≤ 1 ∧
    (s.pump ≠ .ended ∨ s.relay.phase .origin ≠ .done → rest = s.pump.held)
  room : s.packets.length ≤ capacity

theorem inv_of_moves (h : Moves timeout s s') (hi : Inv s) : Inv s' := by
  obtain ⟨hanswers,⟨rest,hbase,hone,hheld⟩,hroom⟩ := hi
  cases h with
  | quiet datagram h horigin hremote =>
    refine ⟨hanswers,⟨rest,hbase,hone,fun hor => hheld ?_⟩,hroom⟩
    exact hor.imp_right fun hrun hdone => hrun (done_of_step h hdone)
  | enqueue h hside hlt =>
    refine ⟨?_,⟨rest,?_,hone,fun hor => hheld ?_⟩,?_⟩
    · simp [Session.produce,hanswers,of]
    · simp [Session.produce,hbase,of]
    · exact hor.imp_right fun hrun hdone => hrun (done_of_step h hdone)
    · simp only [List.length_append,List.length_singleton]
      omega
  | take h hreading hp =>
    rw [hp] at hanswers hbase hroom
    refine ⟨by simpa using hanswers,⟨rest,by simpa using hbase,hone,fun hor => hheld ?_⟩,?_⟩
    · obtain rfl | ⟨l,h,-⟩ := h
      · exact hor
      · exact hor.imp_right fun hrun hdone => hrun (done_of_step h hdone)
    · exact (Nat.le_succ _).trans hroom
  | arrive p h =>
    obtain rfl : rest = [] := by
      rw [hheld (.inl (by simp [h])),h]
      rfl
    exact ⟨hanswers,⟨[p],by simp [Session.produce,hbase],le_rfl,fun _ => rfl⟩,hroom⟩
  | push h hlt =>
    obtain rfl := hheld (.inl (by simp [h]))
    refine ⟨?_,⟨[],?_,by simp,fun _ => rfl⟩,?_⟩
    · simp [hanswers,of]
    · simp [hbase,h,Pump.held,of]
    · simp only [List.length_append,List.length_singleton]
      omega
  | stop h =>
    refine ⟨hanswers,⟨rest,hbase,hone,fun hor => ?_⟩,hroom⟩
    obtain hpump | ⟨hdone,p,hpump⟩ := h
    · rw [hheld (.inl (by simp [hpump])),hpump]
      rfl
    · rcases hor with hend | hrun
      · exact absurd rfl hend
      · exact absurd hdone hrun

theorem inv_of_run (h : run (step timeout) ls (start t₀) = some s) : Inv s :=
  run_keeps (fun _ hi hstep => inv_of_moves (step_moves hstep) hi)
    ⟨rfl,⟨[],rfl,by simp,fun _ => rfl⟩,Nat.zero_le _⟩ h

/-- In every run the packets of each producer are taken out in the order in which they came, none
twice and none left out; at most the channel and the pump hold some back. -/
theorem taken_in_order (h : run (step timeout) ls (start t₀) = some s) :
    (∀ producer, of producer s.taken <+: s.produced producer) ∧
      (s.produced .hijack).length+(s.produced .base).length ≤ s.taken.length+(capacity+1) ∧
      (s.relay.phase .origin ≠ .done → s.packets = [] → s.pump.held = [] →
        ∀ producer, of producer s.taken = s.produced producer) := by
  obtain ⟨hanswers,⟨rest,hbase,hone,hheld⟩,hroom⟩ := inv_of_run h
  rw [of_append] at hanswers hbase
  refine ⟨fun producer => ?_,?_,fun hopen hempty hnone producer => ?_⟩
  · cases producer with
    | base =>
      rw [hbase,List.append_assoc]
      exact List.prefix_append _ _
    | hijack =>
      rw [hanswers]
      exact List.prefix_append _ _
  · have htaken := length_of s.taken
    have hpackets := length_of s.packets
    rw [hanswers,hbase]
    simp only [List.length_append]
    omega
  · rw [hempty] at hanswers hbase
    cases producer with
    | base => rw [hbase,hheld (.inr hopen),hnone]; simp [of]
    | hijack => rw [hanswers]; simp [of]

/-- A packet of the socket and the answer to a query are both taken. -/
def bothTaken : List Label :=
  [.copier ⟨.remote,.wait,0⟩ .other,.copier ⟨.origin,.wait,0⟩ .other,
    .arrive ⟨[1],⟨[1,2,3,4],7⟩⟩,.copier ⟨.origin,.packet,5⟩ (.query ⟨[2],⟨[172,19,0,2],53⟩⟩),
    .copier ⟨.origin,.store,5⟩ .other,.copier ⟨.origin,.relay,9⟩ .other,.push,.discard,
    .copier ⟨.remote,.packet,9⟩ .other]

theorem taken_in_order_both :
    (run (step 100) bothTaken (start 0)).isSome = true ∧
      ∀ s, run (step 100) bothTaken (start 0) = some s →
        ∀ producer, of producer s.taken <+: s.produced producer :=
  ⟨rfl,fun _ hs => (taken_in_order hs).1⟩

end Order

section Blocking

variable {timeout : ℤ} {s s' : Session} {ls : List Label}

/-- `EnqueuePacket` waits for room: the copier of the origin has an answer, and the channel is
full. -/
def Waits (s : Session) : Prop :=
  s.relay.phase .origin = .stored ∧ (∃ answer, s.datagram = .query answer) ∧
    s.packets.length = capacity

/-- The copier of the remote side has stopped, or is about to. -/
def Leaving (timeout : ℤ) (s : Session) : Prop :=
  s.relay.phase .remote = .done ∨ ∃ now, s.relay.phase .remote = .expired now ∧
    givesUp timeout .remote now s.relay = true

theorem stored_leaves {s s' : State} {l : PipePacket.Label}
    (h : PipePacket.step timeout s l = some s') (hside : l.side = .origin)
    (hstored : s.phase .origin = .stored) : l.act = .relay := by
  have hmove := moves_of_side h hside
  rw [hstored] at hmove
  generalize s'.phase .origin = phase' at hmove
  cases hmove with
  | relay hact => exact hact
  | closed _ hremote => simp [hside] at hremote

/-- Neither a step of the origin nor one of the pump gets past the full channel, and the copier
of the remote side only stops. -/
theorem waits_of_moves (h : Moves timeout s s') (hw : Waits s) (hl : Leaving timeout s) :
    Waits s' ∧ Leaving timeout s' := by
  obtain ⟨hstored,⟨answer,hanswer⟩,hfull⟩ := hw
  have hnotReading : ∀ d, s.relay.phase .remote ≠ .reading d := by
    rintro d hd
    rcases hl with hdone | ⟨now,hexpired,-⟩
    · simp [hdone] at hd
    · simp [hexpired] at hd
  cases h with
  | @quiet l relay datagram h horigin hremote =>
    cases hside : l.side with
    | origin =>
      have hact := stored_leaves h hside hstored
      simp [hanswer] at horigin
      exact absurd hact (horigin hside)
    | remote =>
      obtain ⟨hpacket,rfl⟩ := hremote hside
      refine ⟨⟨?_,⟨answer,hanswer⟩,hfull⟩,.inl ?_⟩
      · exact (phase_of_other h (by simp [hside])).trans hstored
      · rcases hl with hdone | ⟨now,hexpired,hgo⟩
        · exact done_of_step h hdone
        · exact done_of_check h hside hexpired (by simpa [givesUp,Side.peer] using hgo)
  | enqueue h hside hlt => omega
  | take h hreading hp => exact absurd hreading (hnotReading _)
  | arrive p h => exact ⟨⟨hstored,⟨answer,hanswer⟩,hfull⟩,hl⟩
  | push h hlt => omega
  | stop h => exact ⟨⟨hstored,⟨answer,hanswer⟩,hfull⟩,hl⟩

/-- A step of the copier of the remote side that is not a read, at the present time. -/
theorem remote_step (timeout : ℤ) (s : Session) {act : Act} (last : Side → ℤ) (phase : Phase)
    (hact : act ≠ .packet)
    (hnext : next timeout s.relay .remote s.relay.clock act (s.relay.phase .remote) =
      some ({s.relay with last}.goto .remote phase)) :
    ∃ s', step timeout s (.copier ⟨.remote,act,s.relay.clock⟩ .other) = some s' ∧
      s'.relay.phase .remote = phase ∧ s'.packets = s.packets := by
  refine ⟨{s with relay := {s.relay with last}.goto .remote phase},?_,goto_self _ _ _,rfl⟩
  simp only [step,PipePacket.step,lt_irrefl,if_false,hnext,Option.map_some,Option.bind_some]
  cases act <;> first | rfl | exact absurd rfl hact

/-- The copier comes to a read that can take a packet. -/
def Reads (timeout : ℤ) (s : Session) : Prop :=
  ∃ ls s' d, run (step timeout) ls s = some s' ∧ s'.relay.phase .remote = .reading d ∧
    s'.packets = s.packets

theorem Reads.cons {l : Label} (hstep : step timeout s l = some s') (hpackets : s'.packets = s.packets)
    (h : Reads timeout s') : Reads timeout s := by
  obtain ⟨ls,s₁,d,hrun,hreading,hp⟩ := h
  exact ⟨l::ls,s₁,d,by rw [run,hstep]; exact hrun,hreading,hp.trans hpackets⟩

theorem reads_of_top (h : s.relay.phase .remote = .top) : Reads timeout s := by
  obtain ⟨s',hstep,hphase,hp⟩ := remote_step timeout s s.relay.last _ (show Act.wait ≠ .packet by decide)
    (by rw [h]; rfl)
  exact .cons hstep hp ⟨[],s',_,rfl,hphase,rfl⟩

theorem reads_of_stored (h : s.relay.phase .remote = .stored) : Reads timeout s := by
  obtain ⟨s',hstep,hphase,hp⟩ := remote_step timeout s s.relay.last _ (show Act.relay ≠ .packet by decide)
    (by rw [h]; rfl)
  exact .cons hstep hp (reads_of_top hphase)

theorem reads_of_stay (hstay : ¬ Leaving timeout s) : Reads timeout s := by
  cases hphase : s.relay.phase .remote with
  | top => exact reads_of_top hphase
  | reading d => exact ⟨[],s,d,rfl,hphase,rfl⟩
  | expired now =>
    have hgo : givesUp timeout .remote now s.relay = false := by
      by_contra hgo
      exact hstay (.inr ⟨now,hphase,by simpa using hgo⟩)
    obtain ⟨s',hstep,hphase,hp⟩ := remote_step timeout s s.relay.last .top
      (show Act.check ≠ .packet by decide) (by rw [hphase]; simp [next,hgo])
    exact .cons hstep hp (reads_of_top hphase)
  | received =>
    obtain ⟨s',hstep,hphase,hp⟩ := remote_step timeout s _ _ (show Act.store ≠ .packet by decide)
      (by rw [hphase]; rfl)
    exact .cons hstep hp (reads_of_stored hphase)
  | stored => exact reads_of_stored hphase
  | done => exact absurd (.inl hphase) hstay

/-- As long as the copier of the remote side stays, it can take a packet out. -/
theorem exists_take (hpos : s.packets ≠ []) (hstay : ¬ Leaving timeout s) :
    ∃ ls s', run (step timeout) ls s = some s' ∧ s'.packets.length+1 = s.packets.length := by
  obtain ⟨ls,s₁,d,hrun,hreading,hp⟩ := reads_of_stay hstay
  cases hs : s.packets with
  | nil => exact absurd hs hpos
  | cons p packets =>
    rw [hs] at hp
    refine ⟨ls++[.copier ⟨.remote,.packet,s₁.relay.clock⟩ .other],
      {s₁ with relay := s₁.relay.goto .remote .received, packets, taken := s₁.taken++[p]},?_,rfl⟩
    rw [run_concat,hrun]
    simp [step,PipePacket.step,hreading,next,effect,Session.readFrom,hp,State.goto]

/-- The origin sends a query, which its copier holds. -/
theorem exists_asked (timeout : ℤ) (h : s.relay.phase .origin = .top) (answer : Packet) :
    ∃ ls s', run (step timeout) ls s = some s' ∧ s'.relay.phase .origin = .stored ∧
      s'.datagram = .query answer ∧ s'.packets = s.packets ∧
      s'.relay.phase .remote = s.relay.phase .remote := by
  refine ⟨[.copier ⟨.origin,.wait,s.relay.clock⟩ .other,
    .copier ⟨.origin,.packet,s.relay.clock⟩ (.query answer),
    .copier ⟨.origin,.store,s.relay.clock⟩ .other],
    {s with
      relay := (s.relay.note .origin s.relay.clock).goto .origin .stored
      datagram := .query answer},?_,goto_self _ _ _,rfl,rfl,goto_peer _ .origin _⟩
  simp [run,step,PipePacket.step,next,h,State.goto,State.note,effect,Function.update_idem]

/-- It is answered as long as there is room. -/
theorem exists_answered (timeout : ℤ) (h : s.relay.phase .origin = .top) (answer : Packet)
    (hroom : s.packets.length < capacity) :
    ∃ ls s', run (step timeout) ls s = some s' ∧ s'.relay.phase .origin = .top ∧
      s'.packets.length = s.packets.length+1 ∧
      s'.relay.phase .remote = s.relay.phase .remote := by
  obtain ⟨ls,s₁,hrun,hstored,hquery,hpackets,hremote⟩ := exists_asked timeout h answer
  refine ⟨ls++[.copier ⟨.origin,.relay,s₁.relay.clock⟩ .other],
    {s₁.produce .hijack answer with
      relay := s₁.relay.goto .origin .top
      packets := s₁.packets++[(.hijack,answer)]},?_,goto_self _ _ _,by simp [hpackets],
    (goto_peer _ .origin _).trans hremote⟩
  rw [run_concat,hrun]
  simp [step,PipePacket.step,hstored,next,effect,hquery,Session.enqueuePacket,Session.send,
    Session.produce,hpackets,hroom,State.goto]

/-- With the copier of the remote side gone, queries fill the channel. -/
theorem exists_waits (timeout : ℤ) (answer : Packet) {n : ℕ} (hn : s.packets.length+n = capacity)
    (h : s.relay.phase .origin = .top) (hdone : s.relay.phase .remote = .done) :
    ∃ ls s', run (step timeout) ls s = some s' ∧ Waits s' ∧ Leaving timeout s' := by
  induction n generalizing s with
  | zero =>
    obtain ⟨ls,s₁,hrun,hstored,hquery,hpackets,hremote⟩ := exists_asked timeout h answer
    exact ⟨ls,s₁,hrun,⟨hstored,⟨answer,hquery⟩,by rw [hpackets]; exact hn⟩,
      .inl (hremote.trans hdone)⟩
  | succ n ih =>
    obtain ⟨ls,s₁,hrun,htop,hlen,hremote⟩ := exists_answered timeout h answer (by omega)
    obtain ⟨ls',s₂,hrun',hwaits⟩ := ih (by omega) htop (hremote.trans hdone)
    exact ⟨ls++ls',s₂,by rw [run_append,hrun]; exact hrun',hwaits⟩

/-- The copier of the remote side finds the origin silent and stops. -/
theorem exists_gone (timeout t₀ : ℤ) :
    ∃ ls s, run (step timeout) ls (start t₀) = some s ∧ s.relay.phase .origin = .top ∧
      s.relay.phase .remote = .done ∧ s.packets = [] := by
  obtain ⟨t,ht,hlate⟩ : ∃ t, t₀ ≤ t ∧ t₀+timeout < t :=
    ⟨max t₀ (t₀+timeout+1),le_max_left _ _,lt_of_lt_of_le (lt_add_one _) (le_max_right _ _)⟩
  refine ⟨[.copier ⟨.remote,.wait,t₀⟩ .other,.copier ⟨.remote,.timeout,t⟩ .other,
    .copier ⟨.remote,.check,t⟩ .other],
    {relay := {(PipePacket.start t₀).goto .remote .done with clock := t}},?_,rfl,rfl,rfl⟩
  simp [run,step,start,PipePacket.step,PipePacket.start,next,State.goto,effect,deadline,givesUp,
    Side.peer,hlate,hlate.le,not_lt.mpr ht,Function.update_idem]

/-- An answer that finds the channel full waits for ever exactly if the copier of the remote side
has stopped or is about to. The session is then never closed, and from every start it can come
to this. -/
theorem enqueuePacket_blocks (timeout : ℤ) :
    (∀ s, Waits s → ((∀ ls s', run (step timeout) ls s = some s' → Waits s') ↔
      Leaving timeout s)) ∧
    ∀ t₀, ∃ ls s, run (step timeout) ls (start t₀) = some s ∧ Waits s ∧ Leaving timeout s := by
  refine ⟨fun s hw => ⟨fun hforever => ?_,fun hl ls s' hrun => ?_⟩,fun t₀ => ?_⟩
  · by_contra hstay
    have hpos : s.packets ≠ [] := by
      rintro hnil
      have hfull := hw.2.2
      simp [hnil,capacity] at hfull
    obtain ⟨ls,s',hrun,hlen⟩ := exists_take hpos hstay
    have hfull := hw.2.2
    have hfull' := (hforever ls s' hrun).2.2
    omega
  · exact (run_keeps (P := fun s => Waits s ∧ Leaving timeout s)
      (fun _ h hstep => waits_of_moves (step_moves hstep) h.1 h.2) ⟨hw,hl⟩ hrun).1
  · obtain ⟨ls,s,hrun,htop,hdone,hnil⟩ := exists_gone timeout t₀
    obtain ⟨ls',s',hrun',hwaits⟩ := exists_waits timeout ⟨[],⟨[],0⟩⟩
      (show s.packets.length+capacity = capacity by simp [hnil]) htop hdone
    exact ⟨ls++ls',s',by rw [run_append,hrun]; exact hrun',hwaits⟩

end Blocking

end QueuedPacketConn
end Enimul
