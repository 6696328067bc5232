import Enimul.Machine
import Mathlib.Data.Int.Order.Basic
import Mathlib.Logic.Function.Basic

/-! The relay of a UDP session.
Two copiers run side by side, one for the packets from the origin and one for the packets from
the remote side. Each waits with a deadline, notes when a packet came, and gives up when it has
timed out and the other side has been silent for too long. The copier of the origin closes both
ends when it stops; the other one closes nothing. -/
namespace Enimul
namespace PipePacket

open Machine

/-- The side that a copier reads from. -/
inductive Side
  | origin | remote
  deriving DecidableEq, Repr

def Side.peer : Side → Side
  | .origin => .remote
  | .remote => .origin

/-- Where a copier is in its loop. -/
inductive Phase
  | top
  | reading (deadline : ℤ)
  | expired (now : ℤ)
  | received
  | stored
  | done
  deriving DecidableEq, Repr

/-- The last activity of the two sides, `udpRelayState`, and the two copiers. -/
structure State where
  clock : ℤ
  last : Side → ℤ
  phase : Side → Phase

inductive Act
  | wait | packet | timeout | check | store | relay | closed
  deriving DecidableEq, Repr

/-- A step of a copier and the time at which it is taken. -/
structure Label where
  side : Side
  act : Act
  time : ℤ
  deriving DecidableEq, Repr

def udpOriginIdleCap : ℤ := 3

section Steps

variable (timeout : ℤ)

/-- The origin never waits past the hard cap. -/
def deadline (side : Side) (t : ℤ) (s : State) : ℤ :=
  match side with
  | .origin => min (t+timeout) (s.last .origin+timeout*udpOriginIdleCap)
  | .remote => t+timeout

/-- Whether a copier gives up when its read has timed out. -/
def givesUp (side : Side) (now : ℤ) (s : State) : Bool :=
  (side = .origin ∧ s.last .origin+timeout*udpOriginIdleCap ≤ now) ∨
    s.last side.peer+timeout < now

def State.goto (s : State) (side : Side) (phase : Phase) : State :=
  {s with phase := Function.update s.phase side phase}

def State.note (s : State) (side : Side) (t : ℤ) : State :=
  {s with last := Function.update s.last side t}

/-- The step of a copier, none if it is not there in its loop. A read or a write of the remote
copier fails when the ends have been closed. -/
def next (s : State) (side : Side) (t : ℤ) : Act → Phase → Option State
  | .wait, .top => some (s.goto side (.reading (deadline timeout side t s)))
  | .packet, .reading _ => some (s.goto side .received)
  | .timeout, .reading d => if d ≤ t then some (s.goto side (.expired t)) else none
  | .check, .expired now =>
    some (s.goto side (if givesUp timeout side now s then .done else .top))
  | .store, .received => some ((s.note side t).goto side .stored)
  | .relay, .stored => some (s.goto side .top)
  | .closed, phase =>
    if side = .remote ∧ s.phase .origin = .done ∧ phase ≠ .done then some (s.goto side .done)
    else none
  | _, _ => none

def step (s : State) (l : Label) : Option State :=
  if l.time < s.clock then none
  else (next timeout s l.side l.time l.act (s.phase l.side)).map fun s' => {s' with clock := l.time}

end Steps

def start (now : ℤ) : State := ⟨now,fun _ => now,fun _ => .top⟩

/-- The copier has a packet that it has not passed on. -/
def Holding (phase : Phase) : Prop := phase = .received ∨ phase = .stored

section Facts

variable {timeout : ℤ} {s s' : State} {l : Label}

/-- How a step changes the phase of its copier. -/
inductive Moves (timeout : ℤ) (s : State) (l : Label) : Phase → Phase → Prop
  | wait (h : l.act = .wait) : Moves timeout s l .top (.reading (deadline timeout l.side l.time s))
  | packet (h : l.act = .packet) (d : ℤ) : Moves timeout s l (.reading d) .received
  | timeout (h : l.act = .timeout) (d : ℤ) : Moves timeout s l (.reading d) (.expired l.time)
  | check (h : l.act = .check) (now : ℤ) (hgo : givesUp timeout l.side now s = false) :
      Moves timeout s l (.expired now) .top
  | giveUp (h : l.act = .check) (now : ℤ) (hgo : givesUp timeout l.side now s = true) :
      Moves timeout s l (.expired now) .done
  | store (h : l.act = .store) : Moves timeout s l .received .stored
  | relay (h : l.act = .relay) : Moves timeout s l .stored .top
  | closed (h : l.act = .closed) (hside : l.side = .remote) (hdone : s.phase .origin = .done)
      (phase : Phase) (hphase : phase ≠ .done) : Moves timeout s l phase .done

theorem peer_ne (side : Side) : side.peer ≠ side := by cases side <;> decide

theorem goto_self (s : State) (side : Side) (phase : Phase) :
    (s.goto side phase).phase side = phase :=
  Function.update_self ..

theorem goto_peer (s : State) (side : Side) (phase : Phase) :
    (s.goto side phase).phase side.peer = s.phase side.peer :=
  Function.update_of_ne (peer_ne side) ..

theorem next_moves {phase : Phase} (h : next timeout s l.side l.time l.act phase = some s') :
    Moves timeout s l phase (s'.phase l.side) ∧ s'.phase l.side.peer = s.phase l.side.peer := by
  generalize hact : l.act = act at h
  unfold next at h
  split at h
  · cases h
    rw [goto_self,goto_peer]
    exact ⟨.wait hact,rfl⟩
  · cases h
    rw [goto_self,goto_peer]
    exact ⟨.packet hact _,rfl⟩
  · split at h
    · cases h
      rw [goto_self,goto_peer]
      exact ⟨.timeout hact _,rfl⟩
    · cases h
  · cases h
    rw [goto_self,goto_peer]
    split
    · rename_i hgo
      exact ⟨.giveUp hact _ hgo,rfl⟩
    · rename_i hgo
      exact ⟨.check hact _ (by simpa using hgo),rfl⟩
  · cases h
    rw [goto_self,goto_peer]
    exact ⟨.store hact,rfl⟩
  · cases h
    rw [goto_self,goto_peer]
    exact ⟨.relay hact,rfl⟩
  · split at h
    · rename_i hclosed
      cases h
      rw [goto_self,goto_peer]
      exact ⟨.closed hact hclosed.1 hclosed.2.1 _ hclosed.2.2,rfl⟩
    · cases h
  · cases h

theorem moves_of_step (h : step timeout s l = some s') :
    Moves timeout s l (s.phase l.side) (s'.phase l.side) ∧
      s'.phase l.side.peer = s.phase l.side.peer := by
  unfold step at h
  split at h
  · cases h
  · obtain ⟨s₁,hnext,rfl⟩ := Option.map_eq_some_iff.mp h
    have hmoves := next_moves hnext
    exact hmoves

/-- A step of one copier leaves the phase of the other. -/
theorem phase_of_other (h : step timeout s l = some s') {side : Side} (hside : l.side ≠ side) :
    s'.phase side = s.phase side := by
  obtain rfl : side = l.side.peer := by
    cases hl : l.side <;> cases side <;> simp_all [Side.peer]
  exact (moves_of_step h).2

theorem moves_of_side (h : step timeout s l = some s') {side : Side} (hside : l.side = side) :
    Moves timeout s l (s.phase side) (s'.phase side) := hside ▸ (moves_of_step h).1

/-- A copier changes its phase only by a step of its own. -/
theorem moves_of_ne (h : step timeout s l = some s') {side : Side}
    (hne : s'.phase side ≠ s.phase side) :
    l.side = side ∧ Moves timeout s l (s.phase side) (s'.phase side) := by
  by_cases hside : l.side = side
  · exact ⟨hside,moves_of_side h hside⟩
  · exact absurd (phase_of_other h hside) hne

/-- A copier that has stopped does not start again. -/
theorem done_of_step (h : step timeout s l = some s') {side : Side} (hdone : s.phase side = .done) :
    s'.phase side = .done := by
  by_cases hside : l.side = side
  · have hmove := moves_of_side h hside
    rw [hdone] at hmove
    generalize s'.phase side = phase' at hmove
    cases hmove with
    | closed _ _ _ _ hphase => exact absurd rfl hphase
  · rw [phase_of_other h hside,hdone]

/-- The copier of the remote side stops when it finds the origin silent, or after the other. -/
theorem stops_of_step (h : step timeout s l = some s') (hbefore : s.phase .remote ≠ .done)
    (hafter : s'.phase .remote = .done) :
    (l.side = .remote ∧ l.act = .check ∧ ∃ now, s.phase .remote = .expired now ∧
      s.last .origin+timeout < now) ∨ s.phase .origin = .done := by
  obtain ⟨hside,hmove⟩ := moves_of_ne h (hafter ▸ hbefore.symm)
  rw [hafter] at hmove
  generalize hphase : s.phase .remote = phase at hmove
  cases hmove with
  | giveUp hact now hgo =>
    rw [hside] at hgo
    exact .inl ⟨hside,hact,now,rfl,by simpa [givesUp,Side.peer] using hgo⟩
  | closed hact hremote hdone _ hne => exact .inr hdone

/-- A timeout that finds the origin silent for too long stops the remote copier. -/
theorem done_of_check (h : step timeout s l = some s') (hside : l.side = .remote) {now : ℤ}
    (hexpired : s.phase .remote = .expired now) (hlong : s.last .origin+timeout < now) :
    s'.phase .remote = .done := by
  have hmove := moves_of_side h hside
  have hgo : givesUp timeout l.side now s = true := by simp [givesUp,hside,Side.peer,hlong]
  rw [hexpired] at hmove
  generalize s'.phase .remote = phase' at hmove
  cases hmove with
  | check _ _ hno =>
    rw [hgo] at hno
    cases hno
  | giveUp => rfl
  | closed => rfl

/-- A packet of the origin comes in by a read of its copier. -/
theorem packet_of_step (h : step timeout s l = some s') (hbefore : ¬ Holding (s.phase .origin))
    (hafter : Holding (s'.phase .origin)) : l.side = .origin ∧ l.act = .packet := by
  obtain ⟨hside,hmove⟩ := moves_of_ne h fun heq => hbefore (heq ▸ hafter)
  generalize s.phase .origin = phase at hmove hbefore
  generalize s'.phase .origin = phase' at hmove hafter
  cases hmove with
  | packet hact d => exact ⟨hside,hact⟩
  | store hact => exact absurd (.inl rfl) hbefore
  | _ => simp [Holding] at hafter

/-- A packet of the origin goes out by a relay. -/
theorem relay_of_step (h : step timeout s l = some s') (hbefore : Holding (s.phase .origin))
    (hafter : ¬ Holding (s'.phase .origin)) : l.side = .origin ∧ l.act = .relay := by
  obtain ⟨hside,hmove⟩ := moves_of_ne h fun heq => hafter (heq ▸ hbefore)
  generalize s.phase .origin = phase at hmove hbefore
  generalize s'.phase .origin = phase' at hmove hafter
  cases hmove with
  | relay hact => exact ⟨hside,hact⟩
  | store hact => exact absurd (.inr rfl) hafter
  | closed hact hremote => rw [hside] at hremote; cases hremote
  | _ => simp [Holding] at hbefore

theorem holding_of_packet (h : step timeout s l = some s') (hside : l.side = .origin)
    (hact : l.act = .packet) : Holding (s'.phase .origin) := by
  have hmove := moves_of_side h hside
  generalize s.phase .origin = phase at hmove
  generalize s'.phase .origin = phase' at hmove
  cases hmove with
  | packet _ d => exact .inl rfl
  | _ => simp_all

theorem holding_of_relay (h : step timeout s l = some s') (hside : l.side = .origin)
    (hact : l.act = .relay) : Holding (s.phase .origin) := by
  have hmove := moves_of_side h hside
  generalize s.phase .origin = phase at hmove
  generalize s'.phase .origin = phase' at hmove
  cases hmove with
  | relay _ => exact .inr rfl
  | _ => simp_all

end Facts

section Runs

variable (timeout t₀ : ℤ)

/-- The remote copier is running whenever a packet of the origin is relayed. -/
def Served (ls : List Label) : Prop :=
  ∀ pre l post s, ls = pre++l::post → run (step timeout) pre (start t₀) = some s →
    l.side = .origin → l.act = .relay → s.phase .remote ≠ .done

/-- When a timeout of the remote side finds the origin silent for longer than the timeout, no
packet of the origin is on its way and none follows. -/
def SilentForGood (ls : List Label) : Prop :=
  ∀ pre l post s now, ls = pre++l::post → run (step timeout) pre (start t₀) = some s →
    l.side = .remote → l.act = .check → s.phase .remote = .expired now →
    s.last .origin+timeout < now →
    ¬ Holding (s.phase .origin) ∧ ∀ l' ∈ post, ¬ (l'.side = .origin ∧ l'.act = .packet)

variable {timeout t₀} {ls : List Label} {s : State}

theorem served_of_silentForGood (h : run (step timeout) ls (start t₀) = some s)
    (hsilent : SilentForGood timeout t₀ ls) : Served timeout t₀ ls := by
  rintro pre l post s₁ rfl hpre hside hact hdone
  obtain ⟨s₁',s₂,hpre',hrelay,-⟩ := run_at h
  obtain rfl := Option.some.inj (hpre.symm.trans hpre')
  have hholding := holding_of_relay hrelay hside hact
  have hrunning : s₁.phase .origin ≠ .done := by
    rintro heq
    rw [heq] at hholding
    simp [Holding] at hholding
  -- The step with which the remote copier stopped.
  obtain ⟨before,c,after,s₃,s₄,rfl,hbefore,hcheck,hafter,hnot,hstopped⟩ :=
    run_leaves (P := fun s => s.phase .remote ≠ .done) (by simp [start]) hpre (not_not.mpr hdone)
  rcases stops_of_step hcheck hnot (not_not.mp hstopped) with
    ⟨hcside,hcact,now,hexpired,hlong⟩ | horigin
  · obtain ⟨hfree,hnone⟩ := hsilent before c (after++l::post) s₃ now (by simp) hbefore hcside hcact
      hexpired hlong
    have hfree' : ¬ Holding (s₄.phase .origin) := by
      rwa [phase_of_other hcheck (by simp [hcside])]
    refine run_keeps (P := fun s => ¬ Holding (s.phase .origin)) ?_ hfree' hafter hholding
    intro s l' s' hl' hs hstep hs'
    exact hnone l' (List.mem_append_left _ hl') (packet_of_step hstep hs hs')
  · have hends := run_keeps (P := fun s => s.phase .origin = .done)
      (fun _ hs hstep => done_of_step hstep hs) (done_of_step hcheck horigin) hafter
    exact hrunning hends

/-- A packet that is on its way when the remote copier has stopped is relayed without it. -/
theorem not_served {pre : List Label} {s₁ s₂ : State}
    (hpre : run (step timeout) pre (start t₀) = some s₁) {post : List Label}
    (hpost : run (step timeout) post s₁ = some s₂)
    (hdone : s₁.phase .remote = .done) (hholding : Holding (s₁.phase .origin))
    (hend : ¬ Holding (s₂.phase .origin)) : ¬ Served timeout t₀ (pre++post) := by
  intro hserved
  obtain ⟨before,l,after,s₃,s₄,rfl,hbefore,hrelay,-,hhold,hfree⟩ :=
    run_leaves (P := fun s => Holding (s.phase .origin)) hholding hpost hend
  obtain ⟨hside,hact⟩ := relay_of_step hrelay hhold hfree
  have hrun : run (step timeout) (pre++before) (start t₀) = some s₃ := by
    rw [run_append,hpre]
    exact hbefore
  have hdone' := run_keeps (P := fun s => s.phase .remote = .done)
    (fun _ hs hstep => done_of_step hstep hs) hdone hbefore
  exact hserved (pre++before) l after s₃ (by simp) hrun hside hact hdone'

theorem silentForGood_of_served (h : run (step timeout) ls (start t₀) = some s)
    (hend : ¬ Holding (s.phase .origin)) (hserved : Served timeout t₀ ls) :
    SilentForGood timeout t₀ ls := by
  rintro pre l post s₁ now rfl hpre hside hact hexpired hlong
  obtain ⟨s₁',s₂,hpre',hcheck,hpost⟩ := run_at h
  obtain rfl := Option.some.inj (hpre.symm.trans hpre')
  have hdone := done_of_check hcheck hside hexpired hlong
  have hrun : run (step timeout) (pre++[l]) (start t₀) = some s₂ := by
    rw [run_concat,hpre]
    exact hcheck
  constructor
  · intro hholding
    have hholding' : Holding (s₂.phase .origin) := by
      rwa [phase_of_other hcheck (by simp [hside])]
    exact not_served hrun hpost hdone hholding' hend (by simpa using hserved)
  · rintro l' hl' ⟨hside',hact'⟩
    obtain ⟨before,after,rfl⟩ := List.append_of_mem hl'
    obtain ⟨s₃,s₄,hbefore,hpacket,hafter⟩ := run_at hpost
    have hrun' : run (step timeout) (pre++[l]++(before++[l'])) (start t₀) = some s₄ := by
      rw [run_append,hrun,Option.bind_some,run_concat,hbefore]
      exact hpacket
    have hdone' := run_keeps (P := fun s => s.phase .remote = .done)
      (fun _ hs hstep => done_of_step hstep hs) hdone hbefore
    exact not_served hrun' hafter (done_of_step hpacket hdone')
      (holding_of_packet hpacket hside' hact') hend (by simpa using hserved)

/-- In every run without a packet of the origin after a timeout that found it silent for too
long, the remote copier runs whenever a packet is relayed; and in no other run, once the
packets that have come are passed on. -/
theorem relays_served_iff (timeout t₀ : ℤ) (ls : List Label) (s : State)
    (h : run (step timeout) ls (start t₀) = some s) :
    (SilentForGood timeout t₀ ls → Served timeout t₀ ls) ∧
      (¬ Holding (s.phase .origin) → (Served timeout t₀ ls ↔ SilentForGood timeout t₀ ls)) :=
  ⟨served_of_silentForGood h,fun hend =>
    ⟨silentForGood_of_served h hend,served_of_silentForGood h⟩⟩

end Runs

/-- The remote side answers at 50, the origin sends again at 180. -/
def halfDead : List Label :=
  [⟨.origin,.wait,0⟩,⟨.remote,.wait,0⟩,⟨.remote,.packet,50⟩,⟨.remote,.store,50⟩,
    ⟨.remote,.relay,50⟩,⟨.remote,.wait,50⟩,⟨.origin,.timeout,100⟩,⟨.origin,.check,100⟩,
    ⟨.origin,.wait,100⟩,⟨.remote,.timeout,150⟩,⟨.remote,.check,150⟩,⟨.origin,.packet,180⟩,
    ⟨.origin,.store,180⟩]

theorem relays_served_iff_short :
    ∃ s, run (step 100) [⟨.origin,.wait,0⟩,⟨.origin,.packet,10⟩,⟨.origin,.store,10⟩,
        ⟨.origin,.relay,10⟩] (start 0) = some s ∧
      Served 100 0 [⟨.origin,.wait,0⟩,⟨.origin,.packet,10⟩,⟨.origin,.store,10⟩,
        ⟨.origin,.relay,10⟩] := by
  refine ⟨_,rfl,(relays_served_iff 100 0 _ _ rfl).1 ?_⟩
  intro pre l post s now hls _ hside
  have hmem : l ∈ pre++l::post := by simp
  rw [← hls] at hmem
  simp only [List.mem_cons,List.not_mem_nil,or_false] at hmem
  rcases hmem with rfl | rfl | rfl | rfl <;> cases hside

/-- A packet is relayed by the one copier after the other has stopped. -/
theorem relay_half_dead :
    ∃ s s', run (step 100) halfDead (start 0) = some s ∧ s.phase .remote = .done ∧
      step 100 s ⟨.origin,.relay,180⟩ = some s' ∧ s'.phase .origin ≠ .done :=
  ⟨_,_,rfl,rfl,rfl,by decide⟩

end PipePacket
end Enimul
