import Enimul.LumineVpnService

/-! Stop requests that come while the service is stopping.
When no call of `stopVpn` is made in that time, the coroutines under way are the last start, a
shutdown behind it, or a shutdown alone, so that every tun is closed by those who may. A call
that is made in that time is logged as ignored, but its shutdown is launched like any other. -/
namespace Enimul
namespace LumineVpnService

open Machine

/-- The step is the synchronized block of a call of `stopVpn`. -/
def callsStopVpn (s : State) : Label → Bool
  | .stopVpn => true
  | .executor _ =>
    match s.running with
    | some (.start _ .stopVpn) => true
    | _ => false
  | _ => false

/-- No call of `stopVpn` is made while the service is stopping. -/
def OncePerStop (s : State) (l : Label) : Prop :=
  callsStopVpn s l = true → s.service.isStopping = false

instance (s : State) (l : Label) : Decidable (OncePerStop s l) :=
  inferInstanceAs (Decidable (_ → _))

/-- Who may close the n-th tun: the coroutine of its start, or a stop request made when that
start had been accepted. -/
def Closer.MayClose (n : ℕ) : Closer → Prop
  | .start m => m = n
  | .stop r => n ≤ r.after

/-- No duplicate request has led to a shutdown, and no tun was closed by someone else. -/
structure Sound (s : State) : Prop where
  launched : ∀ r ∈ s.launched, r.duplicate = false
  closed : ∀ e ∈ s.service.closed, e.2.MayClose e.1

section Order

def Work.acts : Work → Bool
  | .shell _ => false
  | _ => true

/-- The coroutines that change the service. -/
def acting (ws : List Work) : List Work := ws.filter Work.acts

@[simp] theorem acting_nil : acting [] = [] := rfl

@[simp] theorem acting_start (n : ℕ) (pos : StartAt) (ws : List Work) :
    acting (.start n pos::ws) = .start n pos::acting ws := rfl

@[simp] theorem acting_shutdown (r : StopRequest) (pos : ShutdownAt) (ws : List Work) :
    acting (.shutdown r pos::ws) = .shutdown r pos::acting ws := rfl

@[simp] theorem acting_shell (resumed : Bool) (ws : List Work) :
    acting (.shell resumed::ws) = acting ws := rfl

@[simp] theorem acting_append (ws ws' : List Work) :
    acting (ws++ws') = acting ws++acting ws' := List.filter_append ..

/-- What a call of `stopVpn` has decided to launch and has not launched yet. -/
def Caller.launches : Caller → List Launch
  | .launching l => [l]
  | _ => []

def launches : Option Work → List Launch
  | some (.start _ (.launch l)) => [l]
  | _ => []

/-- The coroutine that the call on the main thread will launch. -/
def Caller.work (n : ℕ) : Caller → List Work
  | .idle => []
  | .launching l => [l.work]
  | _ => [.start n (.body .ensureConfigFile)]

/-- The coroutines that change the service, those that are not launched yet among them, in the
order in which they run. -/
def State.active (s : State) : List Work :=
  acting (s.posted.map Suspended.work)++(acting s.running.toList++(acting s.queue++
    (acting (s.caller.work s.service.starts)++acting ((launches s.running).map Launch.work))))

/-- What may be under way when `n` starts were accepted and the flags are as given: the last
start, followed by a shutdown that has not begun, or a shutdown alone. -/
inductive Shape (n : ℕ) : Bool → Bool → List Work → Prop
  | idle (starting stopping : Bool) : Shape n starting stopping []
  | starting (stopping : Bool) (pos : StartAt) : Shape n true stopping [.start n pos]
  | both (pos : StartAt) :
      Shape n true true [.start n pos,.shutdown ⟨n,false⟩ (.body .performCoreShutdown)]
  | stopping (starting : Bool) (pos : ShutdownAt) :
      Shape n starting true [.shutdown ⟨n,false⟩ pos]

variable {n k : ℕ} {a b : Bool} {ws ws' : List Work} {r : StopRequest}

/-- A start comes first, and is the last one accepted. -/
theorem Shape.of_start {pos : StartAt} (h : Shape n a b (ws++.start k pos::ws')) :
    ws = [] ∧ k = n ∧ a = true ∧ (ws' = [] ∨
      b = true ∧ ws' = [.shutdown ⟨n,false⟩ (.body .performCoreShutdown)]) := by
  generalize hlist : ws++.start k pos::ws' = list at h
  cases h with
  | idle => simp at hlist
  | starting => cases ws <;> simp_all
  | both =>
    cases ws with
    | nil => simp_all
    | cons w ws => cases ws <;> simp_all
  | stopping => cases ws <;> simp_all

/-- A shutdown comes last. -/
theorem Shape.of_shutdown {pos : ShutdownAt} (h : Shape n a b (ws++.shutdown r pos::ws')) :
    ws' = [] ∧ r = ⟨n,false⟩ ∧ b = true ∧ (ws = [] ∨ a = true ∧
      pos = .body .performCoreShutdown ∧ ∃ pos', ws = [.start n pos']) := by
  generalize hlist : ws++.shutdown r pos::ws' = list at h
  cases h with
  | idle => simp at hlist
  | starting => cases ws <;> simp_all
  | both =>
    cases ws with
    | nil => simp_all
    | cons w ws => cases ws <;> simp_all
  | stopping => cases ws <;> simp_all

theorem Shape.of_mem {pos : ShutdownAt} (h : Shape n a b ws) (hr : .shutdown r pos ∈ ws) :
    r = ⟨n,false⟩ := by
  obtain ⟨before,after,rfl⟩ := List.append_of_mem hr
  exact h.of_shutdown.2.1

theorem Shape.move_start {pos : StartAt} (h : Shape n a b (ws++.start k pos::ws'))
    (pos' : StartAt) : Shape n a b (ws++.start k pos'::ws') := by
  obtain ⟨rfl,rfl,rfl,rfl | ⟨rfl,rfl⟩⟩ := h.of_start
  · exact .starting b pos'
  · exact .both pos'

theorem Shape.end_start {pos : StartAt} (h : Shape n a b (ws++.start k pos::ws')) (a' : Bool) :
    Shape n a' b (ws++ws') := by
  obtain ⟨rfl,rfl,rfl,rfl | ⟨rfl,rfl⟩⟩ := h.of_start
  · exact .idle a' b
  · exact .stopping a' _

/-- A shutdown that is no longer waiting is alone. -/
theorem Shape.alone {pos : ShutdownAt} (h : Shape n a b (ws++.shutdown r pos::ws'))
    (hws : ∀ k pos, Work.start k pos ∉ ws) : ws = [] ∧ ws' = [] ∧ r = ⟨n,false⟩ ∧ b = true := by
  obtain ⟨hlast,hr,hb,rfl | ⟨-,-,pos',rfl⟩⟩ := h.of_shutdown
  · exact ⟨rfl,hlast,hr,hb⟩
  · exact absurd List.mem_cons_self (hws n pos')

theorem Shape.move_shutdown {pos : ShutdownAt} (h : Shape n a b (ws++.shutdown r pos::ws'))
    (hws : ∀ k pos, Work.start k pos ∉ ws) (a' : Bool) (pos' : ShutdownAt) :
    Shape n a' b (ws++.shutdown r pos'::ws') := by
  obtain ⟨rfl,rfl,rfl,rfl⟩ := h.alone hws
  exact .stopping a' pos'

theorem Shape.end_shutdown {pos : ShutdownAt} (h : Shape n a b (ws++.shutdown r pos::ws'))
    (hws : ∀ k pos, Work.start k pos ∉ ws) (b' : Bool) : Shape n a b' (ws++ws') := by
  obtain ⟨rfl,rfl,-,-⟩ := h.alone hws
  exact .idle a b'

/-- A stop request that comes in time is the only one. -/
theorem Shape.request (h : Shape n a false ws) :
    Shape n a true (ws++[.shutdown ⟨n,false⟩ (.body .performCoreShutdown)]) := by
  cases h with
  | idle => exact .stopping a _
  | starting => exact .both _

/-- A start is accepted when nothing is under way. -/
theorem Shape.eq_nil (h : Shape n false false ws) : ws = [] := by
  cases h
  rfl

theorem not_start_posted (ps : List Suspended) (k : ℕ) (pos : StartAt) :
    Work.start k pos ∉ acting (ps.map Suspended.work) := by
  intro h
  obtain ⟨p,-,hp⟩ := List.mem_map.mp (List.mem_of_mem_filter h)
  cases p <;> cases hp

/-- No shutdown is about to be launched when the service is not stopping. -/
theorem Shape.launches_nil {o : Option Work}
    (h : Shape n a false (ws++acting ((launches o).map Launch.work))) :
    acting ((launches o).map Launch.work) = [] := by
  unfold launches at h ⊢
  split at h
  · rename_i l
    cases l with
    | shutdown r =>
      obtain ⟨-,-,hb,-⟩ := h.of_shutdown
      cases hb
    | shell => rfl
  · rfl

end Order

/-- What holds in every state reached when no stop request is a duplicate. -/
structure Inv (s : State) : Prop extends Sound s where
  shape : Shape s.service.starts s.service.isStarting s.service.isStopping s.active
  tun : ∀ n, s.service.vpnInterface = some n → n = s.service.starts
  queue : ∀ w ∈ s.queue, launches (some w) = []

section Invariant

variable {s s' : State} {n : ℕ} {r : StopRequest} {o : Outcome} {v : Service}

theorem inv_idle : Inv idle where
  launched _ h := by cases h
  closed _ h := by cases h
  shape := .idle false false
  tun _ h := by cases h
  queue _ h := by cases h

theorem launches_work (l : Launch) : launches (some l.work) = [] := by cases l <;> rfl

theorem launches_suspended (p : Suspended) : launches (some p.work) = [] := by cases p <;> rfl

/-- A coroutine goes on without a word to the others. -/
theorem Inv.of_effect (h : Inv s) {c : Closer} (heffect : Effect c s.service v)
    (hc : c.MayClose s.service.starts) {w : Option Work}
    (hshape : Shape s.service.starts s.service.isStarting s.service.isStopping
      {s with service := v,running := w}.active) :
    Inv {s with service := v,running := w} where
  launched := h.launched
  closed e he := by
    rcases heffect.closed e he with hold | ⟨htun,hcloser⟩
    · exact h.closed e hold
    · rw [hcloser,h.tun _ htun]
      exact hc
  shape := by
    rw [← heffect.starts,← heffect.isStarting,← heffect.isStopping] at hshape
    exact hshape
  tun n hn := by
    change n = v.starts
    rw [heffect.starts]
    exact h.tun n (heffect.tun n hn)
  queue := h.queue

section Active

theorem active_of_none (hrun : s.running = none) :
    s.active = acting (s.posted.map Suspended.work)++(acting s.queue++
      acting (s.caller.work s.service.starts)) := by
  simp [State.active,hrun,launches]

theorem active_of_start {pos : StartAt} (hrun : s.running = some (.start n pos))
    (hpos : ∀ l, pos ≠ .launch l) :
    s.active = acting (s.posted.map Suspended.work)++.start n pos::(acting s.queue++
      acting (s.caller.work s.service.starts)) := by
  have hlaunch : launches (some (.start n pos)) = [] := by
    cases pos with
    | launch l => exact absurd rfl (hpos l)
    | _ => rfl
  simp [State.active,hrun,hlaunch]

theorem active_of_launch {l : Launch} (hrun : s.running = some (.start n (.launch l))) :
    s.active = acting (s.posted.map Suspended.work)++.start n (.launch l)::(acting s.queue++
      (acting (s.caller.work s.service.starts)++acting [l.work])) := by
  simp [State.active,hrun,launches]

theorem active_of_shutdown {pos : ShutdownAt} (hrun : s.running = some (.shutdown r pos)) :
    s.active = acting (s.posted.map Suspended.work)++.shutdown r pos::(acting s.queue++
      acting (s.caller.work s.service.starts)) := by
  simp [State.active,hrun,launches]

theorem active_of_shell {resumed : Bool} (hrun : s.running = some (.shell resumed)) :
    s.active = acting (s.posted.map Suspended.work)++(acting s.queue++
      acting (s.caller.work s.service.starts)) := by
  simp [State.active,hrun,launches]

end Active

theorem inv_startBody (h : Inv s) {b : StartBody} (hrun : s.running = some (.start n (.body b))) :
    Inv (workStep s o (.start n (.body b))) := by
  have hshape := h.shape
  rw [active_of_start hrun (by simp)] at hshape
  obtain ⟨-,hn,-,-⟩ := hshape.of_start
  have heffect := startBody_effect n o s.service b
  refine h.of_effect (w := some (.start n (startBody n o s.service b).2)) heffect hn ?_
  rw [active_of_start rfl (startBody_ne_launch n o s.service b),heffect.starts]
  exact hshape.move_start _

theorem inv_shutdownBody (h : Inv s) {b : ShutdownBody}
    (hrun : s.running = some (.shutdown r (.body b))) :
    Inv (workStep s o (.shutdown r (.body b))) := by
  have hshape := h.shape
  rw [active_of_shutdown hrun] at hshape
  obtain ⟨-,-,rfl,-⟩ := hshape.alone (not_start_posted s.posted)
  have heffect := shutdownBody_effect ⟨s.service.starts,false⟩ s.service b
  refine h.of_effect (w := some (.shutdown _ (shutdownBody _ s.service b).2)) heffect
    (Nat.le_refl _) ?_
  rw [active_of_shutdown rfl,heffect.starts]
  exact hshape.move_shutdown (not_start_posted s.posted) _ _

/-- The call of `stopVpn` in the coroutine of a start. -/
theorem inv_stopVpn (h : Inv s) (hrun : s.running = some (.start n .stopVpn))
    (hstop : s.service.isStopping = false) : Inv (workStep s o (.start n .stopVpn)) := by
  have hshape := h.shape
  rw [active_of_start hrun (by simp)] at hshape
  rcases stopVpn_cases hstop with heq | heq
  · simp only [workStep,heq]
    refine ⟨⟨h.launched,h.closed⟩,?_,h.tun,h.queue⟩
    rw [active_of_launch rfl]
    simpa [Launch.work] using hshape.move_start (.launch .shell)
  · simp only [workStep,heq]
    refine ⟨⟨h.launched,h.closed⟩,?_,h.tun,h.queue⟩
    rw [active_of_launch rfl]
    rw [hstop] at hshape
    simpa [Launch.work] using (hshape.move_start (.launch (.shutdown _))).request

/-- What is launched comes from a request that is no duplicate. -/
theorem launched_launch (h : Inv s) {l : Launch} (hl : ∀ w ∈ acting [l.work], w ∈ s.active) :
    ∀ r ∈ (s.launch l).launched, r.duplicate = false := by
  intro r hr
  rcases List.mem_append.mp hr with hold | hnew
  · exact h.launched r hold
  · cases l with
    | shell => cases hnew
    | shutdown r' =>
      obtain rfl := List.mem_singleton.mp hnew
      rw [h.shape.of_mem (hl _ List.mem_cons_self)]

/-- A coroutine joins the queue before it has anything to launch. -/
theorem queue_append (h : Inv s) {w : Work} (hw : launches (some w) = []) :
    ∀ w' ∈ s.queue++[w], launches (some w') = [] := by
  intro w' hw'
  rcases List.mem_append.mp hw' with hold | hnew
  · exact h.queue w' hold
  · rwa [List.mem_singleton.mp hnew]

theorem inv_launch (h : Inv s) {l : Launch} (hrun : s.running = some (.start n (.launch l))) :
    Inv (workStep s o (.start n (.launch l))) := by
  have hactive := active_of_launch hrun
  refine ⟨⟨launched_launch h fun w hw => by simp [hactive,hw],h.closed⟩,?_,h.tun,
    queue_append h (launches_work l)⟩
  have hshape := h.shape
  rw [hactive] at hshape
  rw [active_of_start rfl (by simp)]
  cases l with
  | shell => simpa [workStep,State.launch,Launch.work] using hshape.move_start .finish
  | shutdown r =>
    -- Nothing else is under way, so the shutdown overtakes nothing.
    obtain ⟨-,-,-,hnone | ⟨-,hlast⟩⟩ := hshape.of_start
    · simp [Launch.work] at hnone
    · have hempty : acting s.queue = [] ∧ acting (s.caller.work s.service.starts) = [] := by
        rw [← List.append_assoc] at hlast
        simpa [Launch.work] using congrArg List.dropLast hlast
      simpa [workStep,State.launch,Launch.work,hempty] using hshape.move_start .finish

theorem inv_finish (h : Inv s) (hrun : s.running = some (.start n .finish)) :
    Inv (workStep s o (.start n .finish)) := by
  have hshape := h.shape
  rw [active_of_start hrun (by simp)] at hshape
  refine ⟨⟨h.launched,h.closed⟩,?_,h.tun,h.queue⟩
  rw [active_of_none rfl]
  exact hshape.end_start false

theorem inv_shutdown (h : Inv s) {pos : ShutdownAt} (hrun : s.running = some (.shutdown r pos)) :
    Inv (workStep s o (.shutdown r pos)) := by
  have hshape := h.shape
  rw [active_of_shutdown hrun] at hshape
  cases pos with
  | body b => exact inv_shutdownBody h hrun
  | withMain =>
    refine ⟨⟨h.launched,h.closed⟩,?_,h.tun,h.queue⟩
    rw [active_of_none rfl]
    simpa [workStep,Suspended.work] using
      hshape.move_shutdown (not_start_posted s.posted) _ .clearStarting
  | clearStarting =>
    refine ⟨⟨h.launched,h.closed⟩,?_,h.tun,h.queue⟩
    rw [active_of_shutdown rfl]
    exact hshape.move_shutdown (not_start_posted s.posted) false _
  | clearStopping =>
    refine ⟨⟨h.launched,h.closed⟩,?_,h.tun,h.queue⟩
    rw [active_of_none rfl]
    exact hshape.end_shutdown (not_start_posted s.posted) false

theorem inv_shell (h : Inv s) {resumed : Bool} (hrun : s.running = some (.shell resumed)) :
    Inv (workStep s o (.shell resumed)) := by
  have hshape := h.shape
  rw [active_of_shell hrun] at hshape
  cases resumed with
  | false =>
    refine ⟨⟨h.launched,h.closed⟩,?_,h.tun,h.queue⟩
    rw [active_of_none rfl]
    simpa [workStep,Suspended.work] using hshape
  | true =>
    refine ⟨⟨h.launched,h.closed⟩,?_,h.tun,h.queue⟩
    rw [active_of_none rfl]
    exact hshape

theorem inv_work (h : Inv s) {w : Work} (hrun : s.running = some w)
    (hstop : OncePerStop s (.executor o)) : Inv (workStep s o w) := by
  cases w with
  | start n pos =>
    cases pos with
    | body b => exact inv_startBody h hrun
    | stopVpn => exact inv_stopVpn h hrun (hstop (by simp [callsStopVpn,hrun]))
    | launch l => exact inv_launch h hrun
    | finish => exact inv_finish h hrun
  | shutdown r pos => exact inv_shutdown h hrun
  | shell resumed => exact inv_shell h hrun

/-- The executor takes up the next coroutine. -/
theorem inv_dispatch (h : Inv s) (hrun : s.running = none) {w : Work} {ws : List Work}
    (hqueue : s.queue = w::ws) : Inv {s with running := some w,queue := ws} := by
  have hw : launches (some w) = [] := h.queue w (by simp [hqueue])
  refine ⟨⟨h.launched,h.closed⟩,?_,h.tun,fun w' hw' => h.queue w' (by simp [hqueue,hw'])⟩
  have hshape := h.shape
  rw [active_of_none hrun,hqueue] at hshape
  cases w <;> simpa [State.active,hw] using hshape

/-- The main thread runs the block of a suspended coroutine. -/
theorem inv_main (h : Inv s) (hcaller : s.caller = .idle) {p : Suspended} {ps : List Suspended}
    (hposted : s.posted = p::ps) : Inv {s with posted := ps,queue := s.queue++[p.work]} := by
  refine ⟨⟨h.launched,h.closed⟩,?_,h.tun,queue_append h (launches_suspended p)⟩
  have hshape := h.shape
  simp only [State.active,hposted,hcaller,Caller.work] at hshape ⊢
  cases p with
  | shell => simpa [Suspended.work] using hshape
  | shutdown r =>
    -- A shutdown that has been suspended is alone.
    simp only [List.map_cons,Suspended.work,acting_shutdown,List.cons_append] at hshape
    rw [← List.nil_append (_::_)] at hshape
    obtain ⟨hrest,-⟩ := hshape.of_shutdown
    simp only [List.append_eq_nil_iff] at hrest
    simpa [Suspended.work,hrest] using hshape

theorem inv_callStart (h : Inv s) (hcaller : s.caller = .idle)
    (hstart : startVpn s.service = some v) :
    Inv {s with service := v,caller := .establishing} := by
  obtain ⟨hstarting,hstopping,htun,rfl⟩ := startVpn_some hstart
  refine ⟨⟨h.launched,h.closed⟩,?_,?_,h.queue⟩
  · have hshape := h.shape
    rw [hstarting,hstopping] at hshape
    have hnone := hshape.eq_nil
    simp only [State.active,hcaller,Caller.work,List.append_eq_nil_iff] at hnone
    simpa [State.active,Caller.work,hnone] using Shape.starting _ _
  · intro n hn
    rw [htun] at hn
    cases hn

theorem inv_callStop (h : Inv s) (hcaller : s.caller = .idle)
    (hstop : s.service.isStopping = false) :
    Inv {s with service := (stopVpn s.service).1,caller := .launching (stopVpn s.service).2} := by
  have hshape := h.shape
  simp only [State.active,hcaller,Caller.work,acting_nil,List.nil_append] at hshape
  rcases stopVpn_cases hstop with heq | heq
  · rw [heq]
    refine ⟨⟨h.launched,h.closed⟩,?_,h.tun,h.queue⟩
    simpa [State.active,Caller.work,Launch.work] using hshape
  · rw [heq]
    refine ⟨⟨h.launched,h.closed⟩,?_,h.tun,h.queue⟩
    rw [hstop] at hshape
    simp only [← List.append_assoc] at hshape
    have hnone := hshape.launches_nil
    rw [hnone] at hshape
    simpa [State.active,Caller.work,Launch.work,hnone] using hshape.request

/-- The call of `startVpn` goes on: its coroutine stays the one that is about to run. -/
theorem Inv.of_caller (h : Inv s) {c : Caller} {tun : Option ℕ}
    (htun : ∀ n, tun = some n → n = s.service.starts)
    (hc : c.work s.service.starts = s.caller.work s.service.starts) :
    Inv {s with service := {s.service with vpnInterface := tun},caller := c} := by
  refine ⟨⟨h.launched,h.closed⟩,?_,htun,h.queue⟩
  have hshape := h.shape
  simp only [State.active,← hc] at hshape
  exact hshape

theorem inv_caller (h : Inv s) (hstep : callerStep s o s.caller = some s') : Inv s' := by
  have hshape := h.shape
  cases hcaller : s.caller with
  | idle =>
    rw [hcaller] at hstep
    cases hstep
  | establishing =>
    rw [hcaller] at hstep
    cases o with
    | ok =>
      cases hstep
      exact h.of_caller (fun n hn => (Option.some.inj hn).symm) (by rw [hcaller]; rfl)
    | error =>
      cases hstep
      exact h.of_caller (fun n hn => by cases hn) (by rw [hcaller]; rfl)
    | throws =>
      cases hstep
      exact h.of_caller h.tun (by rw [hcaller]; rfl)
  | established =>
    rw [hcaller] at hstep
    simp only [callerStep] at hstep
    split at hstep
    · cases hstep
      exact h.of_caller h.tun (by rw [hcaller]; rfl)
    · cases hstep
      refine ⟨⟨h.launched,h.closed⟩,?_,h.tun,queue_append h rfl⟩
      simpa [State.active,hcaller,Caller.work] using hshape
  | failed =>
    rw [hcaller] at hstep
    cases hstep
    refine ⟨⟨h.launched,h.closed⟩,?_,h.tun,h.queue⟩
    simp only [State.active,hcaller,Caller.work,acting_start,acting_nil,List.cons_append,
      List.nil_append] at hshape
    simp only [← List.append_assoc] at hshape
    simpa [State.active,Caller.work,Launch.work] using hshape.end_start false
  | launching l =>
    rw [hcaller] at hstep
    cases hstep
    have hmem : ∀ w ∈ acting [l.work], w ∈ s.active := by
      intro w hw
      simp [State.active,hcaller,Caller.work,hw]
    refine ⟨⟨launched_launch h hmem,h.closed⟩,?_,h.tun,queue_append h (launches_work l)⟩
    simpa [State.active,State.launch,hcaller,Caller.work] using hshape

/-- A step with which no duplicate request comes in keeps the invariant. -/
theorem inv_step {l : Label} (h : Inv s) (hl : OncePerStop s l) (hstep : step s l = some s') :
    Inv s' := by
  cases moves_of_step hstep with
  | ignored => exact h
  | accepted hcaller hstart => exact inv_callStart h hcaller hstart
  | stopVpn hcaller => exact inv_callStop h hcaller (hl rfl)
  | caller hcall => exact inv_caller h hcall
  | main hcaller hposted => exact inv_main h hcaller hposted
  | work hrun => exact inv_work h hrun hl
  | dispatch hrun hqueue => exact inv_dispatch h hrun hqueue

theorem inv_run {ls : List Label} (h : run step ls idle = some s)
    (hls : Along step OncePerStop ls idle) : Inv s := by
  refine run_invariant (P := fun ls s => Along step OncePerStop ls idle → Inv s)
    (fun _ => inv_idle) ?_ h hls
  intro ls s l s' hrun ih hstep hall
  obtain ⟨hbefore,hl⟩ := (along_concat hrun).mp hall
  exact inv_step (ih hbefore) hl hstep

end Invariant

section Duplicates

variable {s s' : State} {l : Label} {r : StopRequest} {ls : List Label}

/-- A request has been handed over or is about to be. -/
def Requested (s : State) (r : StopRequest) : Prop :=
  r ∈ s.launched ∨ .shutdown r ∈ s.caller.launches ∨ .shutdown r ∈ launches s.running

theorem requested_launch {l : Launch} (h : .shutdown r ∈ [l]) : r ∈ (s.launch l).launched := by
  rw [← List.mem_singleton.mp h]
  simp [State.launch,Launch.requests]

theorem launched_of_launch {l : Launch} (h : r ∈ s.launched) : r ∈ (s.launch l).launched :=
  List.mem_append_left _ h

theorem requested_work {w : Work} {o : Outcome} (hrun : s.running = some w)
    (h : Requested s r) : Requested (workStep s o w) r := by
  rw [Requested,hrun] at h
  rcases h with hlaunched | hcaller | hrunning
  · left
    cases w with
    | start n pos =>
      cases pos with
      | launch l => exact launched_of_launch hlaunched
      | _ => exact hlaunched
    | shutdown r' pos => cases pos <;> exact hlaunched
    | shell resumed => cases resumed <;> exact hlaunched
  · right; left
    cases w with
    | start n pos => cases pos <;> exact hcaller
    | shutdown r' pos => cases pos <;> exact hcaller
    | shell resumed => cases resumed <;> exact hcaller
  · cases w with
    | start n pos =>
      cases pos with
      | launch l => exact .inl (requested_launch hrunning)
      | _ => cases hrunning
    | _ => cases hrunning

/-- The main thread has no request in hand, and the executor takes no step. -/
theorem Requested.of_main (h : Requested s r) (hcaller : s.caller.launches = [])
    (hlaunched : s'.launched = s.launched) (hrunning : s'.running = s.running) :
    Requested s' r := by
  rw [Requested,hcaller] at h
  rw [Requested,hlaunched,hrunning]
  rcases h with hold | hnone | hrun
  · exact .inl hold
  · cases hnone
  · exact .inr (.inr hrun)

theorem requested_caller {o : Outcome} (h : Requested s r)
    (hstep : callerStep s o s.caller = some s') : Requested s' r := by
  cases hcaller : s.caller with
  | idle =>
    rw [hcaller] at hstep
    cases hstep
  | establishing =>
    rw [hcaller] at hstep
    cases o <;> cases hstep <;> exact h.of_main (by rw [hcaller]; rfl) rfl rfl
  | established =>
    rw [hcaller] at hstep
    simp only [callerStep] at hstep
    split at hstep <;> cases hstep <;> exact h.of_main (by rw [hcaller]; rfl) rfl rfl
  | failed =>
    rw [hcaller] at hstep
    cases hstep
    exact h.of_main (by rw [hcaller]; rfl) rfl rfl
  | launching l =>
    rw [hcaller] at hstep
    cases hstep
    rw [Requested,hcaller] at h
    rcases h with hlaunched | hcalled | hrunning
    · exact .inl (launched_of_launch hlaunched)
    · exact .inl (requested_launch hcalled)
    · exact .inr (.inr hrunning)

theorem requested_step (h : Requested s r) (hstep : step s l = some s') : Requested s' r := by
  cases moves_of_step hstep with
  | ignored => exact h
  | accepted hcaller => exact h.of_main (by rw [hcaller]; rfl) rfl rfl
  | stopVpn hcaller => exact h.of_main (by rw [hcaller]; rfl) rfl rfl
  | caller hcall => exact requested_caller h hcall
  | main hcaller => exact h.of_main (by rw [hcaller]; rfl) rfl rfl
  | work hrun => exact requested_work hrun h
  | dispatch hrun =>
    rw [Requested,hrun] at h
    rcases h with hlaunched | hcalled | hnone
    · exact .inl hlaunched
    · exact .inr (.inl hcalled)
    · cases hnone

/-- A duplicate request is about to be handed over. -/
theorem requested_of_duplicate (hstep : step s l = some s') (hl : ¬ OncePerStop s l) :
    Requested s' ⟨s.service.starts,true⟩ := by
  simp only [OncePerStop,Classical.not_imp,Bool.not_eq_false] at hl
  obtain ⟨hcall,hstop⟩ := hl
  have hdup := stopVpn_of_stopping hstop
  cases moves_of_step hstep with
  | stopVpn hcaller =>
    rw [hdup]
    exact .inr (.inl List.mem_cons_self)
  | work hrun =>
    simp only [callsStopVpn] at hcall
    split at hcall
    · rename_i n hstart
      cases hrun.symm.trans hstart
      simp only [workStep,hdup]
      exact .inr (.inr List.mem_cons_self)
    · cases hcall
  | dispatch hrun =>
    rw [callsStopVpn,hrun] at hcall
    cases hcall
  | _ => cases hcall

/-- Nothing that a call of `stopVpn` has decided to launch is still to be launched. -/
def Settled (s : State) : Prop := s.caller.launches = [] ∧ launches s.running = []

/-- Every duplicate request of a run leads to a shutdown. -/
theorem along_of_sound (h : run step ls idle = some s) (hsettled : Settled s) (hsound : Sound s) :
    Along step OncePerStop ls idle := by
  have hrequested : ¬ Along step OncePerStop ls idle →
      ∃ r : StopRequest, r.duplicate = true ∧ Requested s r := by
    refine run_invariant (P := fun ls s => ¬ Along step OncePerStop ls idle →
      ∃ r : StopRequest, r.duplicate = true ∧ Requested s r) (fun hnot => absurd trivial hnot) ?_ h
    intro ls s l s' hrun ih hstep hnot
    rw [along_concat hrun,not_and_or] at hnot
    rcases hnot with hbefore | hlast
    · obtain ⟨r,hr,hreq⟩ := ih hbefore
      exact ⟨r,hr,requested_step hreq hstep⟩
    · exact ⟨_,rfl,requested_of_duplicate hstep hlast⟩
  by_contra hnot
  obtain ⟨r,hr,hreq⟩ := hrequested hnot
  rw [Requested,hsettled.1,hsettled.2] at hreq
  rcases hreq with hlaunched | hnone | hnone
  · rw [hsound.launched r hlaunched] at hr
    cases hr
  · cases hnone
  · cases hnone

/-- In every run without a call of `stopVpn` while the service is stopping, no shutdown comes
from a duplicate request, and a tun is closed by the coroutine of its start or by a later stop;
and in no other run, once what the calls have decided is launched. -/
theorem stopVpn_sound_iff (ls : List Label) (s : State) (h : run step ls idle = some s) :
    (Along step OncePerStop ls idle → Sound s) ∧
      (Settled s → (Sound s ↔ Along step OncePerStop ls idle)) := by
  have hsound : Along step OncePerStop ls idle → Sound s := fun hls => (inv_run h hls).toSound
  exact ⟨hsound,fun hsettled => ⟨along_of_sound h hsettled,hsound⟩⟩

end Duplicates

def executor (k : ℕ) : List Label := List.replicate k (.executor .ok)

/-- The service is started and stopped, up to where the shutdown has still to clear its flags. -/
def startedAndStopped : List Label :=
  [.startVpn,.caller .ok,.caller .ok]++executor 10++[.stopVpn,.caller .ok]++executor 9++[.main]

/-- The service after that start and stop. -/
def stopped : State :=
  {idle with
    service := {idle.service with coreStopIssued := true,starts := 1,closed := [(1,.start 1)]}
    launched := [⟨1,false⟩]}

theorem stopVpn_sound_iff_stopped :
    run step (startedAndStopped++executor 3) idle = some stopped ∧ Sound stopped :=
  ⟨rfl,(stopVpn_sound_iff (startedAndStopped++executor 3) stopped rfl).1 (by decide)⟩

/-- A second stop request comes while the shutdown of the first has still to clear its flags.
Its own shutdown closes the tun of the start that follows. -/
theorem duplicate_stop_closes_next_tun :
    ∃ s s', run step startedAndStopped idle = some s ∧ s.service.isStopping = true ∧
      run step ([.stopVpn,.caller .ok]++executor 3++[.startVpn,.caller .ok,.caller .ok]++
        executor 3) s = some s' ∧
      s'.launched = [⟨1,false⟩,⟨1,true⟩] ∧ s'.service.starts = 2 ∧
      s'.service.closed = [(1,.start 1),(2,.stop ⟨1,true⟩)] :=
  ⟨_,_,rfl,rfl,rfl,rfl,rfl,rfl⟩

end LumineVpnService
end Enimul
