import Enimul.Machine
import Mathlib.Data.Int.Notation

/-! Starting and stopping the VPN service.
The calls `startVpn` and `stopVpn` are made on the main thread. What they leave to do runs in
coroutines on the single thread of the lifecycle executor, in the order in which it was handed
over; a coroutine that waits for the main thread lets the next one run. A step is one
synchronized block or one write of a field outside of them. A tun that has been taken out of its
field can be closed by nobody else, so the close is part of the step that takes it. The watchdog
and the destruction of the service are not part of the model. -/
namespace Enimul
namespace LumineVpnService

open Machine

/-- A call of `stopVpn` that hands over a shutdown: the starts accepted before it, and whether
it has found another stop in progress. -/
structure StopRequest where
  after : ℕ
  duplicate : Bool
  deriving DecidableEq, Repr

/-- On whose behalf a tun is closed: the coroutine of a start, or a stop request. -/
inductive Closer
  | start (n : ℕ)
  | stop (r : StopRequest)
  deriving DecidableEq, Repr

/-- The fields of the service. For the proofs `starts` counts the accepted starts, of which the
n-th establishes the tun n, and `closed` lists the tuns that have been closed. -/
structure Service where
  isStarting : Bool
  isStopping : Bool
  coreStarted : Bool
  coreOwnsTunFd : Bool
  pendingStopRequested : Bool
  coreStopIssued : Bool
  vpnInterface : Option ℕ
  coreTunFd : Option ℤ
  starts : ℕ
  closed : List (ℕ × Closer)
  deriving DecidableEq, Repr

/-- What a call of `stopVpn` hands over to the executor. -/
inductive Launch
  | shutdown (r : StopRequest)
  | shell
  deriving DecidableEq, Repr

/-- What the environment makes of a step that depends on it. -/
inductive Outcome
  | ok | error | throws
  deriving DecidableEq, Repr

section Service

/-- The synchronized block of `startVpn`, none if the request is ignored. -/
def startVpn (v : Service) : Option Service :=
  if v.isStarting || v.isStopping || v.coreStarted || v.vpnInterface.isSome ||
      v.coreTunFd.isSome then none
  else some {v with
    isStarting := true
    pendingStopRequested := false
    coreStopIssued := false
    starts := v.starts+1}

/-- The synchronized block of `stopVpn`, and what is launched after it. A duplicate request
leaves the block with the same value as one that has set the flags. -/
def stopVpn (v : Service) : Service × Launch :=
  if v.isStopping then (v,.shutdown ⟨v.starts,true⟩)
  else if !v.isStarting && !v.coreStarted && v.vpnInterface.isNone && v.coreTunFd.isNone then
    (v,.shell)
  else ({v with pendingStopRequested := true,isStopping := true},.shutdown ⟨v.starts,false⟩)

def consumePendingStopRequest (v : Service) : Bool × Service :=
  if v.pendingStopRequested then (true,{v with pendingStopRequested := false}) else (false,v)

/-- Take the tun out of its field and close it. -/
def takeTun (c : Closer) (v : Service) : Service :=
  {v with vpnInterface := none,closed := v.closed++v.vpnInterface.toList.map fun n => (n,c)}

def closePendingTunFd (c : Closer) (v : Service) : Service :=
  {takeTun c v with coreTunFd := none}

/-- The synchronized block of `performCoreShutdownIfNeeded`: whether the core is to be stopped. -/
def issueCoreStop (v : Service) : Bool × Service :=
  if v.coreStopIssued then (false,v)
  else (v.coreOwnsTunFd || v.coreStarted,{v with coreStopIssued := true})

end Service

/-- The body of the coroutine that `startVpn` launches. -/
inductive StartBody
  | ensureConfigFile
  | consumePending
  | abandon
  | claimTun
  | startLumine
  | release (failed : Bool)
  | report (failed : Bool)
  | publish (failed : Bool)
  | consumeAgain
  | caught
  deriving DecidableEq, Repr

inductive StartAt
  | body (b : StartBody)
  | stopVpn
  | launch (l : Launch)
  | finish
  deriving DecidableEq, Repr

/-- One step of the n-th start. An exception goes to the handler, which closes the tun and
stops the service. -/
def startBody (n : ℕ) (o : Outcome) (v : Service) : StartBody → Service × StartAt
  | .ensureConfigFile => (v,.body (if o = .throws then .caught else .consumePending))
  | .consumePending =>
    let (pending,v') := consumePendingStopRequest v
    (v',.body (if pending then .abandon else .claimTun))
  | .abandon => (closePendingTunFd (.start n) v,.finish)
  | .claimTun =>
    if v.pendingStopRequested then (closePendingTunFd (.start n) v,.finish)
    else ({v with coreOwnsTunFd := true},.body .startLumine)
  | .startLumine =>
    match o with
    | .ok => (v,.body (.release false))
    | .error => (v,.body (.release true))
    | .throws => (v,.body .caught)
  | .release failed => (closePendingTunFd (.start n) v,.body (.report failed))
  | .report true => ({v with coreOwnsTunFd := false},.body (.publish true))
  | .report false => ({v with coreStarted := true},.body (.publish false))
  | .publish failed =>
    if o = .throws then (v,.body .caught)
    else (v,if failed then .stopVpn else .body .consumeAgain)
  | .consumeAgain =>
    let (pending,v') := consumePendingStopRequest v
    (v',if pending then .stopVpn else .finish)
  | .caught => (closePendingTunFd (.start n) v,.stopVpn)

/-- The coroutine that `stopVpn` launches, up to where it waits for the main thread. -/
inductive ShutdownBody
  | performCoreShutdown
  | stopCore (shouldStopCore : Bool)
  | clearStarted
  | clearOwner
  | clearFd
  | clearPending
  | takeTun
  deriving DecidableEq, Repr

inductive ShutdownAt
  | body (b : ShutdownBody)
  | withMain
  | clearStarting
  | clearStopping
  deriving DecidableEq, Repr

/-- One step of a shutdown. Stopping the core itself changes no field. -/
def shutdownBody (r : StopRequest) (v : Service) : ShutdownBody → Service × ShutdownAt
  | .performCoreShutdown =>
    let (shouldStopCore,v') := issueCoreStop v
    (v',.body (.stopCore shouldStopCore))
  | .stopCore shouldStopCore =>
    (if shouldStopCore then v else closePendingTunFd (.stop r) v,.body .clearStarted)
  | .clearStarted => ({v with coreStarted := false},.body .clearOwner)
  | .clearOwner => ({v with coreOwnsTunFd := false},.body .clearFd)
  | .clearFd => ({v with coreTunFd := none},.body .clearPending)
  | .clearPending => ({v with pendingStopRequested := false},.body .takeTun)
  | .takeTun => (LumineVpnService.takeTun (.stop r) v,.withMain)

/-- A coroutine of the service and where it is. -/
inductive Work
  | start (n : ℕ) (pos : StartAt)
  | shutdown (r : StopRequest) (pos : ShutdownAt)
  | shell (resumed : Bool)
  deriving DecidableEq, Repr

def Launch.work : Launch → Work
  | .shutdown r => .shutdown r (.body .performCoreShutdown)
  | .shell => .shell false

def Launch.requests : Launch → List StopRequest
  | .shutdown r => [r]
  | .shell => []

/-- A coroutine that waits for its block to run on the main thread. -/
inductive Suspended
  | shutdown (r : StopRequest)
  | shell
  deriving DecidableEq, Repr

/-- The coroutine as it goes on when its block has run. -/
def Suspended.work : Suspended → Work
  | .shutdown r => .shutdown r .clearStarting
  | .shell => .shell true

/-- Where the main thread is in a call. -/
inductive Caller
  | idle
  | establishing
  | established
  | failed
  | launching (l : Launch)
  deriving DecidableEq, Repr

/-- The service, the main thread with the blocks posted to it, and the executor with the
coroutine that it runs and those that wait for it. The shutdowns handed over so far are kept in
`launched`. -/
structure State where
  service : Service
  caller : Caller
  posted : List Suspended
  running : Option Work
  queue : List Work
  launched : List StopRequest
  deriving DecidableEq, Repr

inductive Label
  | startVpn
  | stopVpn
  | caller (o : Outcome)
  | main
  | executor (o : Outcome)
  deriving DecidableEq, Repr

section Steps

def State.launch (s : State) (l : Launch) : State :=
  {s with queue := s.queue++[l.work],launched := s.launched++l.requests}

/-- The main thread goes on with its call. -/
def callerStep (s : State) (o : Outcome) : Caller → Option State
  | .idle => none
  | .establishing =>
    match o with
    | .ok => some {s with
      service := {s.service with vpnInterface := some s.service.starts}
      caller := .established}
    | .error => some {s with
      service := {s.service with vpnInterface := none}
      caller := .failed}
    | .throws => some {s with caller := .failed}
  | .established =>
    if o = .throws then some {s with caller := .failed}
    else some {s with
      queue := s.queue++[.start s.service.starts (.body .ensureConfigFile)]
      caller := .idle}
  | .failed => some {s with
    service := {s.service with isStarting := false}
    caller := .launching .shell}
  | .launching l => some {s.launch l with caller := .idle}

/-- The executor goes on with the coroutine that it runs. -/
def workStep (s : State) (o : Outcome) : Work → State
  | .start n (.body b) =>
    let (v,pos) := startBody n o s.service b
    {s with service := v,running := some (.start n pos)}
  | .start n .stopVpn =>
    let (v,l) := stopVpn s.service
    {s with service := v,running := some (.start n (.launch l))}
  | .start n (.launch l) => {s.launch l with running := some (.start n .finish)}
  | .start _ .finish => {s with
    service := {s.service with isStarting := false}
    running := none}
  | .shutdown r (.body b) =>
    let (v,pos) := shutdownBody r s.service b
    {s with service := v,running := some (.shutdown r pos)}
  | .shutdown r .withMain => {s with posted := s.posted++[.shutdown r],running := none}
  | .shutdown r .clearStarting => {s with
    service := {s.service with isStarting := false}
    running := some (.shutdown r .clearStopping)}
  | .shutdown _ .clearStopping => {s with
    service := {s.service with isStopping := false}
    running := none}
  | .shell false => {s with posted := s.posted++[.shell],running := none}
  | .shell true => {s with running := none}

def step (s : State) : Label → Option State
  | .startVpn =>
    if s.caller = .idle then
      match startVpn s.service with
      | none => some s
      | some v => some {s with service := v,caller := .establishing}
    else none
  | .stopVpn =>
    if s.caller = .idle then
      let (v,l) := stopVpn s.service
      some {s with service := v,caller := .launching l}
    else none
  | .caller o => callerStep s o s.caller
  | .main =>
    if s.caller = .idle then
      match s.posted with
      | [] => none
      | w::ws => some {s with posted := ws,queue := s.queue++[w.work]}
    else none
  | .executor o =>
    match s.running,s.queue with
    | some w,_ => some (workStep s o w)
    | none,[] => none
    | none,w::ws => some {s with running := some w,queue := ws}

end Steps

/-- The service before its first call. -/
def idle : State :=
  ⟨⟨false,false,false,false,false,false,none,none,0,[]⟩,.idle,[],none,[],[]⟩

section Service

variable {v v' : Service} {c : Closer}

/-- What a body does to the service, apart from the fields that nothing here depends on. -/
structure Effect (c : Closer) (v v' : Service) : Prop where
  starts : v'.starts = v.starts
  isStarting : v'.isStarting = v.isStarting
  isStopping : v'.isStopping = v.isStopping
  tun : ∀ n, v'.vpnInterface = some n → v.vpnInterface = some n
  closed : ∀ e ∈ v'.closed, e ∈ v.closed ∨ v.vpnInterface = some e.1 ∧ e.2 = c

theorem Effect.refl (c : Closer) (v : Service) : Effect c v v :=
  ⟨rfl,rfl,rfl,fun _ h => h,fun _ h => .inl h⟩

theorem takeTun_effect (c : Closer) (v : Service) : Effect c v (takeTun c v) where
  starts := rfl
  isStarting := rfl
  isStopping := rfl
  tun _ h := by cases h
  closed e he := by
    rcases List.mem_append.mp he with hold | hnew
    · exact .inl hold
    · obtain ⟨n,hn,rfl⟩ := List.mem_map.mp hnew
      exact .inr ⟨Option.mem_toList.mp hn,rfl⟩

theorem closePendingTunFd_effect (c : Closer) (v : Service) :
    Effect c v (closePendingTunFd c v) :=
  have h := takeTun_effect c v
  ⟨h.starts,h.isStarting,h.isStopping,h.tun,h.closed⟩

theorem consumePendingStopRequest_effect (c : Closer) (v : Service) :
    Effect c v (consumePendingStopRequest v).2 := by
  unfold consumePendingStopRequest
  split
  · exact ⟨rfl,rfl,rfl,fun _ h => h,fun _ h => .inl h⟩
  · exact .refl c v

theorem issueCoreStop_effect (c : Closer) (v : Service) : Effect c v (issueCoreStop v).2 := by
  unfold issueCoreStop
  split
  · exact .refl c v
  · exact ⟨rfl,rfl,rfl,fun _ h => h,fun _ h => .inl h⟩

theorem startBody_effect (n : ℕ) (o : Outcome) (v : Service) (b : StartBody) :
    Effect (.start n) v (startBody n o v b).1 := by
  cases b with
  | ensureConfigFile => exact .refl _ v
  | consumePending => exact consumePendingStopRequest_effect _ v
  | abandon => exact closePendingTunFd_effect _ v
  | claimTun =>
    simp only [startBody]
    split
    · exact closePendingTunFd_effect _ v
    · exact ⟨rfl,rfl,rfl,fun _ h => h,fun _ h => .inl h⟩
  | startLumine => cases o <;> exact .refl _ v
  | release failed => exact closePendingTunFd_effect _ v
  | report failed => cases failed <;> exact ⟨rfl,rfl,rfl,fun _ h => h,fun _ h => .inl h⟩
  | publish failed =>
    simp only [startBody]
    split <;> exact .refl _ v
  | consumeAgain => exact consumePendingStopRequest_effect _ v
  | caught => exact closePendingTunFd_effect _ v

theorem shutdownBody_effect (r : StopRequest) (v : Service) (b : ShutdownBody) :
    Effect (.stop r) v (shutdownBody r v b).1 := by
  cases b with
  | performCoreShutdown => exact issueCoreStop_effect _ v
  | stopCore shouldStopCore =>
    cases shouldStopCore with
    | false => exact closePendingTunFd_effect _ v
    | true => exact .refl _ v
  | takeTun => exact takeTun_effect _ v
  | _ => exact ⟨rfl,rfl,rfl,fun _ h => h,fun _ h => .inl h⟩

/-- Only the call of `stopVpn` decides on a launch. -/
theorem startBody_ne_launch (n : ℕ) (o : Outcome) (v : Service) (b : StartBody) (l : Launch) :
    (startBody n o v b).2 ≠ .launch l := by
  cases b with
  | startLumine => cases o <;> simp [startBody]
  | report failed => cases failed <;> simp [startBody]
  | claimTun =>
    simp only [startBody]
    split <;> simp
  | publish failed =>
    simp only [startBody]
    split
    · simp
    · cases failed <;> simp
  | consumeAgain =>
    simp only [startBody]
    split <;> simp
  | _ => simp [startBody]

theorem stopVpn_of_stopping (h : v.isStopping = true) :
    stopVpn v = (v,.shutdown ⟨v.starts,true⟩) := by simp [stopVpn,h]

theorem stopVpn_cases (h : v.isStopping = false) :
    stopVpn v = (v,.shell) ∨
      stopVpn v = ({v with pendingStopRequested := true,isStopping := true},
        .shutdown ⟨v.starts,false⟩) := by
  simp only [stopVpn,h,Bool.false_eq_true,if_false]
  split
  · exact .inl rfl
  · exact .inr rfl

theorem startVpn_some (h : startVpn v = some v') :
    v.isStarting = false ∧ v.isStopping = false ∧ v.vpnInterface = none ∧
      v' = {v with
        isStarting := true
        pendingStopRequested := false
        coreStopIssued := false
        starts := v.starts+1} := by
  unfold startVpn at h
  split at h
  · cases h
  · rename_i hfree
    simp only [Bool.or_eq_true,not_or,Bool.not_eq_true,Option.isSome_eq_false_iff,
      Option.isNone_iff_eq_none] at hfree
    exact ⟨hfree.1.1.1.1,hfree.1.1.1.2,hfree.1.2,(Option.some.inj h).symm⟩

end Service

section Steps

variable {s s' : State} {l : Label}

/-- What a step of the two threads can be. -/
inductive Moves (s : State) : Label → State → Prop
  | ignored (hstart : startVpn s.service = none) : Moves s .startVpn s
  | accepted (hcaller : s.caller = .idle) {v : Service} (hstart : startVpn s.service = some v) :
      Moves s .startVpn {s with service := v,caller := .establishing}
  | stopVpn (hcaller : s.caller = .idle) :
      Moves s .stopVpn {s with
        service := (stopVpn s.service).1
        caller := .launching (stopVpn s.service).2}
  | caller {o : Outcome} {s' : State} (hstep : callerStep s o s.caller = some s') :
      Moves s (.caller o) s'
  | main (hcaller : s.caller = .idle) {p : Suspended} {ps : List Suspended}
      (hposted : s.posted = p::ps) :
      Moves s .main {s with posted := ps,queue := s.queue++[p.work]}
  | work {o : Outcome} {w : Work} (hrun : s.running = some w) :
      Moves s (.executor o) (workStep s o w)
  | dispatch {o : Outcome} (hrun : s.running = none) {w : Work} {ws : List Work}
      (hqueue : s.queue = w::ws) : Moves s (.executor o) {s with running := some w,queue := ws}

theorem moves_of_step (h : step s l = some s') : Moves s l s' := by
  cases l with
  | startVpn =>
    simp only [step] at h
    split at h
    · rename_i hcaller
      cases hstart : startVpn s.service with
      | none =>
        rw [hstart] at h
        cases h
        exact .ignored hstart
      | some v =>
        rw [hstart] at h
        cases h
        exact .accepted hcaller hstart
    · cases h
  | stopVpn =>
    simp only [step] at h
    split at h
    · rename_i hcaller
      cases h
      exact .stopVpn hcaller
    · cases h
  | caller o => exact .caller h
  | main =>
    simp only [step] at h
    split at h
    · rename_i hcaller
      cases hposted : s.posted with
      | nil =>
        rw [hposted] at h
        cases h
      | cons p ps =>
        rw [hposted] at h
        cases h
        exact .main hcaller hposted
    · cases h
  | executor o =>
    simp only [step] at h
    cases hrun : s.running with
    | some w =>
      rw [hrun] at h
      cases h
      exact .work hrun
    | none =>
      cases hqueue : s.queue with
      | nil =>
        rw [hrun,hqueue] at h
        cases h
      | cons w ws =>
        rw [hrun,hqueue] at h
        cases h
        exact .dispatch hrun hqueue

end Steps

end LumineVpnService
end Enimul
