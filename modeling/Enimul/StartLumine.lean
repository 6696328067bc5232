import Enimul.Exchange
import Enimul.GFWList

/-! Starting and stopping the core.
A start acquires things one after the other: the log writer of the configuration, a monitor of
the local address, the monitors of the pools, the log writer of the session and the proxy of
the engine. `StopLumine` releases all of them, but only if the core is running. -/
namespace Enimul
namespace StartLumine

open GoSlice GoText GoRun

/-- Where the log goes. The last one is the writer of the app. -/
inductive Writer
  | stdout
  | stderr
  | file (path : Str)
  | session
  deriving DecidableEq, Repr

inductive Method
  | off | selectInterface | dialDetect | custom
  deriving DecidableEq, Repr

structure BindingOption where
  method : Method := .off
  updateInterval : ℤ := 0
  deriving DecidableEq, Repr

/-- The parts of the configuration that acquire something or can fail to load. -/
structure Config where
  logOutput : Str := []
  outboundBinding : BindingOption := {}
  ipPools : List Str := []
  dnsConfig : Exchange.DNSConfig := {}
  fakeTTLRules : Str := []

/-- A pool with the number of the start that has initialised it. It is active from its
initialisation until it is stopped. -/
structure Pool where
  tag : Str
  startedBy : ℕ
  active : Bool
  deriving DecidableEq, Repr

/-- What the program holds. The number of starts is not kept by the program. -/
structure State where
  workingDir : Str
  isRunning : Bool := false
  runtimeLogWriter : Writer := .stdout
  laddrMonitor : Bool := false
  ipPools : List Pool := []
  customProxy : Bool := false
  starts : ℕ := 0
  numbered : ∀ p ∈ ipPools, p.startedBy ≤ starts := by simp

/-- The outcomes of what a start asks of its surroundings. -/
structure Env where
  readConfig : Str → Str → Except String Config
  openFile : Str → Except String Unit
  detectLocalAddr : BindingOption → Except String Unit
  gfwLibs : GFWList.Libs
  embeddedGFWList : Str
  dnsLibs : Exchange.Libs
  buildCalcTTL : Str → Except String Unit
  dupFd : ℤ → Except String ℤ
  startErr : ℤ → Except String Unit

section Load

def setLogWriter (w : Writer) (s : State) : State := {s with runtimeLogWriter := w}

/-- The writer that the configuration names. -/
def outputWriter (out : Str) : Writer :=
  if out = str "stderr" then .stderr
  else if out = [] ∨ out = str "stdout" then .stdout
  else .file out

variable (env : Env)

def openOutput (out : Str) : Except String Unit :=
  match outputWriter out with
  | .file path =>
    match env.openFile path with
    | .error err => .error ("open log file: " ++ err)
    | .ok _ => .ok ()
  | _ => .ok ()

def setLogOutput (out : Str) : Run State Unit := do
  ofExcept (openOutput env out)
  call fun s => ((),setLogWriter (outputWriter out) s)

/-- The methods that look for an address look again at every interval. -/
def BindingOption.startsMonitor (o : BindingOption) : Bool :=
  (o.method = .selectInterface ∨ o.method = .dialDetect) ∧ 0 < o.updateInterval

def localAddr (o : BindingOption) : Except String Unit :=
  match o.method with
  | .off => .ok ()
  | .custom => .ok ()
  | _ => env.detectLocalAddr o

/-- The old monitor is stopped before a new one is started. -/
def setLocalAddr (o : BindingOption) : Run State Unit := do
  ofExcept (localAddr env o)
  call fun s => ((),{s with laddrMonitor := o.startsMonitor})

def stopIPPools (s : State) : State where
  __ := s
  ipPools := s.ipPools.map fun p => {p with active := false}
  numbered := by
    intro p hp
    obtain ⟨q,hq,rfl⟩ := List.mem_map.mp hp
    exact s.numbered q hq

def initIPPools (tags : List Str) (s : State) : State where
  __ := s
  ipPools := tags.map fun tag => ⟨tag,s.starts,true⟩
  numbered := by
    intro p hp
    obtain ⟨tag,-,rfl⟩ := List.mem_map.mp hp
    exact Nat.le_refl _

/-- The rest of loading: the list, the servers and the rules for hops. -/
def loadRest (conf : Config) : Except String Unit := do
  let _ ← GFWList.loadBuiltinGFWList env.gfwLibs env.embeddedGFWList
  let _ ← Exchange.setDNS env.dnsLibs conf.dnsConfig {}
  env.buildCalcTTL conf.fakeTTLRules

def loadConfig (configName : Str) : Run State Unit := do
  let s ← call fun s => (s,s)
  let conf ← ofExcept (env.readConfig s.workingDir configName)
  setLogOutput env conf.logOutput
  setLocalAddr env conf.outboundBinding
  call fun s => ((),initIPPools conf.ipPools (stopIPPools s))
  ofExcept (loadRest env conf)

end Load

section Start

variable (env : Env)

def isSafeConfigName (name : Str) : Bool :=
  name ≠ [] ∧ name.all fun c =>
    (65 ≤ c ∧ c ≤ 90) ∨ (97 ≤ c ∧ c ≤ 122) ∨ (48 ≤ c ∧ c ≤ 57) ∨ c = 95 ∨ c = 45

def setCustomProxy (s : State) : State := {s with customProxy := true}
def clearCustomProxy (s : State) : State := {s with customProxy := false}

/-- Start the engine, which takes over the duplicate of the descriptor. -/
def startEngine (tunFd : ℤ) : Run State Unit :=
  match env.startErr tunFd with
  | .ok _ => call fun s => ((),{s with isRunning := true})
  | .error err => do
    call fun s => ((),clearCustomProxy s)
    fail ("engine start error: " ++ err)

/-- A start that is not refused. -/
def launch (fd : ℤ) (configName : Str) : Run State Unit := do
  withStr "load config error" (loadConfig env configName)
  call fun s => ((),setCustomProxy (setLogWriter .session s))
  let tunFd ← withStr "dup tun fd error" (ofExcept (env.dupFd fd))
  startEngine env tunFd

def State.count (s : State) : State where
  __ := s
  starts := s.starts+1
  numbered p hp := Nat.le_succ_of_le (s.numbered p hp)

/-- The result is an error for a text that is not empty. -/
def startLumine (fd : ℤ) (configName : Str) (s : State) : Except String Unit × State :=
  if s.workingDir = [] then (.error "working directory not set",s.count)
  else if s.isRunning then (.ok (),s.count)
  else if ¬ isSafeConfigName configName then
    (.error ("invalid config name: \"" ++ text configName ++ "\" (only [A-Za-z0-9_-] allowed)"),
      s.count)
  else launch env fd configName s.count

def stopLumine (s : State) : State :=
  if ¬ s.isRunning then s
  else
    let s := stopIPPools (clearCustomProxy s)
    setLogWriter .stdout {s with laddrMonitor := false, isRunning := false}

/-- Nothing that the last start has acquired is left. -/
structure Clean (s : State) : Prop where
  pools : ∀ p ∈ s.ipPools, p.startedBy = s.starts → p.active = false
  monitor : s.laddrMonitor = false
  proxy : s.customProxy = false
  writer : s.runtimeLogWriter = .stdout

theorem stopLumine_clean {s : State} (h : s.isRunning = true) : Clean (stopLumine s) := by
  rw [stopLumine,if_neg (by simp [h])]
  refine ⟨fun p hp _ => ?_,rfl,rfl,rfl⟩
  obtain ⟨q,-,rfl⟩ := List.mem_map.mp hp
  rfl

theorem stopLumine_of_stopped {s : State} (h : s.isRunning = false) : stopLumine s = s := by
  rw [stopLumine,if_pos (by simp [h])]

end Start

section Failure

/-- Nothing is held, pools apart. -/
def Unused (s : State) : Prop :=
  s.laddrMonitor = false ∧ s.customProxy = false ∧ s.runtimeLogWriter = .stdout

/-- The condition under which a start that fails leaves nothing behind. It fails while the
configuration is loaded or before, and up to there nothing is acquired. -/
def Harmless (env : Env) (configName : Str) (s : State) : Prop :=
  if s.workingDir = [] ∨ ¬ isSafeConfigName configName then Unused s
  else
    match env.readConfig s.workingDir configName with
    | .error _ => Unused s
    | .ok conf =>
      match openOutput env conf.logOutput with
      | .error _ => Unused s
      | .ok _ =>
        s.customProxy = false ∧ outputWriter conf.logOutput = .stdout ∧
          match localAddr env conf.outboundBinding with
          | .error _ => s.laddrMonitor = false
          | .ok _ => conf.outboundBinding.startsMonitor = false ∧ conf.ipPools = [] ∧
            (loadRest env conf).toOption = none

variable {env : Env} {s : State}

/-- The pools that are there before a start are not its own. -/
theorem startedBy_ne {p : Pool} (hp : p ∈ s.ipPools) : p.startedBy ≠ s.count.starts :=
  Nat.ne_of_lt (Nat.lt_succ_of_le (s.numbered p hp))

/-- A start that has acquired nothing so far is as clean as what was there before. -/
theorem clean_count : Clean s.count ↔ Unused s := by
  constructor
  · exact fun h => ⟨h.monitor,h.proxy,h.writer⟩
  · exact fun h => ⟨fun p hp hby => absurd hby (startedBy_ne hp),h.1,h.2.1,h.2.2⟩

/-- The state when the pools have been initialised. -/
def State.loaded (conf : Config) (s : State) : State :=
  initIPPools conf.ipPools (stopIPPools
    {setLogWriter (outputWriter conf.logOutput) s with
      laddrMonitor := conf.outboundBinding.startsMonitor})

/-- Where loading stops, and what it has done until then. -/
theorem loadConfig_eq (env : Env) (configName : Str) (s : State) : loadConfig env configName s =
    match env.readConfig s.workingDir configName with
    | .error err => (.error err,s)
    | .ok conf =>
      match openOutput env conf.logOutput with
      | .error err => (.error err,s)
      | .ok _ =>
        match localAddr env conf.outboundBinding with
        | .error err => (.error err,setLogWriter (outputWriter conf.logOutput) s)
        | .ok _ => (loadRest env conf,s.loaded conf) := by
  have hstate : (call fun s => (s,s) : Run State State) s = (.ok s,s) := rfl
  rw [loadConfig,bind_of_ok hstate]
  cases env.readConfig s.workingDir configName with
  | error err => rfl
  | ok conf =>
    have hconf : (ofExcept (.ok conf) : Run State Config) s = (.ok conf,s) := rfl
    rw [bind_of_ok hconf]
    dsimp only
    cases hopen : openOutput env conf.logOutput with
    | error err =>
      have hlog : setLogOutput env conf.logOutput s = (.error err,s) := by
        rw [setLogOutput,hopen]
        rfl
      exact bind_of_error hlog
    | ok _ =>
      have hlog : setLogOutput env conf.logOutput s =
          (.ok (),setLogWriter (outputWriter conf.logOutput) s) := by
        rw [setLogOutput,hopen]
        rfl
      rw [bind_of_ok hlog,setLocalAddr]
      cases localAddr env conf.outboundBinding <;> rfl

theorem launch_of_load_error {configName : Str} {err : String} {s₁ : State}
    (h : loadConfig env configName s = (.error err,s₁)) (fd : ℤ) :
    launch env fd configName s = (.error ("load config error: " ++ err),s₁) := by
  have hload : withStr "load config error" (loadConfig env configName) s =
      (.error ("load config error: " ++ err),s₁) := by
    rw [withStr,h]
    rfl
  exact bind_of_error hload

/-- What follows when the configuration has been loaded. -/
theorem launch_of_load_ok {configName : Str} {s₁ : State}
    (h : loadConfig env configName s = (.ok (),s₁)) (fd : ℤ) :
    launch env fd configName s =
      match env.dupFd fd with
      | .error err =>
        (.error ("dup tun fd error: " ++ err),setCustomProxy (setLogWriter .session s₁))
      | .ok tunFd => startEngine env tunFd (setCustomProxy (setLogWriter .session s₁)) := by
  have hload : withStr "load config error" (loadConfig env configName) s = (.ok (),s₁) := by
    rw [withStr,h]
  have hset : (call fun s => ((),setCustomProxy (setLogWriter .session s)) : Run State Unit) s₁ =
      (.ok (),setCustomProxy (setLogWriter .session s₁)) := rfl
  rw [launch,bind_of_ok hload,bind_of_ok hset]
  cases env.dupFd fd <;> rfl

/-- A start that fails after its configuration has been loaded leaves the log writer. -/
theorem launch_fails_late {configName : Str} {s₁ s₂ : State} {err : String} {fd : ℤ}
    (hload : loadConfig env configName s = (.ok (),s₁))
    (h : launch env fd configName s = (.error err,s₂)) :
    s₂.runtimeLogWriter = .session ∧ s₂.isRunning = s₁.isRunning := by
  rw [launch_of_load_ok hload] at h
  cases hdup : env.dupFd fd with
  | error e =>
    rw [hdup] at h
    cases h
    exact ⟨rfl,rfl⟩
  | ok tunFd =>
    rw [hdup] at h
    dsimp only at h
    rw [startEngine] at h
    cases hstart : env.startErr tunFd with
    | error e =>
      rw [hstart] at h
      cases h
      exact ⟨rfl,rfl⟩
    | ok _ =>
      rw [hstart] at h
      cases h

theorem clean_setLogWriter (w : Writer) :
    Clean (setLogWriter w s.count) ↔
      s.customProxy = false ∧ w = .stdout ∧ s.laddrMonitor = false := by
  constructor
  · exact fun h => ⟨h.proxy,h.writer,h.monitor⟩
  · exact fun h => ⟨fun p hp hby => absurd hby (startedBy_ne hp),h.2.2,h.1,h.2.1⟩

theorem clean_loaded (conf : Config) : Clean (s.loaded conf) ↔
    s.customProxy = false ∧ outputWriter conf.logOutput = .stdout ∧
      conf.outboundBinding.startsMonitor = false ∧ conf.ipPools = [] := by
  constructor
  · intro h
    refine ⟨h.proxy,h.writer,h.monitor,?_⟩
    cases hpools : conf.ipPools with
    | nil => rfl
    | cons tag tags =>
      have hmem : (⟨tag,s.starts,true⟩ : Pool) ∈ (s.loaded conf).ipPools :=
        List.mem_map.mpr ⟨tag,by rw [hpools]; exact List.mem_cons_self,rfl⟩
      cases h.pools _ hmem rfl
  · rintro ⟨hproxy,hwriter,hmonitor,hpools⟩
    refine ⟨fun p hp _ => ?_,hmonitor,hproxy,hwriter⟩
    obtain ⟨tag,htag,-⟩ := List.mem_map.mp hp
    rw [hpools] at htag
    cases htag

/-- A start that is not refused and fails. -/
theorem launch_fails_iff {configName : Str} (hdir : ¬ s.workingDir = [])
    (hname : isSafeConfigName configName = true) {fd : ℤ} {err : String} {s' : State}
    (h : launch env fd configName s.count = (.error err,s')) :
    s'.isRunning = s.isRunning ∧ (Clean s' ↔ Harmless env configName s) := by
  have hload := loadConfig_eq env configName s.count
  have hdir' : s.count.workingDir = s.workingDir := rfl
  rw [Harmless,if_neg (by simp [hdir,hname])]
  rw [hdir'] at hload
  cases hconf : env.readConfig s.workingDir configName with
  | error e =>
    rw [hconf] at hload
    rw [launch_of_load_error hload] at h
    cases h
    exact ⟨rfl,clean_count⟩
  | ok conf =>
    rw [hconf] at hload
    dsimp only at hload ⊢
    cases hopen : openOutput env conf.logOutput with
    | error e =>
      rw [hopen] at hload
      rw [launch_of_load_error hload] at h
      cases h
      exact ⟨rfl,clean_count⟩
    | ok _ =>
      rw [hopen] at hload
      dsimp only at hload ⊢
      cases haddr : localAddr env conf.outboundBinding with
      | error e =>
        rw [haddr] at hload
        rw [launch_of_load_error hload] at h
        cases h
        exact ⟨rfl,clean_setLogWriter _⟩
      | ok _ =>
        rw [haddr] at hload
        dsimp only at hload ⊢
        cases hrest : loadRest env conf with
        | error e =>
          rw [hrest] at hload
          rw [launch_of_load_error hload] at h
          cases h
          refine ⟨rfl,(clean_loaded conf).trans ?_⟩
          simp only [Except.toOption,and_true]
          exact Iff.rfl
        | ok _ =>
          rw [hrest] at hload
          obtain ⟨hwriter,hrunning⟩ := launch_fails_late hload h
          refine ⟨hrunning,iff_of_false ?_ ?_⟩
          · intro hclean
            cases hwriter.symm.trans hclean.writer
          · rintro ⟨-,-,-,-,hnone⟩
            cases hnone

/-- A start that fails leaves the core stopped, and leaves nothing behind exactly if it fails
before it has acquired anything. -/
theorem startLumine_fails_iff (env : Env) (fd : ℤ) (configName : Str) (s : State)
    (hstopped : s.isRunning = false) (err : String) (s' : State)
    (h : startLumine env fd configName s = (.error err,s')) :
    s'.isRunning = false ∧ stopLumine s' = s' ∧ (Clean s' ↔ Harmless env configName s) := by
  have hfails : s'.isRunning = s.isRunning ∧ (Clean s' ↔ Harmless env configName s) := by
    unfold startLumine at h
    split at h
    · rename_i hdir
      cases h
      rw [Harmless,if_pos (.inl hdir)]
      exact ⟨rfl,clean_count⟩
    · rename_i hdir
      split at h
      · cases h
      · split at h
        · rename_i hname
          cases h
          rw [Harmless,if_pos (.inr hname)]
          exact ⟨rfl,clean_count⟩
        · rename_i hname
          exact launch_fails_iff hdir (by simpa using hname) h
  have hrunning : s'.isRunning = false := hfails.1.trans hstopped
  exact ⟨hrunning,stopLumine_of_stopped hrunning,hfails.2⟩

def oneServer : Config := {dnsConfig := {addr := str "192.0.2.1:53"}}

/-- A configuration for one server, and surroundings in which the descriptor is not open. -/
def closedFd : Env where
  readConfig _ _ := .ok oneServer
  openFile _ := .ok ()
  detectLocalAddr _ := .ok ()
  gfwLibs := GFWList.smallLibs
  embeddedGFWList := []
  dnsLibs := ⟨fun _ => true,fun _ => .error "",fun _ => .ok (),fun _ => .ok ()⟩
  buildCalcTTL _ := .ok ()
  dupFd _ := .error "bad file descriptor"
  startErr _ := .ok ()

/-- The same with a file that cannot be read. -/
def missingConfig : Env := {closedFd with readConfig := fun _ _ => .error "no such file"}

theorem startLumine_fails_iff_missing :
    ∃ err s', startLumine missingConfig 3 (str "config") {workingDir := str "d"} = (.error err,s') ∧
      Clean s' := by
  have hfails : startLumine missingConfig 3 (str "config") {workingDir := str "d"} =
      (.error "load config error: no such file",({workingDir := str "d"} : State).count) := rfl
  have hiff := startLumine_fails_iff missingConfig 3 (str "config") {workingDir := str "d"} rfl _ _
    hfails
  exact ⟨_,_,hfails,hiff.2.2.mpr ⟨rfl,rfl,rfl⟩⟩

theorem loadRest_oneServer : loadRest closedFd oneServer = .ok () := by
  have hsome : (loadRest closedFd oneServer).toOption = some () := by decide +kernel
  cases hrest : loadRest closedFd oneServer with
  | error err =>
    rw [hrest] at hsome
    cases hsome
  | ok _ => rfl

/-- A descriptor that cannot be duplicated leaves the proxy and the log writer. -/
theorem startLumine_fails_unclean :
    ∃ s', startLumine closedFd (-1) (str "config") {workingDir := str "d"} =
        (.error "dup tun fd error: bad file descriptor",s') ∧
      s'.isRunning = false ∧ s'.customProxy = true ∧ s'.runtimeLogWriter = .session := by
  have hload (s : State) : loadConfig closedFd (str "config") s = (.ok (),s.loaded oneServer) := by
    rw [loadConfig_eq]
    exact congrArg (·,s.loaded oneServer) loadRest_oneServer
  exact ⟨_,launch_of_load_ok (hload _) (-1),rfl,rfl,rfl⟩

end Failure

end StartLumine
end Enimul
