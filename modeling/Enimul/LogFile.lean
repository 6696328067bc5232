import Enimul.DoHDial

/-! The log files of a session.
Entries go to lumine.log. When an entry would make it too long, the file becomes lumine.1.log, and
the older files move on by one number, of which the last is given up. The size of the file is
counted beside the file and read again whenever the file is opened. Every file operation may fail,
and most failures are not noticed. -/
namespace Enimul
namespace LogFile

open GoSlice GoText GoRun

def maxLogFileBytes : ℕ := 2^20
def keepLogFiles : ℕ := 3

/-- The names of which a path is joined. -/
abbrev Path := List Str

/-- The working directory, and which file operations fail, by their number. A write that fails has
written some bytes before. -/
structure Host where
  workingDir : Str
  fails : ℕ → Bool
  short : ℕ → ℕ

/-- The variables of the package, the files, and the number of file operations so far. The open
file is known by its path: no file is moved while it is open. -/
structure State where
  logFile : Option Path := none
  logFileSize : ℕ := 0
  logToFile : Bool := true
  files : Path → Option Bytes := fun _ => none
  calls : ℕ := 0

def State.tick (s : State) : State := {s with calls := s.calls+1}

def State.setFile (s : State) (path : Path) (content : Option Bytes) : State :=
  {s with files := Function.update s.files path content}

def State.closed (s : State) : State := {s with logFile := none, logFileSize := 0}

section Operations

variable (host : Host) {α : Type}

def mkdirAll (_dir : Path) : Run State Unit := fun s =>
  if host.fails s.calls then (.error "input/output error",s.tick) else (.ok (),s.tick)

/-- An operation on a file that has to be there. -/
def onFile (path : Path) (f : Bytes → State → α × State) : Run State α := fun s =>
  if host.fails s.calls then (.error "input/output error",s.tick)
  else
    match s.files path with
    | none => (.error "no such file or directory",s.tick)
    | some b => (.ok (f b s.tick).1,(f b s.tick).2)

/-- The size of the file. -/
def stat (path : Path) : Run State ℕ := onFile host path fun b s => (b.length,s)

def remove (path : Path) : Run State Unit := onFile host path fun _ s => ((),s.setFile path none)

def rename (src dst : Path) : Run State Unit :=
  onFile host src fun b s => ((),(s.setFile dst (some b)).setFile src none)

/-- Open a file for appending, and create it if it is not there. -/
def openFile (path : Path) : Run State Path := fun s =>
  if host.fails s.calls then (.error "input/output error",s.tick)
  else (.ok path,s.tick.setFile path (some ((s.files path).getD [])))

/-- The number of bytes that are written and whether the write has failed. -/
def writeFile (f : Path) (b : Bytes) (s : State) : (ℕ × Bool) × State :=
  let n := if host.fails s.calls then min (host.short s.calls) b.length else b.length
  ((n,host.fails s.calls),s.tick.setFile f (some ((s.files f).getD []++b.take n)))

end Operations

section Code

variable (host : Host)

def closeLogFileLocked (s : State) : State := if s.logFile = none then s else s.closed

def setLogFilesEnabled (enabled : Bool) (s : State) : State :=
  if enabled then {s with logToFile := enabled}
  else closeLogFileLocked {s with logToFile := enabled}

def Host.logDir : Path := [host.workingDir,str "logs"]

def ensureLogDirLocked : Run State Path :=
  if host.workingDir = [] then fail "working directory not set"
  else do
    mkdirAll host host.logDir
    pure host.logDir

def baseName : Str := str "lumine.log"

def numberedName (i : ℕ) : Str := str "lumine."++DoHDial.formatInt i++str ".log"

/-- The size keeps its value if the file has no status. -/
def openLogFileLocked (dir : Path) : Run State Unit := do
  let f ← openFile host (dir++[baseName])
  call fun s => ((),{s with logFile := some f})
  call fun s =>
    match stat host f s with
    | (.ok size,s) => ((),{s with logFileSize := size})
    | (.error _,s) => ((),s)

/-- The body of the loop over the numbers. -/
def shift (dir : Path) (i : ℕ) (s : State) : State :=
  let dst := dir++[numberedName i]
  let src := if i = 1 then dir++[baseName] else dir++[numberedName (i-1)]
  match stat host src s with
  | (.error _,s) => s
  | (.ok _,s) => (rename host src dst (if i = keepLogFiles then (remove host dst s).2 else s)).2

/-- The loop from `i` down to 1. -/
def shiftFrom (dir : Path) : ℕ → State → State
  | 0, s => s
  | i+1, s => shiftFrom dir i (shift host dir (i+1) s)

def rotateLogFileLocked (dir : Path) : Run State Unit := do
  call fun s =>
    ((),{shiftFrom host dir keepLogFiles {s with logFile := none} with logFileSize := 0})
  openLogFileLocked host dir

def openIfNil : Run State Unit := fun s =>
  if s.logFile = none then (ensureLogDirLocked host >>= openLogFileLocked host) s else (.ok (),s)

def rotateIfFull (n : ℕ) : Run State Unit := fun s =>
  if s.logFileSize > 0 ∧ s.logFileSize+n > maxLogFileBytes then
    (ensureLogDirLocked host >>= rotateLogFileLocked host) s
  else (.ok (),s)

/-- The write itself. To write to a nil file is an error. -/
def appendEntry (b : Bytes) (s : State) : State :=
  match s.logFile with
  | none => s.closed
  | some f =>
    let r := writeFile host f b s
    if r.1.2 then r.2.closed else {r.2 with logFileSize := r.2.logFileSize+r.1.1}

/-- What is done before a write of `n` bytes. -/
def prepare (n : ℕ) : Run State Unit := do
  openIfNil host
  rotateIfFull host n

def writeSessionLog (b : Bytes) (s : State) : State :=
  if ¬ s.logToFile ∨ b.length = 0 then s
  else ((prepare host b.length >>= fun _ => call fun s => ((),appendEntry host b s)) s).2

def closeSessionLog (s : State) : State := closeLogFileLocked s

/-- What happens to the log. A process that is started again has the files only. -/
inductive Op
  | writeSessionLog (b : Bytes)
  | closeSessionLog
  | setLogFilesEnabled (enabled : Bool)
  | restart

def step (s : State) : Op → State
  | .writeSessionLog b => writeSessionLog host b s
  | .closeSessionLog => closeSessionLog s
  | .setLogFilesEnabled enabled => setLogFilesEnabled enabled s
  | .restart => {files := s.files, calls := s.calls}

def run (ops : List Op) (s : State) : State := ops.foldl (step host) s

/-- The entries that are to be written. There are none while the files are switched off, and an
entry without bytes is not written. -/
def written : Bool → List Op → List Bytes
  | _, [] => []
  | on, .writeSessionLog b::ops =>
    if on ∧ b.length ≠ 0 then b::written on ops else written on ops
  | on, .closeSessionLog::ops => written on ops
  | _, .setLogFilesEnabled enabled::ops => written enabled ops
  | _, .restart::ops => written true ops

theorem written_write {on : Bool} {b : Bytes} (h : on ∧ b.length ≠ 0) :
    written on [.writeSessionLog b] = [b] := by
  rw [written,if_pos h]
  rfl

theorem written_skip {on : Bool} {b : Bytes} (h : ¬ (on ∧ b.length ≠ 0)) :
    written on [.writeSessionLog b] = [] := by
  rw [written,if_neg h]
  rfl

theorem written_cons_write (on : Bool) (b : Bytes) (ops : List Op) :
    written on (.writeSessionLog b::ops) = written on [.writeSessionLog b]++written on ops := by
  by_cases h : on ∧ b.length ≠ 0
  · rw [written_write h,written,if_pos h]
    rfl
  · rw [written_skip h,written,if_neg h]
    rfl

theorem writeSessionLog_skip {b : Bytes} {s : State} (h : ¬ (s.logToFile ∧ b.length ≠ 0)) :
    writeSessionLog host b s = s := by
  rw [writeSessionLog,if_pos]
  tauto

theorem writeSessionLog_on {b : Bytes} {s : State} (h : s.logToFile ∧ b.length ≠ 0) :
    writeSessionLog host b s =
      ((prepare host b.length >>= fun _ => call fun s => ((),appendEntry host b s)) s).2 := by
  rw [writeSessionLog,if_neg]
  tauto

end Code

section Slots

/-- The files from the newest to the oldest. -/
def slotName : ℕ → Str
  | 0 => baseName
  | i+1 => numberedName (i+1)

def slot (dir : Path) (i : ℕ) : Path := dir++[slotName i]

theorem slotName_injective : slotName.Injective := by
  have hne (i : ℕ) : baseName ≠ numberedName (i+1) := by
    intro h
    have hlen := congrArg List.length h
    simp [baseName,numberedName,str] at hlen
  intro i j h
  cases i with
  | zero =>
    cases j with
    | zero => rfl
    | succ j => exact absurd h (hne j)
  | succ i =>
    cases j with
    | zero => exact absurd h.symm (hne i)
    | succ j =>
      apply DoHDial.formatInt_natCast_inj.mp
      simpa [slotName,numberedName] using h

theorem slot_inj {dir : Path} {i j : ℕ} : slot dir i = slot dir j ↔ i = j := by
  simp [slot,slotName_injective.eq_iff]

variable (dir : Path)

/-- A missing file is empty. -/
def content (files : Path → Option Bytes) (i : ℕ) : Bytes := (files (slot dir i)).getD []

/-- The four files, the oldest first. -/
def logText (files : Path → Option Bytes) : Bytes :=
  content dir files 3++content dir files 2++content dir files 1++content dir files 0

/-- The file becomes the next older one. -/
def moved (files : Path → Option Bytes) (i : ℕ) (b : Bytes) : Path → Option Bytes :=
  Function.update (Function.update files (slot dir (i+1)) (some b)) (slot dir i) none

theorem content_update (files : Path → Option Bytes) (i : ℕ) (v : Option Bytes) :
    content dir (Function.update files (slot dir i) v) =
      Function.update (content dir files) i (v.getD []) := by
  funext j
  by_cases h : j = i
  · simp [content,h]
  · simp [content,h,slot_inj]

theorem logText_moved {files : Path → Option Bytes} {i : ℕ} {b : Bytes} (hi : i < keepLogFiles)
    (h : files (slot dir i) = some b) :
    (logText dir (moved dir files i b)).Sublist (logText dir files) := by
  have hb : content dir files i = b := by simp [content,h]
  rw [logText,logText,moved,content_update,content_update]
  match i, hi with
  | 0, _ => simp [← hb]
  | 1, _ => simp [← hb]
  | 2, _ => simp [← hb]

theorem content_created (files : Path → Option Bytes) (i : ℕ) :
    content dir (Function.update files (slot dir i) (some ((files (slot dir i)).getD []))) =
      content dir files := by
  rw [content_update]
  exact Function.update_eq_self i (content dir files)

theorem logText_removed (files : Path → Option Bytes) :
    (logText dir (Function.update files (slot dir keepLogFiles) none)).Sublist
      (logText dir files) := by
  simp [logText,content_update,keepLogFiles]

end Slots

section Steps

variable (host : Host) {α : Type}

theorem shift_succ (dir : Path) (i : ℕ) (s : State) : shift host dir (i+1) s =
    match stat host (slot dir i) s with
    | (.error _,s) => s
    | (.ok _,s) => (rename host (slot dir i) (slot dir (i+1))
        (if i+1 = keepLogFiles then (remove host (slot dir (i+1)) s).2 else s)).2 := by
  cases i with
  | zero => rfl
  | succ i => rfl

/-- What an operation on a file keeps, whether it fails or not. -/
theorem onFile_keeps {I : State → Prop} {path : Path} {f : Bytes → State → α × State} {s : State}
    (htick : I s.tick) (hf : ∀ b, s.files path = some b → I (f b s.tick).2) :
    I (onFile host path f s).2 := by
  rw [onFile]
  split
  · exact htick
  · cases hfile : s.files path with
    | none => exact htick
    | some b => exact hf b hfile

end Steps

section Failures

/-- The files hold a part of what was to be written, in the same order. -/
structure Ordered (dir : Path) (on : Bool) (history : Bytes) (s : State) : Prop where
  enabled : s.logToFile = on
  handle : ∀ f, s.logFile = some f → f = slot dir 0
  text : (logText dir s.files).Sublist history

variable {dir : Path} {on : Bool} {history : Bytes} {s : State}

namespace Ordered

theorem tick (h : Ordered dir on history s) : Ordered dir on history s.tick :=
  ⟨h.enabled,h.handle,h.text⟩

theorem closed (h : Ordered dir on history s) : Ordered dir on history s.closed :=
  ⟨h.enabled,fun _ hf => (nomatch hf),h.text⟩

theorem withFiles {files : Path → Option Bytes} (h : Ordered dir on history s)
    (hsub : (logText dir files).Sublist (logText dir s.files)) :
    Ordered dir on history {s with files := files} :=
  ⟨h.enabled,h.handle,hsub.trans h.text⟩

theorem close (h : Ordered dir on history s) : Ordered dir on history (closeLogFileLocked s) := by
  rw [closeLogFileLocked]
  split
  · exact h
  · exact h.closed

theorem withSize (h : Ordered dir on history s) (n : ℕ) :
    Ordered dir on history {s with logFileSize := n} :=
  ⟨h.enabled,h.handle,h.text⟩

theorem longer (h : Ordered dir on history s) (b : Bytes) : Ordered dir on (history++b) s :=
  ⟨h.enabled,h.handle,h.text.trans (List.sublist_append_left _ _)⟩

variable (host : Host)

theorem stat (h : Ordered dir on history s) (path : Path) :
    Ordered dir on history (LogFile.stat host path s).2 :=
  onFile_keeps host h.tick fun _ _ => h.tick

theorem remove (h : Ordered dir on history s) :
    Ordered dir on history (LogFile.remove host (slot dir keepLogFiles) s).2 :=
  onFile_keeps host h.tick fun _ _ => h.tick.withFiles (logText_removed dir s.files)

theorem rename (h : Ordered dir on history s) {i : ℕ} (hi : i < keepLogFiles) :
    Ordered dir on history (LogFile.rename host (slot dir i) (slot dir (i+1)) s).2 :=
  onFile_keeps host h.tick fun _ hfile => h.tick.withFiles (logText_moved dir hi hfile)

theorem shift (h : Ordered dir on history s) {i : ℕ} (hi : i < keepLogFiles) :
    Ordered dir on history (shift host dir (i+1) s) := by
  have hstat := h.stat host (slot dir i)
  rw [shift_succ]
  cases hs : LogFile.stat host (slot dir i) s with
  | mk r s₁ =>
    rw [hs] at hstat
    cases r with
    | error err => exact hstat
    | ok size =>
      apply rename host _ hi
      split
      · rename_i hlast
        rw [hlast]
        exact hstat.remove host
      · exact hstat

theorem shiftFrom (h : Ordered dir on history s) {n : ℕ} (hn : n ≤ keepLogFiles) :
    Ordered dir on history (shiftFrom host dir n s) := by
  induction n generalizing s with
  | zero => exact h
  | succ n ih => exact ih (h.shift host hn) (Nat.le_of_succ_le hn)

/-- A write leaves a part of the entry behind the rest. -/
theorem appendEntry (h : Ordered dir on history s) (b : Bytes) :
    Ordered dir on (history++b) (appendEntry host b s) := by
  cases hfile : s.logFile with
  | none =>
    rw [LogFile.appendEntry,hfile]
    exact (h.longer b).closed
  | some f =>
    obtain rfl := h.handle f hfile
    have hwritten (n : ℕ) : Ordered dir on (history++b)
        (s.tick.setFile (slot dir 0) (some (content dir s.files 0++b.take n))) := by
      refine ⟨h.enabled,h.handle,?_⟩
      have htext : logText dir (Function.update s.files (slot dir 0)
          (some (content dir s.files 0++b.take n))) = logText dir s.files++b.take n := by
        simp [logText,content_update]
      rw [State.setFile,State.tick,htext]
      exact h.text.append (List.take_sublist n b)
    rw [LogFile.appendEntry,hfile]
    simp only
    split
    · exact (hwritten _).closed
    · exact (hwritten _).withSize _

end Ordered

variable (host : Host)

theorem ensures_ensureLogDirLocked : Ensures (Ordered dir on history) (ensureLogDirLocked host)
    fun d => d = host.logDir := by
  rw [ensureLogDirLocked]
  split
  · exact Ensures.fail _
  · apply Ensures.bind (Q := fun _ => True)
    · intro s h
      rw [mkdirAll]
      split <;> exact ⟨h.tick,fun _ _ => trivial⟩
    · exact fun _ _ => Ensures.pure rfl

theorem ensures_openLogFileLocked : Ensures (Ordered dir on history) (openLogFileLocked host dir)
    fun _ => True := by
  rw [openLogFileLocked]
  apply Ensures.bind (Q := fun f => f = slot dir 0)
  · intro s h
    rw [openFile]
    split
    · exact ⟨h.tick,fun _ hf => (nomatch hf)⟩
    · refine ⟨h.tick.withFiles ?_,fun _ hf => (Except.ok.inj hf).symm⟩
      change (logText dir (Function.update s.files (slot dir 0)
        (some ((s.files (slot dir 0)).getD [])))).Sublist (logText dir s.files)
      rw [logText,content_created]
      exact List.Sublist.refl _
  · rintro f rfl
    apply Ensures.bind (Q := fun _ => True)
    · apply Ensures.call
      exact fun s h => ⟨⟨h.enabled,fun _ hf => (Option.some.inj hf).symm,h.text⟩,trivial⟩
    · intro _ _
      apply Ensures.call
      intro s h
      have hstat := h.stat host (slot dir 0)
      cases hs : stat host (slot dir 0) s with
      | mk r s₁ =>
        rw [hs] at hstat
        cases r with
        | error err => exact ⟨hstat,trivial⟩
        | ok size => exact ⟨hstat.withSize size,trivial⟩

theorem ensures_rotateLogFileLocked : Ensures (Ordered dir on history)
    (rotateLogFileLocked host dir) fun _ => True := by
  rw [rotateLogFileLocked]
  apply Ensures.bind (Q := fun _ => True)
  · apply Ensures.call
    intro s h
    refine ⟨(Ordered.shiftFrom host ?_ le_rfl).withSize 0,trivial⟩
    exact ⟨h.enabled,fun _ hf => (nomatch hf),h.text⟩
  · exact fun _ _ => ensures_openLogFileLocked host

theorem ensures_openIfNil : Ensures (Ordered host.logDir on history) (openIfNil host)
    fun _ => True := by
  intro s h
  rw [openIfNil]
  split
  · apply (ensures_ensureLogDirLocked host).bind _ s h
    rintro dir rfl
    exact ensures_openLogFileLocked host
  · exact ⟨h,fun _ _ => trivial⟩

theorem ensures_rotateIfFull (n : ℕ) : Ensures (Ordered host.logDir on history)
    (rotateIfFull host n) fun _ => True := by
  intro s h
  rw [rotateIfFull]
  split
  · apply (ensures_ensureLogDirLocked host).bind _ s h
    rintro dir rfl
    exact ensures_rotateLogFileLocked host
  · exact ⟨h,fun _ _ => trivial⟩

theorem ensures_prepare (n : ℕ) : Ensures (Ordered host.logDir on history) (prepare host n)
    fun _ => True :=
  (ensures_openIfNil host).bind fun _ _ => ensures_rotateIfFull host n

theorem Ordered.writeSessionLog (h : Ordered host.logDir on history s) (b : Bytes) :
    Ordered host.logDir on (history++(written on [.writeSessionLog b]).flatten)
      (writeSessionLog host b s) := by
  by_cases hwrite : on ∧ b.length ≠ 0
  · rw [written_write hwrite,List.flatten_singleton]
    rw [← h.enabled] at hwrite
    rw [writeSessionLog_on host hwrite]
    exact (ensures_prepare host b.length).bind_call (fun s hs => hs.longer b)
      (fun s hs => hs.appendEntry host b) h
  · rw [written_skip hwrite,List.flatten_nil,List.append_nil]
    rw [← h.enabled] at hwrite
    rwa [writeSessionLog_skip host hwrite]

end Failures

section Runs

variable (host : Host)

/-- What every step keeps holds after every run. -/
theorem run_keeps (P : Bool → List Bytes → State → Prop) (on : Bool) (entries : List Bytes)
    (s : State) (hwrite : ∀ {on entries s} (b : Bytes), P on entries s →
      P on (entries++written on [.writeSessionLog b]) (writeSessionLog host b s))
    (hclose : ∀ {on entries s}, P on entries s → P on entries (closeLogFileLocked s))
    (hset : ∀ {on entries s} (enabled : Bool), P on entries s →
      P enabled entries {s with logToFile := enabled})
    (hrestart : ∀ {on entries s}, P on entries s →
      P true entries {files := s.files, calls := s.calls})
    (h : P on entries s) (ops : List Op) :
    ∃ on', P on' (entries++written on ops) (run host ops s) := by
  induction ops generalizing on entries s with
  | nil => exact ⟨on,by rwa [written,List.append_nil]⟩
  | cons op ops ih =>
    cases op with
    | writeSessionLog b =>
      rw [written_cons_write,← List.append_assoc]
      exact ih _ _ _ (hwrite b h)
    | closeSessionLog => exact ih _ _ _ (hclose h)
    | setLogFilesEnabled enabled =>
      apply ih enabled
      rw [step,setLogFilesEnabled]
      split
      · exact hset enabled h
      · exact hclose (hset enabled h)
    | restart => exact ih _ _ _ (hrestart h)

/-- Whatever fails, the files hold a part of what was to be written, in the same order. -/
theorem run_ordered (ops : List Op) :
    (logText host.logDir (run host ops {}).files).Sublist (written true ops).flatten := by
  have hstart : Ordered host.logDir true ([] : List Bytes).flatten {} :=
    ⟨rfl,fun _ hf => (nomatch hf),.refl _⟩
  obtain ⟨_,h⟩ := run_keeps host
    (fun on entries s => Ordered host.logDir on entries.flatten s) true [] {}
    (fun b h => by simpa using h.writeSessionLog host b)
    (fun h => h.close)
    (fun enabled h => ⟨rfl,h.handle,h.text⟩)
    (fun h => ⟨rfl,fun _ hf => (nomatch hf),h.text⟩)
    hstart ops
  exact h.text

end Runs

end LogFile
end Enimul
