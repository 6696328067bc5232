import Enimul.LogFile
import Enimul.SegmentedLog

/-! Rotation of the log files.
When no file operation fails, the four files are the segments of a segmented log, the newest one in
lumine.log: a rotation of the files is a rotation of the segments, and a write to the files is a
write to the segments. -/
namespace Enimul
namespace LogFile

open GoSlice GoText GoRun

section Reliable

variable {host : Host} {dir : Path} {s : State} (hok : ∀ n, host.fails n = false)
include hok

theorem onFile_none {α : Type} {path : Path} {f : Bytes → State → α × State}
    (h : s.files path = none) : ∃ err, onFile host path f s = (.error err,s.tick) := by
  simp [onFile,hok,h]

theorem onFile_some {α : Type} {path : Path} {f : Bytes → State → α × State} {b : Bytes}
    (h : s.files path = some b) :
    onFile host path f s = (.ok (f b s.tick).1,(f b s.tick).2) := by
  simp [onFile,hok,h]

theorem remove_files (path : Path) (s : State) :
    (remove host path s).2.files = Function.update s.files path none := by
  cases hfile : s.files path with
  | none =>
    obtain ⟨err,h⟩ := onFile_none hok (f := fun _ s => ((),s.setFile path none)) hfile
    rw [remove,h,← hfile]
    exact (Function.update_eq_self path s.files).symm
  | some b =>
    rw [remove,onFile_some hok hfile]
    rfl

theorem rename_files {src dst : Path} {b : Bytes}
    (h : s.files src = some b) : (rename host src dst s).2.files =
      Function.update (Function.update s.files dst (some b)) src none := by
  rw [rename,onFile_some hok h]
  rfl

/-- A round of the loop moves the file, if it is there. -/
theorem shift_files (i : ℕ) : (shift host dir (i+1) s).files =
    match s.files (slot dir i) with
    | none => s.files
    | some b => moved dir s.files i b := by
  rw [shift_succ]
  cases hfile : s.files (slot dir i) with
  | none =>
    obtain ⟨err,hstat⟩ := onFile_none hok (f := fun b s => (b.length,s)) hfile
    rw [stat,hstat]
    rfl
  | some b =>
    rw [stat,onFile_some hok hfile]
    simp only
    split
    · have hkept : (remove host (slot dir (i+1)) s.tick).2.files (slot dir i) = some b := by
        rw [remove_files hok,Function.update_of_ne (by simp [slot_inj])]
        exact hfile
      rw [rename_files hok hkept,remove_files hok,Function.update_idem]
      rfl
    · exact rename_files hok hfile

/-- The place of a file after a round, if no file is missing between two others. -/
theorem shift_slot {i : ℕ}
    (hstack : s.files (slot dir i) = none → s.files (slot dir (i+1)) = none) (j : ℕ) :
    (shift host dir (i+1) s).files (slot dir j) =
      if j = i+1 then s.files (slot dir i) else if j = i then none else s.files (slot dir j) := by
  rw [shift_files hok]
  cases hfile : s.files (slot dir i) with
  | none =>
    simp only
    split
    · rename_i hj
      rw [hj,hstack hfile]
    · split
      · rename_i hj
        rw [hj,hfile]
      · rfl
  | some b =>
    simp only [moved,Function.update_apply,slot_inj]
    by_cases hj : j = i
    · simp [hj]
    · simp [hj]

/-- The loop moves every file by one. -/
theorem shiftFrom_slot {n : ℕ}
    (hstack : ∀ j < n, s.files (slot dir j) = none → s.files (slot dir (j+1)) = none) :
    (0 < n → (shiftFrom host dir n s).files (slot dir 0) = none) ∧
    (∀ j < n, (shiftFrom host dir n s).files (slot dir (j+1)) = s.files (slot dir j)) ∧
    ∀ j, n < j → (shiftFrom host dir n s).files (slot dir j) = s.files (slot dir j) := by
  induction n generalizing s with
  | zero => exact ⟨fun h => absurd h (Nat.lt_irrefl 0),fun j hj => absurd hj (Nat.not_lt_zero j),
      fun _ _ => rfl⟩
  | succ n ih =>
    have hslot := shift_slot hok (hstack n (Nat.lt_succ_self n))
    have hstack' : ∀ j < n, (shift host dir (n+1) s).files (slot dir j) = none →
        (shift host dir (n+1) s).files (slot dir (j+1)) = none := by
      intro j hj hnone
      rw [hslot,if_neg (by omega)] at hnone ⊢
      split
      · rfl
      · rw [if_neg (by omega)] at hnone
        exact hstack j (by omega) hnone
    obtain ⟨hfirst,hmoved,hrest⟩ := ih hstack'
    refine ⟨fun _ => ?_,fun j hj => ?_,fun j hj => ?_⟩
    · rw [shiftFrom]
      cases n with
      | zero => exact (hslot 0).trans (by simp)
      | succ n => exact hfirst (Nat.succ_pos n)
    · rw [shiftFrom]
      rcases Nat.lt_succ_iff_lt_or_eq.mp hj with hj | rfl
      · rw [hmoved j hj,hslot,if_neg (by omega),if_neg (by omega)]
      · rw [hrest _ (Nat.lt_succ_self j),hslot,if_pos rfl]
    · rw [shiftFrom,hrest j (by omega),hslot,if_neg (by omega),if_neg (by omega)]

end Reliable

section Refinement

open SegmentedLog

/-- The segments of the log are in the files, and the size that is counted is the right one. -/
structure Holds (dir : Path) (gs : List (List Bytes)) (s : State) : Prop where
  files : ∀ i ≤ keepLogFiles, s.files (slot dir i) = gs[i]?.map List.flatten
  handle : ∀ f, s.logFile = some f → f = slot dir 0 ∧ gs ≠ [] ∧
    s.logFileSize = total List.length (gs.headD [])

variable {host : Host} {dir : Path} {s : State} {gs : List (List Bytes)}

theorem total_length (g : List Bytes) : total List.length g = g.flatten.length :=
  List.length_flatten.symm

theorem Holds.content_eq (h : Holds dir gs s) {i : ℕ} (hi : i ≤ keepLogFiles) :
    content dir s.files i = (gs[i]?.getD []).flatten := by
  rw [content,h.files i hi]
  cases gs[i]? with
  | none => rfl
  | some g => rfl

theorem Holds.tick (h : Holds dir gs s) : Holds dir gs s.tick := ⟨h.files,h.handle⟩

theorem Holds.stacked (h : Holds dir gs s) : ∀ j < keepLogFiles,
    s.files (slot dir j) = none → s.files (slot dir (j+1)) = none := by
  intro j hj hnone
  rw [h.files j hj.le,Option.map_eq_none_iff,List.getElem?_eq_none_iff] at hnone
  rw [h.files (j+1) hj,List.getElem?_eq_none (by omega)]
  rfl

theorem holds_cons {g : List Bytes} (hhead : s.files (slot dir 0) = some g.flatten)
    (hrest : ∀ i < keepLogFiles, s.files (slot dir (i+1)) = gs[i]?.map List.flatten)
    (hfile : ∀ f, s.logFile = some f → f = slot dir 0)
    (hsize : s.logFileSize = total List.length g) : Holds dir (g::gs) s := by
  refine ⟨?_,fun f hf => ⟨hfile f hf,List.cons_ne_nil g gs,hsize⟩⟩
  intro i hi
  cases i with
  | zero => exact hhead
  | succ i => exact hrest i hi

theorem update_slot_succ (files : Path → Option Bytes) (v : Option Bytes) (i : ℕ) :
    Function.update files (slot dir 0) v (slot dir (i+1)) = files (slot dir (i+1)) := by
  apply Function.update_of_ne
  simp [slot_inj]

/-- The state after the file is opened. -/
def State.opened (dir : Path) (s : State) : State where
  logFile := some (slot dir 0)
  logFileSize := (content dir s.files 0).length
  logToFile := s.logToFile
  files := Function.update s.files (slot dir 0) (some (content dir s.files 0))
  calls := s.calls+2

/-- Opening the log finds the size of the newest segment. -/
theorem holds_opened {g : List Bytes} (hhead : content dir s.files 0 = g.flatten)
    (hrest : ∀ i < keepLogFiles, s.files (slot dir (i+1)) = gs[i]?.map List.flatten) :
    Holds dir (g::gs) (s.opened dir) := by
  apply holds_cons
  · rw [← hhead]
    exact Function.update_self _ _ _
  · exact fun i hi => (update_slot_succ _ _ i).trans (hrest i hi)
  · exact fun f hf => (Option.some.inj hf).symm
  · rw [total_length,← hhead]
    rfl

theorem Holds.opened (h : Holds dir gs s) : Holds dir (begun gs) (s.opened dir) := by
  apply holds_opened
  · rw [h.content_eq (Nat.zero_le _)]
    cases gs <;> rfl
  · intro i hi
    rw [h.files (i+1) hi,List.getElem?_tail]

end Refinement

section Writes

open SegmentedLog

variable {host : Host} {dir : Path} {s : State} {gs : List (List Bytes)}
  (hok : ∀ n, host.fails n = false)
include hok

theorem openLogFileLocked_run (dir : Path) (s : State) :
    openLogFileLocked host dir s = (.ok (),s.opened dir) := by
  have hopen : openFile host (dir++[baseName]) s =
      (.ok (slot dir 0),s.tick.setFile (slot dir 0) (some (content dir s.files 0))) := by
    rw [openFile,if_neg (by simp [hok])]
    rfl
  rw [openLogFileLocked,bind_of_ok hopen]
  simp only [call,bind,andThen,stat]
  rw [onFile_some hok (b := content dir s.files 0) (by simp [State.setFile])]
  rfl

/-- A rotation of the files is a rotation of the segments. -/
theorem rotateLogFileLocked_holds (h : Holds dir gs s) :
    ∃ s', rotateLogFileLocked host dir s = (.ok (),s') ∧ s'.logFile = some (slot dir 0) ∧
      Holds dir (rotate keepLogFiles gs) s' := by
  obtain ⟨hfirst,hmoved,-⟩ := shiftFrom_slot (s := {s with logFile := none}) hok h.stacked
  refine ⟨_,openLogFileLocked_run hok dir _,rfl,holds_opened ?_ ?_⟩
  · change ((shiftFrom host dir keepLogFiles {s with logFile := none}).files (slot dir 0)).getD [] =
      []
    rw [hfirst (by decide)]
    rfl
  · intro i hi
    rw [List.getElem?_take_of_lt hi,← h.files i hi.le]
    exact hmoved i hi

theorem Holds.appendEntry (h : Holds dir gs s) (hfile : s.logFile = some (slot dir 0)) (b : Bytes) :
    Holds dir (push b gs) (appendEntry host b s) := by
  obtain ⟨-,hne,hsize⟩ := h.handle _ hfile
  have happend : LogFile.appendEntry host b s =
      {s.tick.setFile (slot dir 0) (some (content dir s.files 0++b)) with
        logFileSize := s.logFileSize+b.length} := by
    simp [LogFile.appendEntry,hfile,writeFile,hok,State.setFile,State.tick,content]
  rw [happend]
  cases gs with
  | nil => exact absurd rfl hne
  | cons g gs =>
    apply holds_cons
    · refine (Function.update_self _ _ _).trans ?_
      rw [h.content_eq (Nat.zero_le _)]
      simp
    · exact fun i hi => (update_slot_succ _ _ i).trans (h.files (i+1) hi)
    · exact fun f hf => (h.handle f hf).1
    · rw [total_concat]
      exact congrArg (· + b.length) hsize

variable (hdir : host.workingDir ≠ [])
include hdir

theorem ensureLogDirLocked_run (s : State) :
    ensureLogDirLocked host s = (.ok host.logDir,s.tick) := by
  have hmkdir : mkdirAll host host.logDir s = (.ok (),s.tick) := by
    rw [mkdirAll,if_neg (by simp [hok])]
  rw [ensureLogDirLocked,if_neg hdir,bind_of_ok hmkdir]
  rfl

theorem openIfNil_holds (h : Holds host.logDir gs s) :
    ∃ s', openIfNil host s = (.ok (),s') ∧
      s'.logFile = some (slot host.logDir 0) ∧ Holds host.logDir (begun gs) s' := by
  rw [openIfNil]
  split
  · rw [bind_of_ok (ensureLogDirLocked_run hok hdir s),openLogFileLocked_run hok]
    exact ⟨_,rfl,rfl,h.tick.opened⟩
  · rename_i hopen
    obtain ⟨f,hf⟩ := Option.ne_none_iff_exists'.mp hopen
    obtain ⟨rfl,hne,-⟩ := h.handle f hf
    exact ⟨s,rfl,hf,by rwa [begun_of_ne_nil hne]⟩

theorem prepare_holds (h : Holds host.logDir gs s) (n : ℕ) :
    ∃ s', prepare host n s = (.ok (),s') ∧
      s'.logFile = some (slot host.logDir 0) ∧
      Holds host.logDir (makeRoom List.length maxLogFileBytes keepLogFiles n (begun gs)) s' := by
  obtain ⟨s₁,hopen,hfile,hs₁⟩ := openIfNil_holds hok hdir h
  rw [prepare,bind_of_ok hopen,rotateIfFull,(hs₁.handle _ hfile).2.2,makeRoom]
  split
  · rw [bind_of_ok (ensureLogDirLocked_run hok hdir s₁)]
    exact rotateLogFileLocked_holds hok hs₁.tick
  · exact ⟨s₁,rfl,hfile,hs₁⟩

/-- A write to the files is a write to the segments. -/
theorem Holds.writeSessionLog (h : Holds host.logDir gs s) {b : Bytes}
    (hwrite : s.logToFile ∧ b.length ≠ 0) :
    Holds host.logDir (write List.length maxLogFileBytes keepLogFiles b gs)
      (writeSessionLog host b s) := by
  obtain ⟨s',hprepare,hfile,hs'⟩ := prepare_holds hok hdir h b.length
  rw [writeSessionLog_on host hwrite,bind_of_ok hprepare,← write_begun]
  exact hs'.appendEntry hok hfile b

end Writes

section History

open SegmentedLog

variable {host : Host} {s : State} {gs : List (List Bytes)}

/-- What the entries so far have left in the files. -/
structure Recorded (host : Host) (on : Bool) (entries : List Bytes) (s : State) : Prop where
  ordered : Ordered host.logDir on entries.flatten s
  holds : ∃ gs, Records List.length maxLogFileBytes keepLogFiles entries gs ∧
    Holds host.logDir gs s

variable {on : Bool} {entries : List Bytes}

theorem Recorded.write (hok : ∀ n, host.fails n = false) (hdir : host.workingDir ≠ [])
    (h : Recorded host on entries s) (b : Bytes) :
    Recorded host on (entries++written on [.writeSessionLog b]) (writeSessionLog host b s) := by
  obtain ⟨gs,hrecords,hholds⟩ := h.holds
  refine ⟨by simpa using h.ordered.writeSessionLog host b,?_⟩
  by_cases hwrite : on ∧ b.length ≠ 0
  · rw [written_write hwrite]
    rw [← h.ordered.enabled] at hwrite
    exact ⟨_,hrecords.write (Nat.pos_of_ne_zero hwrite.2),hholds.writeSessionLog hok hdir hwrite⟩
  · rw [written_skip hwrite,List.append_nil]
    rw [← h.ordered.enabled] at hwrite
    rw [writeSessionLog_skip host hwrite]
    exact ⟨gs,hrecords,hholds⟩

theorem Recorded.of_closed (h : Recorded host on entries s) {s' : State} {on' : Bool}
    (henabled : s'.logToFile = on') (hfile : s'.logFile = none) (hfiles : s'.files = s.files) :
    Recorded host on' entries s' := by
  obtain ⟨gs,hrecords,hholds⟩ := h.holds
  refine ⟨⟨henabled,by simp [hfile],by simpa [hfiles] using h.ordered.text⟩,gs,hrecords,?_⟩
  exact ⟨by simpa [hfiles] using hholds.files,by simp [hfile]⟩

theorem recorded_run (host : Host) (hok : ∀ n, host.fails n = false) (hdir : host.workingDir ≠ [])
    (ops : List Op) : ∃ on, Recorded host on (written true ops) (run host ops {}) := by
  have hstart : Recorded host true [] {} :=
    ⟨⟨rfl,by simp,.refl _⟩,[],Records.start,by simp,by simp⟩
  refine run_keeps host (Recorded host) true [] {} (fun b h => h.write hok hdir b) ?_ ?_ ?_ hstart
    ops
  · intro on entries s h
    rw [closeLogFileLocked]
    split
    · exact h
    · exact h.of_closed h.ordered.enabled rfl rfl
  · intro on entries s enabled h
    obtain ⟨gs,hrecords,hholds⟩ := h.holds
    exact ⟨⟨rfl,h.ordered.handle,h.ordered.text⟩,gs,hrecords,hholds.files,hholds.handle⟩
  · exact fun h => h.of_closed rfl rfl rfl

/-- The newest entry is always at the end of lumine.log. -/
theorem Recorded.newest (hok : ∀ n, host.fails n = false) (hdir : host.workingDir ≠ [])
    (h : Recorded host on entries s) {b : Bytes} (hwrite : on ∧ b.length ≠ 0) :
    b <:+ content host.logDir (writeSessionLog host b s).files 0 := by
  obtain ⟨gs,-,hholds⟩ := h.holds
  rw [← h.ordered.enabled] at hwrite
  have hafter := hholds.writeSessionLog hok hdir hwrite
  obtain ⟨g,rest,heq⟩ := write_eq_cons List.length maxLogFileBytes keepLogFiles b gs
  rw [heq] at hafter
  rw [hafter.content_eq (Nat.zero_le _)]
  exact ⟨g.flatten,by simp⟩

/-- Nothing is lost before there is a lumine.3.log. -/
theorem Recorded.complete (h : Recorded host on entries s)
    (hmissing : s.files (slot host.logDir keepLogFiles) = none) :
    logText host.logDir s.files = entries.flatten := by
  obtain ⟨gs,hrecords,hholds⟩ := h.holds
  rw [hholds.files _ le_rfl,Option.map_eq_none_iff,List.getElem?_eq_none_iff] at hmissing
  rw [← hrecords.all hmissing,kept_eq_of_length_le hrecords.length_le,logText]
  simp only [List.flatten_append]
  rw [hholds.content_eq (by decide),hholds.content_eq (by decide),hholds.content_eq (by decide),
    hholds.content_eq (by decide)]

/-- The size that is counted does not overflow with the next entry. -/
theorem Recorded.size_lt (h : Recorded host on entries s)
    (hentries : ∀ b ∈ entries, b.length < 2^62) {f : Path} (hfile : s.logFile = some f)
    {b : Bytes} (hb : b.length < 2^62) : s.logFileSize+b.length < 2^63 := by
  obtain ⟨gs,hrecords,hholds⟩ := h.holds
  obtain ⟨-,hne,hsize⟩ := hholds.handle f hfile
  cases gs with
  | nil => exact absurd rfl hne
  | cons g gs =>
    have hg : total List.length g < 2^62 := by
      rcases hrecords.within g List.mem_cons_self with hsmall | ⟨x,rfl⟩
      · exact hsmall.trans_lt (by decide)
      · rw [total_length,List.flatten_singleton]
        exact hentries x (hrecords.suffix.subset (by simp))
    rw [hsize,List.headD_cons]
    omega

theorem writeSessionLog_unset (hdir : host.workingDir = []) (hfile : s.logFile = none)
    (b : Bytes) : writeSessionLog host b s = s := by
  rw [writeSessionLog]
  split
  · rfl
  · have hopen : openIfNil host s = (.error "working directory not set",s) := by
      rw [openIfNil,if_pos hfile,ensureLogDirLocked,if_pos hdir]
      rfl
    have hprepare : prepare host b.length s = (.error "working directory not set",s) :=
      bind_of_error hopen
    rw [bind_of_error hprepare]

/-- Without a working directory there are no files. -/
theorem run_unset (hdir : host.workingDir = []) (ops : List Op) :
    (run host ops {}).files = fun _ => none := by
  have hwrite {s : State} (b : Bytes) (h : s.logFile = none ∧ s.files = fun _ => none) :
      (writeSessionLog host b s).logFile = none ∧
        (writeSessionLog host b s).files = fun _ => none := by
    rwa [writeSessionLog_unset hdir h.1]
  have hclose {s : State} (h : s.logFile = none ∧ s.files = fun _ => none) :
      (closeLogFileLocked s).logFile = none ∧ (closeLogFileLocked s).files = fun _ => none := by
    rwa [closeLogFileLocked,if_pos h.1]
  obtain ⟨_,h⟩ := run_keeps host (fun _ _ s => s.logFile = none ∧ s.files = fun _ => none)
    true [] {} hwrite hclose (fun _ h => h) (fun h => ⟨rfl,h.2⟩) ⟨rfl,rfl⟩ ops
  exact h.2

/-- Every file operation succeeds. -/
def reliable (dir : Str) : Host where
  workingDir := dir
  fails _ := false
  short _ := 0

/-- The text of a file in the directory of the logs. A missing file is empty. -/
def fileText (host : Host) (name : Str) (s : State) : Bytes :=
  (s.files (host.logDir++[name])).getD []

/-- The file has these entries one after the other, and is small unless there is only one. -/
def Stores (host : Host) (name : Str) (entries : List Bytes) (s : State) : Prop :=
  fileText host name s = entries.flatten ∧ (entries.flatten.length ≤ 2^20 ∨ ∃ b, entries = [b])

theorem stores_slot (h : Holds host.logDir gs s)
    (hwithin : ∀ g ∈ gs, Within List.length maxLogFileBytes g) {i : ℕ} (hi : i ≤ keepLogFiles) :
    Stores host (slotName i) (gs[i]?.getD []) s := by
  refine ⟨h.content_eq hi,?_⟩
  cases hg : gs[i]? with
  | none => exact Or.inl (Nat.zero_le _)
  | some g =>
    rw [Option.getD_some,← total_length]
    exact hwithin g (List.mem_of_getElem? hg)

theorem stores_run (dir : Str) (ops : List Op) : ∃ lost e₃ e₂ e₁ e₀ : List Bytes,
    written true ops = lost++(e₃++e₂++e₁++e₀) ∧
    Stores (reliable dir) (slotName 3) e₃ (run (reliable dir) ops {}) ∧
    Stores (reliable dir) (slotName 2) e₂ (run (reliable dir) ops {}) ∧
    Stores (reliable dir) (slotName 1) e₁ (run (reliable dir) ops {}) ∧
    Stores (reliable dir) (slotName 0) e₀ (run (reliable dir) ops {}) := by
  by_cases hdir : dir = []
  · have hempty (name : Str) : Stores (reliable dir) name [] (run (reliable dir) ops {}) := by
      refine ⟨?_,Or.inl (Nat.zero_le _)⟩
      rw [fileText,run_unset hdir]
      rfl
    exact ⟨_,[],[],[],[],(List.append_nil _).symm,hempty _,hempty _,hempty _,hempty _⟩
  · obtain ⟨_,h⟩ := recorded_run (reliable dir) (fun _ => rfl) hdir ops
    obtain ⟨gs,hrecords,hholds⟩ := h.holds
    obtain ⟨lost,hlost⟩ := hrecords.suffix
    have hstores {i : ℕ} (hi : i ≤ keepLogFiles) := stores_slot hholds hrecords.within hi
    rw [kept_eq_of_length_le hrecords.length_le] at hlost
    exact ⟨lost,_,_,_,_,hlost.symm,hstores (by decide),hstores (by decide),hstores (by decide),
      hstores (by decide)⟩

/-- The files hold the last entries. No entry is spread over two files, and a file is longer than
the limit only if it has a single entry. -/
theorem logs_suffix (dir : Str) (ops : List Op) : ∃ lost e₃ e₂ e₁ e₀ : List Bytes,
    written true ops = lost++(e₃++e₂++e₁++e₀) ∧
    Stores (reliable dir) (str "lumine.3.log") e₃ (run (reliable dir) ops {}) ∧
    Stores (reliable dir) (str "lumine.2.log") e₂ (run (reliable dir) ops {}) ∧
    Stores (reliable dir) (str "lumine.1.log") e₁ (run (reliable dir) ops {}) ∧
    Stores (reliable dir) (str "lumine.log") e₀ (run (reliable dir) ops {}) ∧
    fileText (reliable dir) (str "lumine.3.log") (run (reliable dir) ops {})++
      fileText (reliable dir) (str "lumine.2.log") (run (reliable dir) ops {})++
      fileText (reliable dir) (str "lumine.1.log") (run (reliable dir) ops {})++
      fileText (reliable dir) (str "lumine.log") (run (reliable dir) ops {}) <:+
        (written true ops).flatten := by
  obtain ⟨lost,e₃,e₂,e₁,e₀,hsplit,h₃,h₂,h₁,h₀⟩ := stores_run dir ops
  have hnames : slotName 3 = str "lumine.3.log" ∧ slotName 2 = str "lumine.2.log" ∧
      slotName 1 = str "lumine.1.log" ∧ slotName 0 = str "lumine.log" := by decide
  rw [hnames.1] at h₃
  rw [hnames.2.1] at h₂
  rw [hnames.2.2.1] at h₁
  rw [hnames.2.2.2] at h₀
  refine ⟨lost,e₃,e₂,e₁,e₀,hsplit,h₃,h₂,h₁,h₀,?_⟩
  rw [h₃.1,h₂.1,h₁.1,h₀.1,hsplit]
  exact ⟨lost.flatten,by simp⟩

end History

end LogFile
end Enimul
