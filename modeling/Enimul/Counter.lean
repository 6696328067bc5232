import Enimul.Machine
import Enimul.NetIPText

/-! The ids of connections.
`Counter.Next` loads the last id and tries to replace it by the next one, again and again until
nobody else has been faster. The id becomes the tag of the connection in the log. -/
namespace Enimul
namespace Counter

open GoSlice GoText NetIP Machine

def maxConnID : ℕ := 0xFFFFF

/-- The id after `old`, a `uint32`. -/
def successor (old : ℕ) : ℕ :=
  let new := (old+1)%0x100000000
  if new > maxConnID then 1 else new

/-- `F.ConnIDToHex5`. -/
def connIDToHex5 (name : UInt8) (id : ℕ) : Str :=
  [name,91]++(fieldsOf 16 5 id).map digit++[93]

/-- Where a call of `Next` is: at the load, or between it and the swap. Beside the loaded value
stands how many ids had been given out. -/
inductive Phase
  | again
  | loaded (old since : ℕ)
  deriving DecidableEq, Repr

/-- The counter, the calls, and the ids that have been given out. -/
structure State where
  v : ℕ := 0
  phase : ℕ → Phase := fun _ => .again
  given : List ℕ := []

inductive Act
  | load
  | compareAndSwap
  deriving DecidableEq, Repr

/-- A step of one of the callers. One that has its id may call again. -/
def step (s : State) : ℕ × Act → Option State
  | (i,.load) =>
    match s.phase i with
    | .again => some {s with phase := Function.update s.phase i (.loaded s.v s.given.length)}
    | .loaded _ _ => none
  | (i,.compareAndSwap) =>
    match s.phase i with
    | .again => none
    | .loaded old _ =>
      if s.v = old then
        some {s with
          v := successor old
          phase := Function.update s.phase i .again
          given := s.given++[successor old]}
      else some {s with phase := Function.update s.phase i .again}

section Runs

variable {s s' : State} {ls : List (ℕ × Act)} {l : ℕ × Act}

/-- The value of the counter after `n` ids. -/
def after (n : ℕ) : ℕ := if n = 0 then 0 else (n-1)%maxConnID+1

theorem after_succ (n : ℕ) : after (n+1) = n%maxConnID+1 := by
  simp [after]

theorem successor_after (n : ℕ) : successor (after n) = n%maxConnID+1 := by
  simp only [successor,after,maxConnID]
  split_ifs <;> omega

/-- The ids go round, whoever gets them. A value that has been loaded is the one that the counter
had then. -/
structure Inv (s : State) : Prop where
  given : s.given = (List.range s.given.length).map fun k => k%maxConnID+1
  value : s.v = after s.given.length
  loaded : ∀ i old since, s.phase i = .loaded old since → old = after since ∧ since ≤ s.given.length

theorem inv_of_step (h : step s l = some s') (hi : Inv s) : Inv s' := by
  obtain ⟨hgiven,hvalue,hloaded⟩ := hi
  -- a phase that is not the caller's is an old one, and the list has only grown
  have hkeep : ∀ i phase n, s.given.length ≤ n →
      (∀ old since, phase = .loaded old since → old = after since ∧ since ≤ n) →
      ∀ j old since, Function.update s.phase i phase j = .loaded old since →
        old = after since ∧ since ≤ n := by
    intro i phase n hn hphase j old since hj
    by_cases hij : j = i
    · subst hij
      rw [Function.update_self] at hj
      exact hphase old since hj
    · rw [Function.update_of_ne hij] at hj
      exact (hloaded j old since hj).imp_right (·.trans hn)
  obtain ⟨i,act⟩ := l
  cases act with
  | load =>
    simp only [step] at h
    split at h
    · cases h
      refine ⟨hgiven,hvalue,hkeep i _ _ le_rfl ?_⟩
      intro old since heq
      cases heq
      exact ⟨hvalue,le_rfl⟩
    · cases h
  | compareAndSwap =>
    simp only [step] at h
    split at h
    · cases h
    · rename_i old since hphase
      split at h
      · rename_i heq
        cases h
        have hnew : successor old = s.given.length%maxConnID+1 := by
          rw [← heq,hvalue,successor_after]
        refine ⟨?_,?_,?_⟩
        · rw [List.length_append,List.length_singleton,List.range_succ,List.map_append,← hgiven,hnew]
          rfl
        · rw [List.length_append,List.length_singleton,after_succ]
          exact hnew
        · exact hkeep i _ _ (by simp) fun _ _ heq => by cases heq
      · cases h
        exact ⟨hgiven,hvalue,hkeep i _ _ le_rfl fun _ _ heq => by cases heq⟩

theorem inv_of_run (h : run step ls {} = some s) : Inv s :=
  run_keeps (fun _ hi hstep => inv_of_step hstep hi) ⟨rfl,rfl,by simp⟩ h

theorem hexValue_digits {ds : List ℕ} (h : ∀ d ∈ ds, d < 16) :
    (ds.map digit).map hexValue = ds.map some := by
  rw [List.map_map]
  exact List.map_congr_left fun d hd => digit_hex d (h d hd)

/-- The five digits tell the ids apart. -/
theorem connIDToHex5_inj {name : UInt8} {m n : ℕ} (hm : m ≤ maxConnID) (hn : n ≤ maxConnID)
    (h : connIDToHex5 name m = connIDToHex5 name n) : m = n := by
  have hdigits := congrArg (List.map hexValue)
    (List.append_cancel_left (List.append_cancel_right h))
  rw [hexValue_digits fun d hd => fieldsOf_lt (by decide) hd,
    hexValue_digits fun d hd => fieldsOf_lt (by decide) hd] at hdigits
  have hfields := List.map_injective_iff.mpr (Option.some_injective ℕ) hdigits
  simp only [fieldsOf,List.range,List.range.loop,List.map_cons,List.map_nil,List.cons.injEq,and_true]
    at hfields
  norm_num at hfields
  unfold maxConnID at hm hn
  omega

/-- Two callers load the same value, and one of them has to try again. -/
def contended : List (ℕ × Act) :=
  [(0,.load),(1,.load),(1,.compareAndSwap),(0,.compareAndSwap),(0,.load),(0,.compareAndSwap)]

end Runs

end Counter
end Enimul
