import Enimul.Machine
import Mathlib.Algebra.BigOperators.Fin
import Mathlib.Algebra.Order.BigOperators.Group.Finset

/-! The traffic statistics of the tunnel.
Every connection has a tracker. After each read and write it adds the bytes to two counters of the
manager and to its own, one after the other, while a ticker shows the first of them once a second
and sets it back. -/
namespace Enimul
namespace Statistic

open Machine

inductive Direction
  | upload
  | download
  deriving DecidableEq, Repr

def Direction.other : Direction → Direction
  | .upload => .download
  | .download => .upload

/-- How far a `Read` or `Write` of a tracker is with the bytes that it has moved. Each direction of
a connection is copied by one goroutine. -/
inductive Phase
  | idle
  | moved (size : ℕ)
  | inTemp (size : ℕ)
  | inTotal (size : ℕ)
  deriving DecidableEq, Repr

/-- The next step of `handle`: for each direction in turn it loads the counter, stores the value
where it is shown, and clears the counter. -/
inductive Ticker
  | load (d : Direction)
  | store (d : Direction) (value : ℕ)
  | clear (d : Direction) (value : ℕ)
  deriving DecidableEq, Repr

/-- The manager with the trackers of `n` connections. Beside them stand the bytes that the
connections have moved, those that have ever been shown, those counted since the ticker last
loaded, and those that it has cleared without showing them. -/
structure State (n : ℕ) where
  temp : Direction → ℕ := fun _ => 0
  blip : Direction → ℕ := fun _ => 0
  total : Direction → ℕ := fun _ => 0
  own : Fin n → Direction → ℕ := fun _ _ => 0
  phase : Fin n → Direction → Phase := fun _ _ => .idle
  ticker : Ticker := .load .upload
  moved : Fin n → Direction → ℕ := fun _ _ => 0
  shown : Direction → ℕ := fun _ => 0
  since : Direction → ℕ := fun _ => 0
  lost : Direction → ℕ := fun _ => 0

/-- A connection moves bytes, its tracker adds them to the next counter, or the ticker goes on. -/
inductive Label (n : ℕ)
  | move (i : Fin n) (d : Direction) (size : ℕ)
  | add (i : Fin n) (d : Direction)
  | tick
  deriving DecidableEq, Repr

section Step

variable {n : ℕ}

/-- The value of one connection in one direction becomes `x`. -/
def set {α : Type} (f : Fin n → Direction → α) (i : Fin n) (d : Direction) (x : α) :
    Fin n → Direction → α :=
  Function.update f i (Function.update (f i) d x)

def increase (f : Direction → ℕ) (d : Direction) (size : ℕ) : Direction → ℕ :=
  Function.update f d (f d+size)

/-- `PushUploaded` and `PushDownloaded`, each of two adds, and the add of the tracker. -/
def add (s : State n) (i : Fin n) (d : Direction) : Option (State n) :=
  match s.phase i d with
  | .idle => none
  | .moved size =>
    some {s with
      temp := increase s.temp d size
      since := increase s.since d size
      phase := set s.phase i d (.inTemp size)}
  | .inTemp size =>
    some {s with
      total := increase s.total d size
      phase := set s.phase i d (.inTotal size)}
  | .inTotal size =>
    some {s with
      own := set s.own i d (s.own i d+size)
      phase := set s.phase i d .idle}

/-- `handle`. -/
def tick (s : State n) : State n :=
  match s.ticker with
  | .load d =>
    {s with
      ticker := .store d (s.temp d)
      since := Function.update s.since d 0}
  | .store d value =>
    {s with
      ticker := .clear d value
      blip := Function.update s.blip d value
      shown := increase s.shown d value}
  | .clear d _ =>
    {s with
      ticker := .load d.other
      temp := Function.update s.temp d 0
      lost := increase s.lost d (s.since d)}

def step (s : State n) : Label n → Option (State n)
  | .move i d size =>
    match s.phase i d with
    | .idle =>
      some {s with
        moved := set s.moved i d (s.moved i d+size)
        phase := set s.phase i d (.moved size)}
    | _ => none
  | .add i d => add s i d
  | .tick => some (tick s)

end Step

/-- What of a phase is not yet in the counter that is shown. -/
def Phase.notInTemp : Phase → ℕ
  | .moved size => size
  | _ => 0

def Phase.notInTotal : Phase → ℕ
  | .moved size => size
  | .inTemp size => size
  | _ => 0

def Phase.notOwn : Phase → ℕ
  | .idle => 0
  | .moved size => size
  | .inTemp size => size
  | .inTotal size => size

/-- What has been loaded in a direction and not cleared. -/
def Ticker.loaded (d : Direction) : Ticker → Option ℕ
  | .load _ => none
  | .store d' value => if d' = d then some value else none
  | .clear d' value => if d' = d then some value else none

/-- What stands in the counter although it has been shown. -/
def Ticker.twice (d : Direction) : Ticker → ℕ
  | .clear d' value => if d' = d then value else 0
  | _ => 0

section Runs

variable {n : ℕ} {s s' : State n} {ls : List (Label n)} {l : Label n} {d : Direction}

theorem set_self {α : Type} (f : Fin n → Direction → α) (i : Fin n) (d : Direction) (x : α) :
    set f i d x i d = x := by
  simp [set]

theorem set_of_ne {α : Type} (f : Fin n → Direction → α) {i j : Fin n} {d e : Direction} (x : α)
    (h : j ≠ i ∨ e ≠ d) : set f i d x j e = f j e := by
  by_cases hji : j = i
  · subst hji
    simp [set,h.resolve_left (· rfl)]
  · simp [set,hji]

/-- The sum over the connections changes by what one of them does. -/
theorem sum_set {α : Type} (g : α → ℕ) (f : Fin n → Direction → α) (i : Fin n) (d : Direction)
    (x : α) : (∑ j, g (set f i d x j d))+g (f i d) = (∑ j, g (f j d))+g x := by
  rw [← Finset.add_sum_erase _ (fun j => g (set f i d x j d)) (Finset.mem_univ i),
    ← Finset.add_sum_erase _ (fun j => g (f j d)) (Finset.mem_univ i)]
  have hrest : ∑ j ∈ Finset.univ.erase i, g (set f i d x j d) =
      ∑ j ∈ Finset.univ.erase i, g (f j d) :=
    Finset.sum_congr rfl fun j hj => by rw [set_of_ne f x (.inl (Finset.ne_of_mem_erase hj))]
  rw [hrest,set_self]
  omega

theorem sum_set_of_ne {α : Type} (g : α → ℕ) (f : Fin n → Direction → α) (i : Fin n)
    {d e : Direction} (x : α) (h : e ≠ d) : ∑ j, g (set f i d x j e) = ∑ j, g (f j e) :=
  Finset.sum_congr rfl fun j _ => by rw [set_of_ne f x (.inr h)]

theorem sum_phase (g : Phase → ℕ) {i : Fin n} {d : Direction} {phase : Phase}
    (h : s.phase i d = phase) (new : Phase) :
    (∑ j, g (set s.phase i d new j d))+g phase = (∑ j, g (s.phase j d))+g new := by
  rw [← h]
  exact sum_set g s.phase i d new

/-- Each counter has the bytes that were moved, but for those that are on their way to it; the
counter that is shown has lost what came while the ticker was at it. -/
structure Inv (s : State n) (d : Direction) : Prop where
  own : ∀ i, s.own i d+(s.phase i d).notOwn = s.moved i d
  total : s.total d+∑ i, (s.phase i d).notInTotal = ∑ i, s.moved i d
  temp : s.shown d+s.lost d+s.temp d+∑ i, (s.phase i d).notInTemp =
    (∑ i, s.moved i d)+s.ticker.twice d
  since : ∀ value, s.ticker.loaded d = some value → s.temp d = value+s.since d

theorem inv_of_move {i : Fin n} {e : Direction} {size : ℕ} (h : step s (.move i e size) = some s')
    (d : Direction) (hi : Inv s d) : Inv s' d := by
  obtain ⟨hown,htotal,htemp,hsince⟩ := hi
  simp only [step] at h
  split at h
  · rename_i hphase
    cases h
    rcases eq_or_ne d e with rfl | hde
    · have hmoved := sum_set id s.moved i d (s.moved i d+size)
      simp only [id] at hmoved
      have hnotInTotal : _+0 = _+size := sum_phase Phase.notInTotal hphase (.moved size)
      have hnotInTemp : _+0 = _+size := sum_phase Phase.notInTemp hphase (.moved size)
      refine ⟨fun j => ?_,?_,?_,hsince⟩
      · rcases eq_or_ne j i with rfl | hji
        · have hj := hown j
          simp only [hphase,Phase.notOwn] at hj
          simp only [set_self,Phase.notOwn]
          omega
        · simp only [set_of_ne _ _ (Or.inl hji)]
          exact hown j
      · simp only
        omega
      · simp only
        omega
    · constructor <;> simp only [set_of_ne _ _ (Or.inr hde)] <;> assumption
  · cases h

theorem inv_of_add {i : Fin n} {e : Direction} (h : add s i e = some s') (d : Direction)
    (hi : Inv s d) : Inv s' d := by
  obtain ⟨hown,htotal,htemp,hsince⟩ := hi
  -- the calls of the other connections are where they were
  have hothers : ∀ j phase, j ≠ i →
      s.own j d+(set s.phase i e phase j d).notOwn = s.moved j d := by
    intro j phase hji
    rw [set_of_ne _ _ (.inl hji)]
    exact hown j
  unfold add at h
  rcases eq_or_ne d e with rfl | hde
  · split at h
    · cases h
    · rename_i size hphase
      cases h
      have hnotInTotal : _+size = _+size := sum_phase Phase.notInTotal hphase (.inTemp size)
      have hnotInTemp : _+size = _+0 := sum_phase Phase.notInTemp hphase (.inTemp size)
      refine ⟨fun j => ?_,?_,?_,fun value hvalue => ?_⟩
      · rcases eq_or_ne j i with rfl | hji
        · simpa only [hphase,set_self,Phase.notOwn] using hown j
        · exact hothers j _ hji
      · simp only
        omega
      · simp only [increase,Function.update_self]
        omega
      · have hload := hsince value hvalue
        simp only [increase,Function.update_self]
        omega
    · rename_i size hphase
      cases h
      have hnotInTotal : _+size = _+0 := sum_phase Phase.notInTotal hphase (.inTotal size)
      have hnotInTemp : _+0 = _+0 := sum_phase Phase.notInTemp hphase (.inTotal size)
      refine ⟨fun j => ?_,?_,?_,hsince⟩
      · rcases eq_or_ne j i with rfl | hji
        · simpa only [hphase,set_self,Phase.notOwn] using hown j
        · exact hothers j _ hji
      · simp only [increase,Function.update_self]
        omega
      · simp only
        omega
    · rename_i size hphase
      cases h
      have hnotInTotal : _+0 = _+0 := sum_phase Phase.notInTotal hphase .idle
      have hnotInTemp : _+0 = _+0 := sum_phase Phase.notInTemp hphase .idle
      refine ⟨fun j => ?_,?_,?_,hsince⟩
      · rcases eq_or_ne j i with rfl | hji
        · simpa only [hphase,set_self,Phase.notOwn,Nat.add_zero] using hown j
        · simp only [set_of_ne _ _ (Or.inl hji)]
          exact hown j
      · simp only
        omega
      · simp only
        omega
  · split at h <;> cases h <;> constructor <;>
      simp only [increase,Function.update_of_ne hde,set_of_ne _ _ (Or.inr hde)] <;> assumption

theorem inv_of_tick (d : Direction) (hi : Inv s d) : Inv (tick s) d := by
  obtain ⟨hown,htotal,htemp,hsince⟩ := hi
  unfold tick
  split
  · rename_i e hticker
    rw [hticker] at htemp
    refine ⟨hown,htotal,htemp,?_⟩
    intro value hvalue
    simp only [Ticker.loaded] at hvalue
    split at hvalue
    · rename_i heq
      subst heq
      cases hvalue
      simp
    · cases hvalue
  · rename_i e value hticker
    rw [hticker] at htemp hsince
    rcases eq_or_ne d e with rfl | hde
    · refine ⟨hown,htotal,?_,hsince⟩
      simp only [increase,Function.update_self,Ticker.twice,if_true] at htemp ⊢
      omega
    · refine ⟨hown,htotal,?_,hsince⟩
      simpa only [increase,Function.update_of_ne hde,Ticker.twice,if_neg hde.symm] using htemp
  · rename_i e value hticker
    rw [hticker] at htemp hsince
    rcases eq_or_ne d e with rfl | hde
    · refine ⟨hown,htotal,?_,by simp [Ticker.loaded]⟩
      have hvalue := hsince value (by simp [Ticker.loaded])
      simp only [increase,Function.update_self,Ticker.twice,if_true] at htemp ⊢
      omega
    · refine ⟨hown,htotal,?_,by simp [Ticker.loaded]⟩
      simpa only [increase,Function.update_of_ne hde,Ticker.twice,if_neg hde.symm] using htemp

theorem inv_of_step (h : step s l = some s') (d : Direction) (hi : Inv s d) : Inv s' d := by
  cases l with
  | move i e size => exact inv_of_move h d hi
  | add i e => exact inv_of_add h d hi
  | tick =>
    cases h
    exact inv_of_tick d hi

theorem inv_of_run (h : run step ls {} = some s) (d : Direction) : Inv s d :=
  run_keeps (P := fun s => Inv s d) (fun _ hi hstep => inv_of_step hstep d hi)
    ⟨fun _ => rfl,by simp [Phase.notInTotal],by simp [Phase.notInTemp,Ticker.twice],
      by simp [Ticker.loaded]⟩ h

theorem notInTotal_le (phase : Phase) : phase.notInTotal ≤ phase.notOwn := by
  cases phase <;> simp [Phase.notInTotal,Phase.notOwn]

theorem twice_le (hi : Inv s d) : s.ticker.twice d ≤ s.temp d := by
  have hsince := hi.since
  cases hticker : s.ticker with
  | clear e value =>
    rw [hticker] at hsince
    simp only [Ticker.twice]
    split
    · rename_i heq
      have hvalue := hsince value (if_pos heq)
      omega
    · exact Nat.zero_le _
  | _ => exact Nat.zero_le _

theorem twice_of_loaded {ticker : Ticker} (h : ticker.loaded d = none) : ticker.twice d = 0 := by
  cases ticker with
  | clear e value =>
    simp only [Ticker.loaded] at h
    split at h
    · cases h
    · rename_i hne
      exact if_neg hne
  | _ => rfl

/-- The second connection counts its bytes just after the ticker has loaded. -/
def late : List (Label 2) :=
  [.move 0 .upload 3,.add 0 .upload,.tick,.move 1 .upload 5,.add 1 .upload,.tick,.tick,
    .add 0 .upload,.add 0 .upload,.add 1 .upload,.add 1 .upload]

end Runs

end Statistic
end Enimul
