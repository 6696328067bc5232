import Enimul.Machine
import Mathlib.Logic.Function.Basic

/-! Package `singleflight`: calls of `Group.Do` by any number of goroutines.
A call of `Do` has a number. The first call for a key leads: it runs the function, and the
record that the others wait on goes by its number. A label is one section of a call that holds
the lock of the group, or one that no other call can see the inside of. -/
namespace Enimul
namespace SingleFlight

open Machine

/-- How the function that a call was given ends. -/
inductive FnEnd (V ε : Type)
  | returned (val : V) (err : Option ε)
  | panicked (value : ε)
  | goexit

/-- The type `call`; `done` is its wait group, `ended` its value and error. -/
structure Call (V ε : Type) where
  done : Bool := false
  ended : Option (FnEnd V ε) := none
  dups : ℕ := 0

/-- Where a call of `Do` stands. It ends as the function of the call `c` has ended; when that
returned, `shared` is the third result. -/
inductive Phase (K V ε : Type)
  | outside
  | running (key : K)
  | ending (key : K)
  | released (key : K)
  | waiting (key : K) (c : ℕ)
  | finished (key : K) (c : ℕ) (r : FnEnd V ε) (shared : Bool)

structure Group (K V ε : Type) where
  m : K → Option ℕ := fun _ => none
  calls : ℕ → Call V ε := fun _ => {}
  phase : ℕ → Phase K V ε := fun _ => .outside

inductive Label (K V ε : Type)
  | enter (i : ℕ) (key : K)
  | fnEnd (i : ℕ) (r : FnEnd V ε)
  | release (i : ℕ)
  | leave (i : ℕ)

variable {K V ε : Type} [DecidableEq K]

namespace Group

/-- `Do` up to where it waits for another call or starts the function. -/
def enter (g : Group K V ε) (i : ℕ) (key : K) : Group K V ε :=
  match g.m key with
  | some c =>
    {g with
      calls := Function.update g.calls c {g.calls c with dups := (g.calls c).dups+1}
      phase := Function.update g.phase i (.waiting key c)}
  | none =>
    {g with
      m := Function.update g.m key (some i)
      phase := Function.update g.phase i (.running key)}

def fnEnd (g : Group K V ε) (i : ℕ) (key : K) (r : FnEnd V ε) : Group K V ε :=
  {g with
    calls := Function.update g.calls i {g.calls i with ended := some r}
    phase := Function.update g.phase i (.ending key)}

/-- The deferred part of `doCall`. -/
def release (g : Group K V ε) (i : ℕ) (key : K) : Group K V ε :=
  {m := if g.m key = some i then Function.update g.m key none else g.m
   calls := Function.update g.calls i {g.calls i with done := true}
   phase := Function.update g.phase i (.released key)}

def leave (g : Group K V ε) (i : ℕ) (key : K) (c : ℕ) (shared : Bool) : Option (Group K V ε) :=
  (g.calls c).ended.map fun r =>
    {g with phase := Function.update g.phase i (.finished key c r shared)}

end Group

def step (g : Group K V ε) : Label K V ε → Option (Group K V ε)
  | .enter i key =>
    match g.phase i with
    | .outside => some (g.enter i key)
    | _ => none
  | .fnEnd i r =>
    match g.phase i with
    | .running key => some (g.fnEnd i key r)
    | _ => none
  | .release i =>
    match g.phase i with
    | .ending key => some (g.release i key)
    | _ => none
  | .leave i =>
    match g.phase i with
    | .released key => g.leave i key i (0 < (g.calls i).dups)
    | .waiting key c => if (g.calls c).done then g.leave i key c true else none
    | _ => none

section Inversion

variable {g g' : Group K V ε} {l : Label K V ε}

/-- All the steps of a group. -/
inductive Steps (g : Group K V ε) : Label K V ε → Group K V ε → Prop
  | join {i : ℕ} {key : K} {c : ℕ} (hphase : g.phase i = .outside) (hm : g.m key = some c) :
      Steps g (.enter i key) {g with
        calls := Function.update g.calls c {g.calls c with dups := (g.calls c).dups+1}
        phase := Function.update g.phase i (.waiting key c)}
  | lead {i : ℕ} {key : K} (hphase : g.phase i = .outside) (hm : g.m key = none) :
      Steps g (.enter i key) {g with
        m := Function.update g.m key (some i)
        phase := Function.update g.phase i (.running key)}
  | fnEnd {i : ℕ} {key : K} {r : FnEnd V ε} (hphase : g.phase i = .running key) :
      Steps g (.fnEnd i r) (g.fnEnd i key r)
  | release {i : ℕ} {key : K} (hphase : g.phase i = .ending key) :
      Steps g (.release i) (g.release i key)
  | leaveLeader {i : ℕ} {key : K} {r : FnEnd V ε} (hphase : g.phase i = .released key)
      (hended : (g.calls i).ended = some r) :
      Steps g (.leave i) {g with
        phase := Function.update g.phase i (.finished key i r (0 < (g.calls i).dups))}
  | leaveWaiter {i : ℕ} {key : K} {c : ℕ} {r : FnEnd V ε} (hphase : g.phase i = .waiting key c)
      (hdone : (g.calls c).done = true) (hended : (g.calls c).ended = some r) :
      Steps g (.leave i) {g with phase := Function.update g.phase i (.finished key c r true)}

theorem steps_of_step (h : step g l = some g') : Steps g l g' := by
  cases l with
  | enter i key =>
    cases hphase : g.phase i with
    | outside =>
      simp only [step,hphase,Option.some.injEq] at h
      subst h
      cases hm : g.m key with
      | some c => simpa only [Group.enter,hm] using Steps.join hphase hm
      | none => simpa only [Group.enter,hm] using Steps.lead hphase hm
    | _ => simp [step,hphase] at h
  | fnEnd i r =>
    cases hphase : g.phase i with
    | running key =>
      simp only [step,hphase,Option.some.injEq] at h
      subst h
      exact .fnEnd hphase
    | _ => simp [step,hphase] at h
  | release i =>
    cases hphase : g.phase i with
    | ending key =>
      simp only [step,hphase,Option.some.injEq] at h
      subst h
      exact .release hphase
    | _ => simp [step,hphase] at h
  | leave i =>
    cases hphase : g.phase i with
    | released key =>
      simp only [step,hphase,Group.leave,Option.map_eq_some_iff] at h
      obtain ⟨r,hended,rfl⟩ := h
      exact .leaveLeader hphase hended
    | waiting key c =>
      simp only [step,hphase,Group.leave,Option.ite_none_right_eq_some,Option.map_eq_some_iff] at h
      obtain ⟨hdone,r,hended,rfl⟩ := h
      exact .leaveWaiter hphase hdone hended
    | _ => simp [step,hphase] at h

end Inversion

/-- The key of a call and the call that it gets its result from. -/
def Phase.part (i : ℕ) : Phase K V ε → Option (K × ℕ)
  | .outside => none
  | .running key => some (key,i)
  | .ending key => some (key,i)
  | .released key => some (key,i)
  | .waiting key c => some (key,c)
  | .finished key c _ _ => some (key,c)

def Group.part (g : Group K V ε) (i : ℕ) : Option (K × ℕ) := (g.phase i).part i

section Parts

variable {g g' : Group K V ε} {l : Label K V ε}

omit [DecidableEq K] in
theorem part_update (m : K → Option ℕ) (calls : ℕ → Call V ε) (i : ℕ) (p : Phase K V ε) :
    Group.part ⟨m,calls,Function.update g.phase i p⟩ = Function.update g.part i (p.part i) := by
  funext j
  by_cases hj : j = i
  · subst hj
    simp [Group.part]
  · simp [Group.part,Function.update_of_ne hj]

omit [DecidableEq K] in
/-- A call stays with the call that it has joined. -/
theorem part_kept {m : K → Option ℕ} {calls : ℕ → Call V ε} {i : ℕ} {p : Phase K V ε}
    (h : p.part i = g.part i) : Group.part ⟨m,calls,Function.update g.phase i p⟩ = g.part := by
  rw [part_update,h,Function.update_eq_self]

/-- Only the first step of a call decides where it takes part. -/
theorem part_step (h : Steps g l g') :
    g'.part = g.part ∨ ∃ i key c, l = .enter i key ∧ g.part i = none ∧
      g'.part = Function.update g.part i (some (key,c)) ∧ (g.m key = some c ∨ c = i) := by
  cases h with
  | @join i key c hphase hm =>
    exact .inr ⟨i,key,c,rfl,by rw [Group.part,hphase]; rfl,part_update _ _ _ _,.inl hm⟩
  | @lead i key hphase hm =>
    exact .inr ⟨i,key,i,rfl,by rw [Group.part,hphase]; rfl,part_update _ _ _ _,.inr rfl⟩
  | fnEnd hphase => exact .inl (part_kept (by rw [Group.part,hphase]; rfl))
  | release hphase => exact .inl (part_kept (by rw [Group.part,hphase]; rfl))
  | leaveLeader hphase => exact .inl (part_kept (by rw [Group.part,hphase]; rfl))
  | leaveWaiter hphase => exact .inl (part_kept (by rw [Group.part,hphase]; rfl))

end Parts

/-- What the record of a leader holds when it is in a phase. -/
def Phase.Fits (i : ℕ) (call : Call V ε) : Phase K V ε → Prop
  | .outside => call.ended = none ∧ call.done = false ∧ call.dups = 0
  | .running _ => call.ended = none ∧ call.done = false
  | .ending _ => call.ended ≠ none ∧ call.done = false
  | .released _ => call.ended ≠ none ∧ call.done = true
  | .waiting _ c => c ≠ i ∧ call.ended = none ∧ call.done = false ∧ call.dups = 0
  | .finished _ c r shared =>
    if c = i then call.ended = some r ∧ call.done = true ∧ (shared = true ↔ 0 < call.dups)
    else call.ended = none ∧ call.done = false ∧ call.dups = 0 ∧ shared = true

structure Sound (g : Group K V ε) : Prop where
  leads : ∀ key i, g.m key = some i ↔ g.phase i = .running key ∨ g.phase i = .ending key
  fits : ∀ i, (g.phase i).Fits i (g.calls i)
  leader : ∀ i key c, g.part i = some (key,c) → g.part c = some (key,c)
  result : ∀ i key c r shared, g.phase i = .finished key c r shared →
    (g.calls c).ended = some r ∧ (g.calls c).done = true
  joined : ∀ c, 0 < (g.calls c).dups ↔ ∃ i key, i ≠ c ∧ g.part i = some (key,c)

section Invariant

variable {g g' : Group K V ε} {l : Label K V ε}

omit [DecidableEq K] in
theorem Sound.init : Sound ({} : Group K V ε) where
  leads := by simp
  fits := by simp [Phase.Fits]
  leader := by simp [Group.part,Phase.part]
  result := by simp
  joined := by simp [Group.part,Phase.part]

theorem leads_step (h : Sound g) (hstep : Steps g l g') (key : K) (i : ℕ) :
    g'.m key = some i ↔ g'.phase i = .running key ∨ g'.phase i = .ending key := by
  cases hstep with
  | fnEnd hphase => simp only [Group.fnEnd]; grind [h.leads]
  | release hphase => simp only [Group.release]; grind [h.leads]
  | _ => grind [h.leads]

theorem fits_step (h : Sound g) (hstep : Steps g l g') (i : ℕ) :
    (g'.phase i).Fits i (g'.calls i) := by
  have hi := h.fits i
  cases hstep with
  | @join j key c hphase hm =>
    have hc := (h.leads key c).1 hm
    grind [Phase.Fits]
  | fnEnd hphase => simp only [Group.fnEnd]; grind [Phase.Fits]
  | release hphase => simp only [Group.release]; grind [Phase.Fits]
  | _ => grind [Phase.Fits]

omit [DecidableEq K] in
theorem Sound.part_of_leads (h : Sound g) {key : K} {c : ℕ} (hm : g.m key = some c) :
    g.part c = some (key,c) := by
  rcases (h.leads key c).1 hm with hc | hc <;> rw [Group.part,hc] <;> rfl

theorem leader_step (h : Sound g) (hstep : Steps g l g') (i : ℕ) (key : K) (c : ℕ)
    (hpart : g'.part i = some (key,c)) : g'.part c = some (key,c) := by
  rcases part_step hstep with heq | ⟨j,key',c',-,hnone,heq,hc'⟩
  · rw [heq] at hpart ⊢
    exact h.leader i key c hpart
  · have hlead : c' = j ∨ g.part c' = some (key',c') := hc'.symm.imp_right h.part_of_leads
    have hold := h.leader i key c
    rw [heq] at hpart ⊢
    grind

theorem result_step (h : Sound g) (hstep : Steps g l g') (i : ℕ) (key : K) (c : ℕ) (r : FnEnd V ε)
    (shared : Bool) (hphase : g'.phase i = .finished key c r shared) :
    (g'.calls c).ended = some r ∧ (g'.calls c).done = true := by
  have hold := h.result i key c r shared
  have hc := h.fits c
  cases hstep with
  | @fnEnd j key' r' hj => simp only [Group.fnEnd] at hphase ⊢; grind [Phase.Fits]
  | @release j key' hj => simp only [Group.release] at hphase ⊢; grind [Phase.Fits]
  | _ => grind [Phase.Fits]

omit [DecidableEq K] in
/-- A call that joins another one is one more that has done so. -/
theorem joined_update {part : ℕ → Option (K × ℕ)} {i c c' : ℕ} {key' : K} (hnone : part i = none) :
    (∃ j key, j ≠ c ∧ Function.update part i (some (key',c')) j = some (key,c)) ↔
      (c' = c ∧ i ≠ c) ∨ ∃ j key, j ≠ c ∧ part j = some (key,c) := by
  constructor
  · rintro ⟨j,key,hj,hpart⟩
    by_cases hji : j = i
    · subst hji
      rw [Function.update_self] at hpart
      cases hpart
      exact .inl ⟨rfl,hj⟩
    · rw [Function.update_of_ne hji] at hpart
      exact .inr ⟨j,key,hj,hpart⟩
  · rintro (⟨rfl,hi⟩ | ⟨j,key,hj,hpart⟩)
    · exact ⟨i,key',hi,Function.update_self ..⟩
    · refine ⟨j,key,hj,?_⟩
      rw [Function.update_of_ne (by rintro rfl; simp [hnone] at hpart),hpart]

theorem joined_step (h : Sound g) (hstep : Steps g l g') (c : ℕ) :
    0 < (g'.calls c).dups ↔ ∃ i key, i ≠ c ∧ g'.part i = some (key,c) := by
  have hold := h.joined c
  cases hstep with
  | @join i key c' hphase hm =>
    have hnone : g.part i = none := by rw [Group.part,hphase]; rfl
    have hne : i ≠ c' := by
      rintro rfl
      simp [h.part_of_leads hm] at hnone
    rw [part_update,Phase.part,joined_update hnone,← hold]
    by_cases hc : c' = c
    · subst hc
      simp [hne]
    · simp [hc,Function.update_of_ne (Ne.symm hc)]
  | @lead i key hphase hm =>
    have hnone : g.part i = none := by rw [Group.part,hphase]; rfl
    rw [part_update,Phase.part,joined_update hnone,← hold]
    simp +contextual
  | fnEnd hphase =>
    rw [Group.fnEnd,part_kept (by rw [Group.part,hphase]; rfl)]
    grind
  | release hphase =>
    rw [Group.release,part_kept (by rw [Group.part,hphase]; rfl)]
    grind
  | leaveLeader hphase => rwa [part_kept (by rw [Group.part,hphase]; rfl)]
  | leaveWaiter hphase => rwa [part_kept (by rw [Group.part,hphase]; rfl)]

theorem Sound.step (h : Sound g) (hstep : Steps g l g') : Sound g' :=
  ⟨leads_step h hstep,fits_step h hstep,leader_step h hstep,result_step h hstep,joined_step h hstep⟩

end Invariant

/-- What the labels of a run say about the group it leads to. -/
structure Past (ls : List (Label K V ε)) (g : Group K V ε) : Prop where
  entered : ∀ i key c, g.part i = some (key,c) →
    ∃ pre post, ls = pre++.enter i key::post ∧ .release c ∉ pre
  ended : ∀ i r, .fnEnd i r ∈ ls ↔ (g.calls i).ended = some r
  released : ∀ i, .release i ∈ ls ↔ (g.calls i).done = true

section Leader

variable {g : Group K V ε} {key : K} {c : ℕ}

omit [DecidableEq K] in
theorem Sound.leader_phase (h : Sound g) (hpart : g.part c = some (key,c)) :
    g.phase c = .running key ∨ g.phase c = .ending key ∨ g.phase c = .released key ∨
      ∃ r shared, g.phase c = .finished key c r shared := by
  have hfits := h.fits c
  rw [Group.part] at hpart
  cases hphase : g.phase c <;> simp_all [Phase.part,Phase.Fits]

omit [DecidableEq K] in
theorem Sound.ended_of_done (h : Sound g) (hpart : g.part c = some (key,c))
    (hdone : (g.calls c).done = true) : ∃ r, (g.calls c).ended = some r := by
  have hfits := h.fits c
  rcases h.leader_phase hpart with hc | hc | hc | ⟨r,shared,hc⟩
  · simp [hc,Phase.Fits,hdone] at hfits
  · simp [hc,Phase.Fits,hdone] at hfits
  · rw [hc] at hfits
    exact Option.ne_none_iff_exists'.1 hfits.1
  · simp only [hc,Phase.Fits,if_true] at hfits
    exact ⟨r,hfits.1⟩

end Leader

section History

variable {ls : List (Label K V ε)} {g g' : Group K V ε} {l : Label K V ε}

theorem entered_step (hs : Sound g) (h : Past ls g) (hstep : Steps g l g') (i : ℕ) (key : K) (c : ℕ)
    (hpart : g'.part i = some (key,c)) :
    ∃ pre post, ls++[l] = pre++.enter i key::post ∧ .release c ∉ pre := by
  have hold : g.part i = some (key,c) →
      ∃ pre post, ls++[l] = pre++.enter i key::post ∧ .release c ∉ pre := by
    intro hi
    obtain ⟨pre,post,rfl,hpre⟩ := h.entered i key c hi
    exact ⟨pre,post++[l],by simp,hpre⟩
  rcases part_step hstep with heq | ⟨j,key',c',rfl,hnone,heq,hc'⟩
  · exact hold (heq ▸ hpart)
  · by_cases hij : i = j
    · subst hij
      rw [heq,Function.update_self] at hpart
      cases hpart
      refine ⟨ls,[],rfl,fun hmem => ?_⟩
      have hdone := (h.released c).1 hmem
      have hfits := hs.fits c
      rcases hc' with hm | rfl
      · rcases (hs.leads key c).1 hm with hc | hc <;> simp [hc,Phase.Fits,hdone] at hfits
      · have hphase : g.phase c = .outside := by
          rw [Group.part] at hnone
          cases hc : g.phase c <;> simp [hc,Phase.part] at hnone ⊢
        simp [hphase,Phase.Fits,hdone] at hfits
    · rw [heq,Function.update_of_ne hij] at hpart
      exact hold hpart

theorem ended_step (hs : Sound g) (h : Past ls g) (hstep : Steps g l g') (i : ℕ) (r : FnEnd V ε) :
    .fnEnd i r ∈ ls++[l] ↔ (g'.calls i).ended = some r := by
  have hold := h.ended i r
  have hfits := hs.fits i
  cases hstep with
  | @fnEnd j key r' hphase => simp only [Group.fnEnd]; grind [Phase.Fits]
  | @release j key hphase => simp only [Group.release]; grind
  | _ => grind

theorem released_step (h : Past ls g) (hstep : Steps g l g') (i : ℕ) :
    .release i ∈ ls++[l] ↔ (g'.calls i).done = true := by
  have hold := h.released i
  cases hstep with
  | @fnEnd j key r' hphase => simp only [Group.fnEnd]; grind
  | @release j key hphase => simp only [Group.release]; grind
  | _ => grind

theorem sound_of_run (h : run step ls ({} : Group K V ε) = some g) : Sound g ∧ Past ls g := by
  refine run_invariant (P := fun ls g => Sound g ∧ Past ls g) ⟨.init,?_⟩ ?_ h
  · exact ⟨by simp [Group.part,Phase.part],by simp,by simp⟩
  · intro ls g l g' _ ⟨hs,hp⟩ hlast
    have hstep := steps_of_step hlast
    exact ⟨hs.step hstep,entered_step hs hp hstep,ended_step hs hp hstep,released_step hp hstep⟩

/-- A result is that of the function of the leader, for the same key. -/
theorem result_of_run (h : run step ls ({} : Group K V ε) = some g) {i : ℕ} {key : K} {c : ℕ}
    {r : FnEnd V ε} {shared : Bool} (hfin : g.phase i = .finished key c r shared) :
    .enter i key ∈ ls ∧ .enter c key ∈ ls ∧ .fnEnd c r ∈ ls := by
  obtain ⟨hs,hp⟩ := sound_of_run h
  have hpart : g.part i = some (key,c) := by rw [Group.part,hfin]; rfl
  obtain ⟨pre,post,rfl,-⟩ := hp.entered i key c hpart
  obtain ⟨pre',post',hls',-⟩ := hp.entered c key c (hs.leader i key c hpart)
  exact ⟨by simp,by simp [hls'],(hp.ended c r).2 (hs.result i key c r shared hfin).1⟩

/-- While the function runs for a key, no other call runs it or is about to give out its
result. -/
theorem running_unique (h : run step ls ({} : Group K V ε) = some g) {key : K} {i : ℕ}
    (hi : g.phase i = .running key) {j : ℕ} (hj : j ≠ i) :
    g.phase j ≠ .running key ∧ g.phase j ≠ .ending key := by
  obtain ⟨hs,-⟩ := sound_of_run h
  have hmi := (hs.leads key i).2 (.inl hi)
  have hnot : ¬(g.phase j = .running key ∨ g.phase j = .ending key) := by
    intro hphase
    have hmj := (hs.leads key j).2 hphase
    exact hj (Option.some.inj (hmj.symm.trans hmi))
  exact not_or.1 hnot

theorem running_unique_two : ∃ g : Group ℕ ℕ ℕ, run step [.enter 0 7,.enter 1 7] {} = some g ∧
    g.phase 0 = .running 7 ∧ g.phase 1 ≠ .running 7 ∧ g.phase 1 ≠ .ending 7 := by
  have hrun : ∃ g : Group ℕ ℕ ℕ, run step [.enter 0 7,.enter 1 7] {} = some g ∧
      g.phase 0 = .running 7 := ⟨_,rfl,rfl⟩
  obtain ⟨g,hg,hphase⟩ := hrun
  exact ⟨g,hg,hphase,running_unique hg hphase (by decide)⟩

/-- A call returns what one run of the function for its key has returned, which had not been
given out yet when the call came. It says so when others get the same. -/
theorem do_result (h : run step ls ({} : Group K V ε) = some g) {i : ℕ} {key : K} {c : ℕ}
    {r : FnEnd V ε} {shared : Bool} (hfin : g.phase i = .finished key c r shared) :
    .enter c key ∈ ls ∧ (∀ r', .fnEnd c r' ∈ ls ↔ r' = r) ∧
    (∃ pre post, ls = pre++.enter i key::post ∧ .release c ∉ pre ∧ .release c ∈ post) ∧
    (shared = true ↔ ∃ j, j ≠ i ∧ g.part j = some (key,c)) := by
  obtain ⟨hs,hp⟩ := sound_of_run h
  obtain ⟨hended,hdone⟩ := hs.result i key c r shared hfin
  have hpart : g.part i = some (key,c) := by rw [Group.part,hfin]; rfl
  have hlead := hs.leader i key c hpart
  obtain ⟨pre,post,hls,hpre⟩ := hp.entered i key c hpart
  refine ⟨(result_of_run h hfin).2.1,fun r' => ?_,⟨pre,post,hls,hpre,?_⟩,?_⟩
  · rw [hp.ended,hended,Option.some_inj,eq_comm]
  · have hmem := (hp.released c).2 hdone
    simpa [hls,hpre] using hmem
  · have hfits := hs.fits i
    rw [hfin,Phase.Fits] at hfits
    by_cases hci : c = i
    · subst hci
      rw [if_pos rfl] at hfits
      rw [hfits.2.2,hs.joined]
      constructor
      · rintro ⟨j,key',hj,hpart'⟩
        have hlead' := hs.leader j key' c hpart'
        rw [hlead] at hlead'
        cases hlead'
        exact ⟨j,hj,hpart'⟩
      · rintro ⟨j,hj,hpart'⟩
        exact ⟨j,key,hj,hpart'⟩
    · rw [if_neg hci] at hfits
      exact ⟨fun _ => ⟨c,hci,hlead⟩,fun _ => hfits.2.2.2⟩

theorem do_result_shared : ∃ g : Group ℕ ℕ ℕ,
    run step [.enter 0 7,.fnEnd 0 (.returned 5 none),.enter 1 7,.release 0,.leave 1] {} = some g ∧
    g.phase 1 = .finished 7 0 (.returned 5 none) true ∧ (∃ j, j ≠ 1 ∧ g.part j = some (7,0)) := by
  have hrun : ∃ g : Group ℕ ℕ ℕ,
      run step [.enter 0 7,.fnEnd 0 (.returned 5 none),.enter 1 7,.release 0,.leave 1] {} = some g ∧
      g.phase 1 = .finished 7 0 (.returned 5 none) true := ⟨_,rfl,rfl⟩
  obtain ⟨g,hg,hphase⟩ := hrun
  exact ⟨g,hg,hphase,(do_result hg hphase).2.2.2.1 rfl⟩

/-- A call is ready once the record of its leader is done. -/
theorem leaves (hs : Sound g) {i : ℕ} {key : K} {c : ℕ} (hpart : g.part i = some (key,c))
    (hdone : (g.calls c).done = true) :
    ∃ ls' g' r shared, ls'.Sublist [.leave i] ∧ run step ls' g = some g' ∧
      g'.phase i = .finished key c r shared := by
  obtain ⟨r,hr⟩ := hs.ended_of_done (hs.leader i key c hpart) hdone
  have hleave : ∀ shared, (step g (.leave i) = g.leave i key c shared) →
      ∃ ls' g' r shared, ls'.Sublist [.leave i] ∧ run step ls' g = some g' ∧
        g'.phase i = .finished key c r shared := by
    intro shared hstep
    refine ⟨[.leave i],{g with phase := Function.update g.phase i (.finished key c r shared)},r,shared,
      List.Sublist.refl _,?_,Function.update_self ..⟩
    simp [run,hstep,Group.leave,hr]
  cases hphase : g.phase i with
  | outside => simp [Group.part,hphase,Phase.part] at hpart
  | finished key' c' r' shared =>
    rw [Group.part,hphase] at hpart
    cases hpart
    exact ⟨[],g,r',shared,List.nil_sublist _,rfl,hphase⟩
  | waiting key' c' =>
    rw [Group.part,hphase] at hpart
    cases hpart
    exact hleave true (by simp [step,hphase,hdone])
  | released key' =>
    rw [Group.part,hphase] at hpart
    cases hpart
    exact hleave (0 < (g.calls i).dups) (by simp [step,hphase])
  | _ key' =>
    have hfits := hs.fits i
    rw [Group.part,hphase] at hpart
    cases hpart
    simp [hphase,Phase.Fits,hdone] at hfits

/-- No call is stuck: once the function that it needs has ended, the leader of the call and the
call itself need one more step each, which nothing holds up. -/
theorem do_progress (h : run step ls ({} : Group K V ε) = some g) {i : ℕ} {key : K} {c : ℕ}
    (hpart : g.part i = some (key,c)) (hended : g.phase c ≠ .running key) :
    ∃ ls' g' r shared, ls'.Sublist [.release c,.leave i] ∧ run step ls' g = some g' ∧
      g'.phase i = .finished key c r shared := by
  obtain ⟨hs,-⟩ := sound_of_run h
  cases hdone : (g.calls c).done with
  | true =>
    obtain ⟨ls',g',r,shared,hsub,hrun,hfin⟩ := leaves hs hpart hdone
    exact ⟨ls',g',r,shared,hsub.cons _,hrun,hfin⟩
  | false =>
    have hphase : g.phase c = .ending key := by
      have hfits := hs.fits c
      rcases hs.leader_phase (hs.leader i key c hpart) with hc | hc | hc | ⟨r,shared,hc⟩
      · exact absurd hc hended
      · exact hc
      · simp [hc,Phase.Fits,hdone] at hfits
      · simp [hc,Phase.Fits,hdone] at hfits
    have hstep : step g (.release c) = some (g.release c key) := by simp [step,hphase]
    have hpart' : (g.release c key).part i = some (key,c) := by
      rwa [Group.release,part_kept (by rw [Group.part,hphase]; rfl)]
    obtain ⟨ls',g',r,shared,hsub,hrun,hfin⟩ :=
      leaves (hs.step (.release hphase)) hpart' (by simp [Group.release])
    exact ⟨.release c::ls',g',r,shared,hsub.cons_cons _,by simp [run,hstep,hrun],hfin⟩

theorem do_progress_waiter : ∃ g : Group ℕ ℕ ℕ,
    run step [.enter 0 7,.enter 1 7,.fnEnd 0 (.panicked 3)] {} = some g ∧
    ∃ ls' g' r shared, ls'.Sublist [.release 0,.leave 1] ∧ run step ls' g = some g' ∧
      g'.phase 1 = .finished 7 0 r shared := by
  have hrun : ∃ g : Group ℕ ℕ ℕ, run step [.enter 0 7,.enter 1 7,.fnEnd 0 (.panicked 3)] {} = some g ∧
      g.part 1 = some (7,0) ∧ g.phase 0 = .ending 7 := ⟨_,rfl,rfl,rfl⟩
  obtain ⟨g,hg,hpart,hphase⟩ := hrun
  exact ⟨g,hg,do_progress hg hpart (by simp [hphase])⟩

end History

end SingleFlight
end Enimul
