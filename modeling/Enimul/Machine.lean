import Mathlib.Data.List.Basic
import Mathlib.Data.List.Induction

/-! Machines that take labelled steps.
A run is the list of its labels. A label stands for one atomic step of one of the parties,
with everything that the environment decides in it; a step that a state does not allow ends
the run without a result. -/
namespace Enimul
namespace Machine

variable {σ ℓ : Type*} (step : σ → ℓ → Option σ)

def run : List ℓ → σ → Option σ
  | [], s => some s
  | l::ls, s => (step s l).bind (run ls)

/-- Every step of the run is taken in a state and with a label that meet `P`. -/
def Along (P : σ → ℓ → Prop) : List ℓ → σ → Prop
  | [], _ => True
  | l::ls, s => P s l ∧ (step s l).elim True (Along P ls)

instance Along.decidable (P : σ → ℓ → Prop) [∀ s l, Decidable (P s l)] :
    (ls : List ℓ) → (s : σ) → Decidable (Along step P ls s)
  | [], _ => isTrue trivial
  | l::ls, s =>
    haveI : Decidable ((step s l).elim True (Along step P ls)) :=
      match step s l with
      | none => isTrue trivial
      | some s' => Along.decidable P ls s'
    inferInstanceAs (Decidable (_ ∧ _))

variable {step} {s₀ s : σ} {ls : List ℓ} {l : ℓ}

theorem run_append (ls ls' : List ℓ) (s : σ) :
    run step (ls++ls') s = (run step ls s).bind (run step ls') := by
  induction ls generalizing s with
  | nil => rfl
  | cons l ls ih =>
    simp only [List.cons_append,run]
    cases step s l with
    | none => rfl
    | some s₁ => exact ih s₁

theorem run_concat (ls : List ℓ) (l : ℓ) (s : σ) :
    run step (ls++[l]) s = (run step ls s).bind fun s₁ => step s₁ l := by
  rw [run_append]
  congr 1
  funext s₁
  simp [run]

/-- The last step of a run. -/
theorem run_concat_some (h : run step (ls++[l]) s₀ = some s) :
    ∃ s₁, run step ls s₀ = some s₁ ∧ step s₁ l = some s := by
  rw [run_concat] at h
  exact Option.bind_eq_some_iff.mp h

theorem along_concat {P : σ → ℓ → Prop} (h : run step ls s₀ = some s) :
    Along step P (ls++[l]) s₀ ↔ Along step P ls s₀ ∧ P s l := by
  induction ls generalizing s₀ with
  | nil =>
    obtain rfl := Option.some.inj h
    simp only [List.nil_append,Along]
    cases step s₀ l <;> simp
  | cons l' ls ih =>
    obtain ⟨s₁,hstep,hrest⟩ := Option.bind_eq_some_iff.mp h
    simp [Along,hstep,ih hrest,and_assoc]

/-- What holds at first and is kept by every step holds after every run. -/
theorem run_invariant {P : List ℓ → σ → Prop} (hstart : P [] s₀)
    (hstep : ∀ {ls s l s'}, run step ls s₀ = some s → P ls s → step s l = some s' → P (ls++[l]) s')
    (h : run step ls s₀ = some s) : P ls s := by
  induction ls using List.reverseRecOn generalizing s with
  | nil =>
    cases h
    exact hstart
  | append_singleton ls l ih =>
    obtain ⟨s₁,hrun,hlast⟩ := run_concat_some h
    exact hstep hrun (ih hrun) hlast

/-- The state in which a step of a run is taken, and the rest of the run. -/
theorem run_at {pre post : List ℓ} (h : run step (pre++l::post) s₀ = some s) :
    ∃ s₁ s₂, run step pre s₀ = some s₁ ∧ step s₁ l = some s₂ ∧ run step post s₂ = some s := by
  rw [run_append] at h
  obtain ⟨s₁,hpre,hrest⟩ := Option.bind_eq_some_iff.mp h
  obtain ⟨s₂,hstep,hpost⟩ := Option.bind_eq_some_iff.mp hrest
  exact ⟨s₁,s₂,hpre,hstep,hpost⟩

/-- What every step of the run keeps holds at its end. -/
theorem run_keeps {P : σ → Prop} (hkeep : ∀ {s l s'}, l ∈ ls → P s → step s l = some s' → P s')
    (hs : P s₀) (h : run step ls s₀ = some s) : P s := by
  induction ls generalizing s₀ with
  | nil =>
    cases h
    exact hs
  | cons l ls ih =>
    obtain ⟨s₁,hstep,hrest⟩ := Option.bind_eq_some_iff.mp h
    exact ih (fun hl => hkeep (List.mem_cons_of_mem _ hl)) (hkeep List.mem_cons_self hs hstep) hrest

/-- What holds at first and not at the end is given up by a step of the run. -/
theorem run_leaves {P : σ → Prop} (hs : P s₀) (h : run step ls s₀ = some s) (hend : ¬ P s) :
    ∃ pre l post s₁ s₂, ls = pre++l::post ∧ run step pre s₀ = some s₁ ∧ step s₁ l = some s₂ ∧
      run step post s₂ = some s ∧ P s₁ ∧ ¬ P s₂ := by
  induction ls generalizing s₀ with
  | nil =>
    cases h
    exact absurd hs hend
  | cons l ls ih =>
    obtain ⟨s₁,hstep,hrest⟩ := Option.bind_eq_some_iff.mp h
    by_cases hkept : P s₁
    · obtain ⟨pre,l',post,s₂,s₃,rfl,hpre,hstep',hpost,hP,hnot⟩ := ih hkept hrest
      exact ⟨l::pre,l',post,s₂,s₃,rfl,by rw [run,hstep]; exact hpre,hstep',hpost,hP,hnot⟩
    · exact ⟨[],l,ls,s₀,s₁,rfl,rfl,hstep,hrest,hs,hkept⟩

/-- What only one label can bring about, and what then stays, goes back to a step of the run
with that label. `R` relates the state before that step to the present one. -/
theorem run_since {Q : σ → Prop} {R : σ → σ → Prop} (hstart : ¬ Q s₀)
    (hset : ∀ {ls s l' s'}, run step ls s₀ = some s → step s l' = some s' → ¬ Q s → Q s' →
      l' = l ∧ R s s')
    (hkeep : ∀ {ls s₁ s l' s'}, run step ls s₀ = some s → R s₁ s → Q s → step s l' = some s' →
      R s₁ s')
    (h : run step ls s₀ = some s) (hs : Q s) :
    ∃ pre post s₁, ls = pre++l::post ∧ run step pre s₀ = some s₁ ∧ R s₁ s := by
  refine run_invariant (P := fun ls s => Q s → ∃ pre post s₁, ls = pre++l::post ∧
    run step pre s₀ = some s₁ ∧ R s₁ s) (fun hQ => absurd hQ hstart) ?_ h hs
  intro ls s l' s' hrun ih hlast hQ
  by_cases hbefore : Q s
  · obtain ⟨pre,post,s₁,rfl,hpre,hR⟩ := ih hbefore
    exact ⟨pre,post++[l'],s₁,by simp,hpre,hkeep hrun hR hbefore hlast⟩
  · obtain ⟨rfl,hR⟩ := hset hrun hlast hbefore hQ
    exact ⟨ls,[],s,rfl,hrun,hR⟩

end Machine
end Enimul
