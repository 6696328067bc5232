import Enimul.Exchange
import Enimul.Machine

/-! Concurrent calls of `exchangeMsg`.
A call copies the list of exchanges under the lock; it reads and writes the index without
one. Between two of these accesses any number of other calls and of reconfigurations may
take their steps. -/
namespace Enimul
namespace ExchangeRace

open GoSlice Exchange Machine

/-- The next access that a call makes to what it shares with the others. -/
inductive Phase (ι ρ : Type)
  | entered
  | fallback (single : ι)
  | copied (exchanges : List ι)
  | trying (exchanges : List ι) (start : ℤ) (i : ℕ)
  | storing (idx : ℤ) (result : Except String ρ)
  | returned (result : Except String ρ)
  | panicked (fault : Fault)

/-- An exchange that was asked, with its place in the list and what it returned. -/
structure Attempt (ι ρ : Type) where
  place : ℤ
  exchange : ι
  outcome : Except String ρ

/-- A call and its past. The program keeps the phase only. -/
structure Call (ι ρ : Type) where
  phase : Phase ι ρ := .entered
  snapshot : List ι × Option ι := ([],none)
  sticky : Option ℤ := none
  asked : List (Attempt ι ρ) := []
  stored : Option ℤ := none

/-- The accesses of a call. An exchange may return anything. -/
inductive Act (ρ : Type)
  | copyList
  | loadIdx
  | ask (outcome : Except String ρ)
  | storeIdx

inductive Label (ι ρ : Type)
  | call (c : ℕ) (act : Act ρ)
  | setDNS (exchanges : List ι)

structure State (ι ρ : Type) where
  shared : Upstreams ι
  calls : ℕ → Call ι ρ := fun _ => {}

section Steps

variable {ι ρ : Type}

def afterCopy (u : Upstreams ι) : Phase ι ρ :=
  if u.dnsExchanges = [] then
    match u.dnsExchange with
    | none => .returned (.error "no dns upstream configured")
    | some single => .fallback single
  else .copied u.dnsExchanges

def afterAsk (exchanges : List ι) (start : ℤ) (i : ℕ) (idx : ℤ) : Except String ρ → Phase ι ρ
  | .ok resp => .storing idx (.ok resp)
  | .error err =>
    if i+1 < exchanges.length then .trying exchanges start (i+1) else .storing 0 (.error err)

/-- One step of a call. A call that the label does not fit takes none. -/
def Call.step (u : Upstreams ι) (call : Call ι ρ) : Act ρ → Option (Call ι ρ × Upstreams ι)
  | .copyList =>
    match call.phase with
    | .entered =>
      some ({call with phase := afterCopy u, snapshot := (u.dnsExchanges,u.dnsExchange)},u)
    | _ => none
  | .loadIdx =>
    match call.phase with
    | .copied exchanges =>
      let start := u.dnsExchangeIdx.tmod exchanges.length
      some ({call with phase := .trying exchanges start 0, sticky := some u.dnsExchangeIdx},u)
    | _ => none
  | .ask outcome =>
    match call.phase with
    | .fallback single =>
      some ({call with phase := .returned outcome, asked := [⟨0,single,outcome⟩]},u)
    | .trying exchanges start i =>
      let idx := (start+i).tmod exchanges.length
      match elem exchanges idx with
      | .error fault => some ({call with phase := .panicked fault},u)
      | .ok exchange =>
        some ({call with
          phase := afterAsk exchanges start i idx outcome
          asked := call.asked++[⟨idx,exchange,outcome⟩]},u)
    | _ => none
  | .storeIdx =>
    match call.phase with
    | .storing idx result =>
      some ({call with phase := .returned result, stored := some idx},{u with dnsExchangeIdx := idx})
    | _ => none

def step (s : State ι ρ) : Label ι ρ → Option (State ι ρ)
  | .call c act =>
    (Call.step s.shared (s.calls c) act).map fun r => ⟨r.2,Function.update s.calls c r.1⟩
  | .setDNS exchanges => some {s with shared := commit exchanges s.shared}

end Steps

section Specification

variable {ι ρ : Type}

def Attempt.Failed (a : Attempt ι ρ) : Prop := ∃ err, a.outcome = .error err

/-- The places of the exchanges that were asked are the first ones on the way round. -/
def GoesAround (n start : ℕ) (asked : List (Attempt ι ρ)) : Prop :=
  asked.map Attempt.place <+: (around n start).map Nat.cast

/-- How a call may end: with the first answer, whose place it stores, or with the last error
after every exchange has failed. -/
inductive Ends (n start : ℕ) (asked : List (Attempt ι ρ)) : Except String ρ → ℤ → Prop
  | answered (failures : List (Attempt ι ρ)) (last : Attempt ι ρ) (resp : ρ)
      (hasked : asked = failures++[last]) (hlast : last.outcome = .ok resp)
      (hfailed : ∀ a ∈ failures, a.Failed) : Ends n start asked (.ok resp) last.place
  | exhausted (failures : List (Attempt ι ρ)) (last : Attempt ι ρ) (err : String)
      (hasked : asked = failures++[last]) (hlast : last.outcome = .error err)
      (hfailed : ∀ a ∈ asked, a.Failed)
      (hall : asked.map Attempt.place = (around n start).map Nat.cast) :
      Ends n start asked (.error err) 0

/-- The place on the list at which a call starts. -/
def Call.start (call : Call ι ρ) : ℕ := (call.sticky.getD 0).toNat%call.snapshot.1.length

/-- A call on an empty list returns what the single exchange returns. -/
def Call.FellBack (call : Call ι ρ) (result : Except String ρ) : Prop :=
  (call.snapshot.2 = none ∧ call.asked = [] ∧ result = .error "no dns upstream configured") ∨
    ∃ single, call.snapshot.2 = some single ∧ call.asked = [⟨0,single,result⟩]

/-- What a call has done when it reaches a phase. -/
def Call.Sound (call : Call ι ρ) : Prop :=
  match call.phase with
  | .entered => call.asked = [] ∧ call.sticky = none ∧ call.stored = none
  | .fallback single =>
    call.snapshot = ([],some single) ∧ call.asked = [] ∧ call.sticky = none ∧ call.stored = none
  | .copied exchanges =>
    call.snapshot.1 = exchanges ∧ exchanges ≠ [] ∧ call.asked = [] ∧ call.sticky = none ∧
      call.stored = none
  | .trying exchanges start i =>
    call.snapshot.1 = exchanges ∧ i < exchanges.length ∧ start = call.start ∧
      call.asked.map Attempt.place = ((around exchanges.length call.start).take i).map Nat.cast ∧
      (∀ a ∈ call.asked, a.Failed) ∧ call.sticky ≠ none ∧ call.stored = none
  | .storing idx result =>
    call.snapshot.1 ≠ [] ∧ 0 ≤ idx ∧ GoesAround call.snapshot.1.length call.start call.asked ∧
      Ends call.snapshot.1.length call.start call.asked result idx ∧ call.sticky ≠ none ∧
      call.stored = none
  | .returned result =>
    (call.snapshot.1 = [] ∧ call.FellBack result) ∨
    (call.snapshot.1 ≠ [] ∧ GoesAround call.snapshot.1.length call.start call.asked ∧
      call.sticky ≠ none ∧ ∃ idx, call.stored = some idx ∧
        Ends call.snapshot.1.length call.start call.asked result idx)
  | .panicked _ => False

/-- Every exchange that was asked is the one at its place of the snapshot. -/
def Call.OnSnapshot (call : Call ι ρ) : Prop :=
  call.snapshot.1 ≠ [] → ∀ a ∈ call.asked, elem call.snapshot.1 a.place = .ok a.exchange

end Specification

section Inversion

variable {ι ρ : Type} {u u' : Upstreams ι} {call call' : Call ι ρ} {act : Act ρ}

/-- All the steps that a call can take. -/
inductive Call.Steps (u : Upstreams ι) (call : Call ι ρ) :
    Act ρ → Call ι ρ → Upstreams ι → Prop
  | copyList (hphase : call.phase = .entered) :
      call.Steps u .copyList
        {call with phase := afterCopy u, snapshot := (u.dnsExchanges,u.dnsExchange)} u
  | loadIdx {exchanges : List ι} (hphase : call.phase = .copied exchanges) :
      call.Steps u .loadIdx
        {call with
          phase := .trying exchanges (u.dnsExchangeIdx.tmod exchanges.length) 0
          sticky := some u.dnsExchangeIdx} u
  | fallback {single : ι} {outcome : Except String ρ} (hphase : call.phase = .fallback single) :
      call.Steps u (.ask outcome)
        {call with phase := .returned outcome, asked := [⟨0,single,outcome⟩]} u
  | ask {exchanges : List ι} {start : ℤ} {i : ℕ} {exchange : ι} {outcome : Except String ρ}
      (hphase : call.phase = .trying exchanges start i)
      (hexchange : elem exchanges ((start+i).tmod exchanges.length) = .ok exchange) :
      call.Steps u (.ask outcome)
        {call with
          phase := afterAsk exchanges start i ((start+i).tmod exchanges.length) outcome
          asked := call.asked++[⟨(start+i).tmod exchanges.length,exchange,outcome⟩]} u
  | panic {exchanges : List ι} {start : ℤ} {i : ℕ} {fault : Fault} {outcome : Except String ρ}
      (hphase : call.phase = .trying exchanges start i)
      (hfault : elem exchanges ((start+i).tmod exchanges.length) = .error fault) :
      call.Steps u (.ask outcome) {call with phase := .panicked fault} u
  | storeIdx {idx : ℤ} {result : Except String ρ} (hphase : call.phase = .storing idx result) :
      call.Steps u .storeIdx {call with phase := .returned result, stored := some idx}
        {u with dnsExchangeIdx := idx}

theorem Call.steps_of_step (h : Call.step u call act = some (call',u')) :
    call.Steps u act call' u' := by
  cases act with
  | copyList =>
    cases hphase : call.phase with
    | entered =>
      simp only [Call.step,hphase,Option.some.injEq,Prod.mk.injEq] at h
      obtain ⟨rfl,rfl⟩ := h
      exact .copyList hphase
    | _ => simp [Call.step,hphase] at h
  | loadIdx =>
    cases hphase : call.phase with
    | copied exchanges =>
      simp only [Call.step,hphase,Option.some.injEq,Prod.mk.injEq] at h
      obtain ⟨rfl,rfl⟩ := h
      exact .loadIdx hphase
    | _ => simp [Call.step,hphase] at h
  | ask outcome =>
    cases hphase : call.phase with
    | fallback single =>
      simp only [Call.step,hphase,Option.some.injEq,Prod.mk.injEq] at h
      obtain ⟨rfl,rfl⟩ := h
      exact .fallback hphase
    | trying exchanges start i =>
      cases helem : elem exchanges ((start+i).tmod exchanges.length) with
      | ok exchange =>
        simp only [Call.step,hphase,helem,Option.some.injEq,Prod.mk.injEq] at h
        obtain ⟨rfl,rfl⟩ := h
        exact .ask hphase helem
      | error fault =>
        simp only [Call.step,hphase,helem,Option.some.injEq,Prod.mk.injEq] at h
        obtain ⟨rfl,rfl⟩ := h
        exact .panic hphase helem
    | _ => simp [Call.step,hphase] at h
  | storeIdx =>
    cases hphase : call.phase with
    | storing idx result =>
      simp only [Call.step,hphase,Option.some.injEq,Prod.mk.injEq] at h
      obtain ⟨rfl,rfl⟩ := h
      exact .storeIdx hphase
    | _ => simp [Call.step,hphase] at h

/-- A step of the system as one call sees it: its own, or one that only changes what is shared. -/
theorem step_cases {s s' : State ι ρ} {label : Label ι ρ} (h : step s label = some s') (c : ℕ) :
    (∃ act, label = .call c act ∧ (s.calls c).Steps s.shared act (s'.calls c) s'.shared) ∨
      ((∀ act, label ≠ .call c act) ∧ s'.calls c = s.calls c) := by
  cases label with
  | setDNS exchanges =>
    cases h
    exact .inr ⟨fun act => by simp,rfl⟩
  | call d act =>
    simp only [step,Option.map_eq_some_iff] at h
    obtain ⟨⟨call',u'⟩,hstep,rfl⟩ := h
    by_cases hcd : c = d
    · subst hcd
      refine .inl ⟨act,rfl,?_⟩
      simpa using Call.steps_of_step hstep
    · refine .inr ⟨fun act' => ?_,Function.update_of_ne hcd _ _⟩
      intro heq
      cases heq
      exact hcd rfl

end Inversion

section Invariant

variable {ι ρ : Type} {u u' : Upstreams ι} {call call' : Call ι ρ}

theorem copyList_sound (hphase : call.phase = .entered) (h : call.Sound) :
    ({call with phase := afterCopy u, snapshot := (u.dnsExchanges,u.dnsExchange)} :
      Call ι ρ).Sound := by
  simp only [Call.Sound,hphase] at h
  obtain ⟨hasked,hsticky,hstored⟩ := h
  unfold afterCopy
  split
  · rename_i hnil
    cases hsingle : u.dnsExchange with
    | none => exact .inl ⟨hnil,.inl ⟨rfl,hasked,rfl⟩⟩
    | some single => exact ⟨by rw [hnil],hasked,hsticky,hstored⟩
  · rename_i hne
    exact ⟨rfl,hne,hasked,hsticky,hstored⟩

theorem loadIdx_sound {exchanges : List ι} (hidx : 0 ≤ u.dnsExchangeIdx)
    (hphase : call.phase = .copied exchanges) (h : call.Sound) :
    ({call with
      phase := .trying exchanges (u.dnsExchangeIdx.tmod exchanges.length) 0
      sticky := some u.dnsExchangeIdx} : Call ι ρ).Sound := by
  simp only [Call.Sound,hphase] at h
  obtain ⟨rfl,hne,hasked,-,hstored⟩ := h
  refine ⟨rfl,List.length_pos_iff.mpr hne,tmod_natCast _ _ hidx,?_,?_,by simp,hstored⟩
  · simp [hasked]
  · simp [hasked]

/-- The exchange that is asked next is on the list. -/
theorem elem_next {exchanges : List ι} {start : ℤ} {i : ℕ}
    (hphase : call.phase = .trying exchanges start i) (h : call.Sound) :
    (start+i).tmod exchanges.length = (((call.start+i)%exchanges.length : ℕ) : ℤ) ∧
      ∃ exchange, elem exchanges ((start+i).tmod exchanges.length) = .ok exchange := by
  simp only [Call.Sound,hphase] at h
  obtain ⟨-,hi,rfl,-⟩ := h
  have hidx := tmod_add_natCast call.start i exchanges.length
  rw [hidx]
  exact ⟨rfl,_,elem_ofNat (Nat.mod_lt _ (by omega))⟩

theorem ask_sound {exchanges : List ι} {start : ℤ} {i : ℕ} {exchange : ι}
    {outcome : Except String ρ} (hphase : call.phase = .trying exchanges start i) (h : call.Sound) :
    ({call with
      phase := afterAsk exchanges start i ((start+i).tmod exchanges.length) outcome
      asked := call.asked++[⟨(start+i).tmod exchanges.length,exchange,outcome⟩]} :
      Call ι ρ).Sound := by
  have hplace := (elem_next hphase h).1
  simp only [Call.Sound,hphase] at h
  obtain ⟨rfl,hi,rfl,hplaces,hfailed,hsticky,hstored⟩ := h
  set n := call.snapshot.1.length with hn
  have hplaces' : (call.asked++[(⟨(call.start+i : ℤ).tmod n,exchange,outcome⟩ :
      Attempt ι ρ)]).map Attempt.place = ((around n call.start).take (i+1)).map Nat.cast := by
    rw [List.map_append,hplaces,around_take_succ hi,List.map_append,List.map_singleton,
      List.map_singleton,hplace]
  have hgoes : GoesAround n call.start
      (call.asked++[⟨(call.start+i : ℤ).tmod n,exchange,outcome⟩]) := by
    rw [GoesAround,hplaces']
    exact (List.take_prefix _ _).map _
  have hne : call.snapshot.1 ≠ [] := by
    rw [← List.length_pos_iff]
    omega
  cases outcome with
  | ok resp =>
    refine ⟨hne,?_,hgoes,.answered call.asked _ resp rfl rfl hfailed,hsticky,hstored⟩
    rw [hplace]
    positivity
  | error err =>
    have hall : ∀ a ∈ call.asked++[⟨(call.start+i : ℤ).tmod n,exchange,.error err⟩],
        a.Failed := by
      intro a ha
      rcases List.mem_append.mp ha with ha | ha
      · exact hfailed a ha
      · rw [List.mem_singleton.mp ha]
        exact ⟨err,rfl⟩
    by_cases hnext : i+1 < n
    · simp only [afterAsk,← hn,if_pos hnext,Call.Sound]
      exact ⟨trivial,hnext,rfl,hplaces',hall,hsticky,hstored⟩
    · simp only [afterAsk,← hn,if_neg hnext,Call.Sound]
      have hlen : (around n call.start).length ≤ i+1 := by
        rw [around_length]
        omega
      rw [List.take_of_length_le hlen] at hplaces'
      exact ⟨hne,le_rfl,hgoes,.exhausted call.asked _ err rfl rfl hall hplaces',hsticky,hstored⟩

/-- A step of a call keeps what it has done in order, and the index on a place. -/
theorem Call.Steps.sound {act : Act ρ} (hstep : call.Steps u act call' u')
    (hidx : 0 ≤ u.dnsExchangeIdx) (h : call.Sound) : call'.Sound ∧ 0 ≤ u'.dnsExchangeIdx := by
  cases hstep with
  | copyList hphase => exact ⟨copyList_sound hphase h,hidx⟩
  | loadIdx hphase => exact ⟨loadIdx_sound hidx hphase h,hidx⟩
  | fallback hphase =>
    simp only [Call.Sound,hphase] at h
    refine ⟨.inl ⟨?_,.inr ⟨_,?_,rfl⟩⟩,hidx⟩
    · rw [h.1]
    · rw [h.1]
  | ask hphase hexchange => exact ⟨ask_sound hphase h,hidx⟩
  | panic hphase hfault =>
    obtain ⟨-,exchange,hexchange⟩ := elem_next hphase h
    rw [hfault] at hexchange
    cases hexchange
  | storeIdx hphase =>
    simp only [Call.Sound,hphase] at h
    obtain ⟨hne,hpos,hgoes,hends,hsticky,-⟩ := h
    exact ⟨.inr ⟨hne,hgoes,hsticky,_,rfl,hends⟩,hpos⟩

/-- Only a call that has asked nothing takes a snapshot, so all its places are on one list. -/
theorem Call.Steps.onSnapshot {act : Act ρ} (hstep : call.Steps u act call' u')
    (hsound : call.Sound) (h : call.OnSnapshot) : call'.OnSnapshot := by
  cases hstep with
  | copyList hphase =>
    simp only [Call.Sound,hphase] at hsound
    intro hne a ha
    rw [hsound.1] at ha
    cases ha
  | loadIdx hphase => exact h
  | fallback hphase =>
    simp only [Call.Sound,hphase] at hsound
    intro hne
    rw [hsound.1] at hne
    exact absurd rfl hne
  | ask hphase hexchange =>
    simp only [Call.Sound,hphase] at hsound
    intro hne a ha
    rcases List.mem_append.mp ha with ha | ha
    · exact h hne a ha
    · rw [List.mem_singleton.mp ha,hsound.1]
      exact hexchange
  | panic hphase hfault => exact h
  | storeIdx hphase => exact h

end Invariant

section Once

variable {ι ρ : Type} {u u' : Upstreams ι} {call call' : Call ι ρ} {act : Act ρ}

/-- A call begins with its snapshot. -/
theorem Call.Steps.of_entered (hstep : call.Steps u act call' u') (h : call.phase = .entered) :
    act = .copyList ∧ call'.snapshot = (u.dnsExchanges,u.dnsExchange) := by
  cases hstep with
  | copyList _ => exact ⟨rfl,rfl⟩
  | loadIdx hphase => simp [hphase] at h
  | fallback hphase => simp [hphase] at h
  | ask hphase _ => simp [hphase] at h
  | panic hphase _ => simp [hphase] at h
  | storeIdx hphase => simp [hphase] at h

theorem Call.Steps.snapshot_eq (hstep : call.Steps u act call' u') (h : call.phase ≠ .entered) :
    call'.snapshot = call.snapshot := by
  cases hstep with
  | copyList hphase => exact absurd hphase h
  | _ => rfl

theorem Call.Steps.sticky_set (hstep : call.Steps u act call' u') (h : call.sticky = none)
    (h' : call'.sticky ≠ none) : act = .loadIdx ∧ call'.sticky = some u.dnsExchangeIdx := by
  cases hstep with
  | loadIdx _ => exact ⟨rfl,rfl⟩
  | _ => exact absurd h h'

theorem Call.Steps.sticky_eq (hstep : call.Steps u act call' u') (hsound : call.Sound)
    (h : call.sticky ≠ none) : call'.sticky = call.sticky := by
  cases hstep with
  | loadIdx hphase =>
    simp only [Call.Sound,hphase] at hsound
    exact absurd hsound.2.2.2.1 h
  | _ => rfl

theorem Call.Steps.stored_set (hstep : call.Steps u act call' u') (h : call.stored = none)
    (h' : call'.stored ≠ none) : act = .storeIdx ∧ call'.stored = some u'.dnsExchangeIdx := by
  cases hstep with
  | storeIdx _ => exact ⟨rfl,rfl⟩
  | _ => exact absurd h h'

theorem Call.Steps.stored_eq (hstep : call.Steps u act call' u') (hsound : call.Sound)
    (h : call.stored ≠ none) : call'.stored = call.stored := by
  cases hstep with
  | storeIdx hphase =>
    simp only [Call.Sound,hphase] at hsound
    exact absurd hsound.2.2.2.2.2 h
  | _ => rfl

end Once

section Runs

variable {ι ρ : Type} {u₀ : Upstreams ι} {s s' : State ι ρ} {label : Label ι ρ}
variable {labels : List (Label ι ρ)}

def initial (u₀ : Upstreams ι) : State ι ρ := {shared := u₀}

structure Inv (s : State ι ρ) : Prop where
  idx_nonneg : 0 ≤ s.shared.dnsExchangeIdx
  sound : ∀ c, (s.calls c).Sound
  onSnapshot : ∀ c, (s.calls c).OnSnapshot

theorem inv_initial (hidx : 0 ≤ u₀.dnsExchangeIdx) : Inv (initial u₀ : State ι ρ) :=
  ⟨hidx,fun _ => ⟨rfl,rfl,rfl⟩,fun _ hne => absurd rfl hne⟩

theorem step_idx_nonneg (h : Inv s) (hstep : step s label = some s') :
    0 ≤ s'.shared.dnsExchangeIdx := by
  cases label with
  | setDNS exchanges =>
    cases hstep
    exact h.idx_nonneg
  | call c act =>
    rcases step_cases hstep c with ⟨act',-,hsteps⟩ | ⟨hother,-⟩
    · exact (hsteps.sound h.idx_nonneg (h.sound c)).2
    · exact absurd rfl (hother act)

theorem step_inv (h : Inv s) (hstep : step s label = some s') : Inv s' := by
  refine ⟨step_idx_nonneg h hstep,fun c => ?_,fun c => ?_⟩
  · rcases step_cases hstep c with ⟨act,-,hsteps⟩ | ⟨-,hsame⟩
    · exact (hsteps.sound h.idx_nonneg (h.sound c)).1
    · rw [hsame]
      exact h.sound c
  · rcases step_cases hstep c with ⟨act,-,hsteps⟩ | ⟨-,hsame⟩
    · exact hsteps.onSnapshot (h.sound c) (h.onSnapshot c)
    · rw [hsame]
      exact h.onSnapshot c

theorem run_inv (hidx : 0 ≤ u₀.dnsExchangeIdx) (h : run step labels (initial u₀) = some s) :
    Inv s :=
  run_invariant (P := fun _ s => Inv s) (inv_initial hidx) (fun _ => step_inv) h

/-- A step of the run with the label, taken in a state with the property. -/
def Took (u₀ : Upstreams ι) (labels : List (Label ι ρ)) (label : Label ι ρ)
    (P : State ι ρ → Prop) : Prop :=
  ∃ pre post s₁, labels = pre++label::post ∧ run step pre (initial u₀) = some s₁ ∧ P s₁

/-- What one kind of access brings about in a call, and what no other access undoes. -/
theorem took_call (hidx : 0 ≤ u₀.dnsExchangeIdx) {c : ℕ} {act : Act ρ} {Q : Call ι ρ → Prop}
    {R : State ι ρ → Call ι ρ → Prop} (hstart : ¬ Q {})
    (hset : ∀ {s s' act'}, Inv s → step s (.call c act') = some s' →
      (s.calls c).Steps s.shared act' (s'.calls c) s'.shared → ¬ Q (s.calls c) → Q (s'.calls c) →
      act' = act ∧ R s (s'.calls c))
    (hkeep : ∀ {s₁ s act' call' u'}, Inv s → (s.calls c).Steps s.shared act' call' u' →
      R s₁ (s.calls c) → Q (s.calls c) → R s₁ call')
    (h : run step labels (initial u₀) = some s) (hs : Q (s.calls c)) :
    Took u₀ labels (.call c act) fun s₁ => R s₁ (s.calls c) := by
  refine run_since (Q := fun s => Q (s.calls c)) (R := fun s₁ s => R s₁ (s.calls c)) hstart
    ?_ ?_ h hs
  · intro ls s l' s' hrun hstep hbefore hafter
    rcases step_cases hstep c with ⟨act',rfl,hsteps⟩ | ⟨-,hsame⟩
    · obtain ⟨rfl,hR⟩ := hset (run_inv hidx hrun) hstep hsteps hbefore hafter
      exact ⟨rfl,hR⟩
    · rw [hsame] at hafter
      exact absurd hafter hbefore
  · intro ls s₁ s l' s' hrun hR hQ hstep
    rcases step_cases hstep c with ⟨act',rfl,hsteps⟩ | ⟨-,hsame⟩
    · exact hkeep (run_inv hidx hrun) hsteps hR hQ
    · rw [hsame]
      exact hR

/-- The snapshot of a call is the list as it stood at one step of the run. -/
theorem took_snapshot (hidx : 0 ≤ u₀.dnsExchangeIdx) (h : run step labels (initial u₀) = some s)
    {c : ℕ} (hphase : (s.calls c).phase ≠ .entered) :
    Took u₀ labels (.call c .copyList) fun s₁ =>
      (s.calls c).snapshot = (s₁.shared.dnsExchanges,s₁.shared.dnsExchange) := by
  refine took_call (Q := fun call => call.phase ≠ .entered) (R := fun s₁ call => call.snapshot =
    (s₁.shared.dnsExchanges,s₁.shared.dnsExchange)) hidx (fun hne => hne rfl) ?_ ?_ h hphase
  · intro s s' act' _ _ hsteps hbefore hafter
    have hentered : (s.calls c).phase = .entered := not_not.mp hbefore
    exact hsteps.of_entered hentered
  · intro s₁ s act' call' u' _ hsteps hR hne
    rw [hsteps.snapshot_eq hne]
    exact hR

/-- The index that a call starts from is the one that stood there at one step of the run. -/
theorem took_sticky (hidx : 0 ≤ u₀.dnsExchangeIdx) (h : run step labels (initial u₀) = some s)
    {c : ℕ} {idx : ℤ} (hsticky : (s.calls c).sticky = some idx) :
    Took u₀ labels (.call c .loadIdx) fun s₁ => s₁.shared.dnsExchangeIdx = idx := by
  have hsome : (s.calls c).sticky ≠ none := by simp [hsticky]
  have htook : Took u₀ labels (.call c .loadIdx) fun s₁ =>
      (s.calls c).sticky = some s₁.shared.dnsExchangeIdx := by
    refine took_call (Q := fun call => call.sticky ≠ none) (R := fun s₁ call => call.sticky =
      some s₁.shared.dnsExchangeIdx) hidx (fun hne => hne rfl) ?_ ?_ h hsome
    · intro s s' act' _ _ hsteps hbefore hafter
      exact hsteps.sticky_set (not_not.mp hbefore) hafter
    · intro s₁ s act' call' u' hinv hsteps hR hne
      rw [hsteps.sticky_eq (hinv.sound c) hne]
      exact hR
  obtain ⟨pre,post,s₁,hlabels,hrun,hR⟩ := htook
  exact ⟨pre,post,s₁,hlabels,hrun,Option.some.inj (hR.symm.trans hsticky)⟩

/-- The index that a call stores is in place after one step of the run. -/
theorem took_stored (hidx : 0 ≤ u₀.dnsExchangeIdx) (h : run step labels (initial u₀) = some s)
    {c : ℕ} {idx : ℤ} (hstored : (s.calls c).stored = some idx) :
    Took u₀ labels (.call c .storeIdx) fun s₁ =>
      ∃ s₂, step s₁ (.call c .storeIdx) = some s₂ ∧ s₂.shared.dnsExchangeIdx = idx := by
  have hsome : (s.calls c).stored ≠ none := by simp [hstored]
  have htook : Took u₀ labels (.call c .storeIdx) fun s₁ => ∃ s₂,
      step s₁ (.call c .storeIdx) = some s₂ ∧
        (s.calls c).stored = some s₂.shared.dnsExchangeIdx := by
    refine took_call (Q := fun call => call.stored ≠ none) (R := fun s₁ call => ∃ s₂,
      step s₁ (.call c .storeIdx) = some s₂ ∧ call.stored = some s₂.shared.dnsExchangeIdx)
      hidx (fun hne => hne rfl) ?_ ?_ h hsome
    · intro s s' act' _ hstep hsteps hbefore hafter
      obtain ⟨rfl,heq⟩ := hsteps.stored_set (not_not.mp hbefore) hafter
      exact ⟨rfl,s',hstep,heq⟩
    · intro s₁ s act' call' u' hinv hsteps hR hne
      rw [hsteps.stored_eq (hinv.sound c) hne]
      exact hR
  obtain ⟨pre,post,s₁,hlabels,hrun,s₂,hstep,hR⟩ := htook
  exact ⟨pre,post,s₁,hlabels,hrun,s₂,hstep,Option.some.inj (hR.symm.trans hstored)⟩

theorem GoesAround.nodup {n start : ℕ} {asked : List (Attempt ι ρ)}
    (h : GoesAround n start asked) : (asked.map Attempt.place).Nodup :=
  h.sublist.nodup ((around_nodup n start).map Nat.cast_injective)

theorem GoesAround.mem {n start : ℕ} {asked : List (Attempt ι ρ)} (h : GoesAround n start asked)
    {a : Attempt ι ρ} (ha : a ∈ asked) : 0 ≤ a.place ∧ a.place < n := by
  have hmem := h.subset (List.mem_map_of_mem ha)
  obtain ⟨k,hk,hplace⟩ := List.mem_map.mp hmem
  have hlt := mem_around.mp hk
  omega

theorem Call.Sound.goesAround {call : Call ι ρ} (h : call.Sound) (hne : call.snapshot.1 ≠ []) :
    GoesAround call.snapshot.1.length call.start call.asked := by
  have hnil : call.asked = [] → GoesAround call.snapshot.1.length call.start call.asked := by
    intro hasked
    rw [hasked]
    exact List.nil_prefix
  cases hphase : call.phase with
  | entered =>
    simp only [Call.Sound,hphase] at h
    exact hnil h.1
  | fallback single =>
    simp only [Call.Sound,hphase] at h
    exact hnil h.2.1
  | copied exchanges =>
    simp only [Call.Sound,hphase] at h
    exact hnil h.2.2.1
  | trying exchanges start i =>
    simp only [Call.Sound,hphase] at h
    obtain ⟨rfl,-,-,hplaces,-⟩ := h
    rw [GoesAround,hplaces]
    exact (List.take_prefix _ _).map _
  | storing idx result =>
    simp only [Call.Sound,hphase] at h
    exact h.2.2.1
  | returned result =>
    simp only [Call.Sound,hphase] at h
    rcases h with ⟨hempty,-⟩ | ⟨-,hgoes,-⟩
    · exact absurd hempty hne
    · exact hgoes
  | panicked fault => simp [Call.Sound,hphase] at h

/-- What the calls promise, of a call in a state that a run reaches. -/
structure Correct (u₀ : Upstreams ι) (labels : List (Label ι ρ)) (c : ℕ) (call : Call ι ρ) :
    Prop where
  no_panic : ∀ fault, call.phase ≠ .panicked fault
  one_snapshot : call.phase ≠ .entered → Took u₀ labels (.call c .copyList) fun s₁ =>
    call.snapshot = (s₁.shared.dnsExchanges,s₁.shared.dnsExchange)
  on_snapshot : call.OnSnapshot
  from_sticky : ∀ idx, call.sticky = some idx → 0 ≤ idx ∧
    Took u₀ labels (.call c .loadIdx) fun s₁ => s₁.shared.dnsExchangeIdx = idx
  goes_around : call.snapshot.1 ≠ [] →
    GoesAround call.snapshot.1.length call.start call.asked ∧ (call.asked.map Attempt.place).Nodup ∧
      ∀ a ∈ call.asked, 0 ≤ a.place ∧ a.place < call.snapshot.1.length
  ends : ∀ result, call.phase = .returned result → call.snapshot.1 ≠ [] → call.sticky ≠ none ∧
    ∃ idx, Ends call.snapshot.1.length call.start call.asked result idx ∧
      Took u₀ labels (.call c .storeIdx) fun s₁ => ∃ s₂,
        step s₁ (.call c .storeIdx) = some s₂ ∧ s₂.shared.dnsExchangeIdx = idx
  falls_back : ∀ result, call.phase = .returned result → call.snapshot.1 = [] →
    call.FellBack result

/-- Every call of every run keeps to the order, however the calls and the reconfigurations
interleave. -/
theorem exchangeMsg_interleaved (hidx : 0 ≤ u₀.dnsExchangeIdx)
    (h : run step labels (initial u₀) = some s) (c : ℕ) : Correct u₀ labels c (s.calls c) := by
  have hinv := run_inv hidx h
  have hsound := hinv.sound c
  refine ⟨?_,took_snapshot hidx h,hinv.onSnapshot c,?_,?_,?_,?_⟩
  · intro fault hphase
    simp [Call.Sound,hphase] at hsound
  · intro idx hsticky
    obtain ⟨pre,post,s₁,hlabels,hrun,hs₁⟩ := took_sticky hidx h hsticky
    refine ⟨?_,pre,post,s₁,hlabels,hrun,hs₁⟩
    rw [← hs₁]
    exact (run_inv hidx hrun).idx_nonneg
  · intro hne
    have hgoes := hsound.goesAround hne
    exact ⟨hgoes,hgoes.nodup,fun a ha => hgoes.mem ha⟩
  · intro result hphase hne
    simp only [Call.Sound,hphase] at hsound
    rcases hsound with ⟨hempty,-⟩ | ⟨-,-,hsticky,idx,hstored,hends⟩
    · exact absurd hempty hne
    · exact ⟨hsticky,idx,hends,took_stored hidx h hstored⟩
  · intro result hphase hempty
    simp only [Call.Sound,hphase] at hsound
    rcases hsound with ⟨-,hfell⟩ | ⟨hne,-⟩
    · exact hfell
    · exact absurd hempty hne

/-- A call that loads the index 5 after the list of two that it copied was replaced: it asks
the second exchange and then the first. -/
def overtaken : List (Label ℕ Unit) :=
  [.call 0 .copyList,.setDNS [7],.call 0 .loadIdx,.call 0 (.ask (.error "down")),
    .call 0 (.ask (.ok ())),.call 0 .storeIdx]

def stickyAtFive : Upstreams ℕ := ⟨[3,4],some 3,5⟩

theorem exchangeMsg_interleaved_overtaken :
    ∃ s, run step overtaken (initial stickyAtFive) = some s ∧
      Correct stickyAtFive overtaken 0 (s.calls 0) ∧ s.shared.dnsExchangeIdx = 0 ∧
      (s.calls 0).asked.map Attempt.exchange = [4,3] ∧
      (s.calls 0).phase = .returned (.ok ()) :=
  ⟨_,rfl,exchangeMsg_interleaved (by decide) rfl 0,rfl,rfl,rfl⟩

end Runs

section Alone

variable {ι ρ : Type} (ask : ι → Except String ρ)

/-- The steps of a call that no other comes between. -/
def alone (p : Call ι ρ × Upstreams ι) (act : Act ρ) : Option (Call ι ρ × Upstreams ι) :=
  Call.step p.2 p.1 act

theorem alone_ask {exchanges : List ι} {start i : ℕ} {call : Call ι ρ} (u : Upstreams ι)
    (hn : 0 < exchanges.length) (hphase : call.phase = .trying exchanges start i)
    (outcome : Except String ρ) :
    ∃ call', alone (call,u) (.ask outcome) = some (call',u) ∧ call'.phase =
      afterAsk exchanges start i (((start+i)%exchanges.length : ℕ) : ℤ) outcome := by
  have helem := elem_ofNat (Nat.mod_lt (start+i) hn)
  rw [← tmod_add_natCast] at helem ⊢
  simp only [alone,Call.step,hphase,helem]
  exact ⟨_,rfl,rfl⟩

/-- The rounds of a call are those of the loop. -/
theorem alone_trying {exchanges : List ι} {start i : ℕ} {call : Call ι ρ} (rounds : ℕ)
    (lastErr : String) (u : Upstreams ι) (hround : i+(rounds+1) = exchanges.length)
    (hphase : call.phase = .trying exchanges start i) :
    ∃ acts call' r, askFrom ask exchanges start (rounds+1) i lastErr = .ok r ∧
      run alone acts (call,u) = some (call',u) ∧ call'.phase = .storing r.2 r.1 := by
  have hn : 0 < exchanges.length := by omega
  induction rounds generalizing i lastErr call with
  | zero =>
    rw [askFrom_succ hn]
    obtain ⟨call',hstep,hphase'⟩ := alone_ask u hn hphase
      (ask (exchanges.get ⟨(start+i)%exchanges.length,Nat.mod_lt _ hn⟩))
    refine ⟨[.ask (ask (exchanges.get ⟨(start+i)%exchanges.length,Nat.mod_lt _ hn⟩))],call',?_⟩
    have hlast : ¬ i+1 < exchanges.length := by omega
    cases hask : ask (exchanges.get ⟨(start+i)%exchanges.length,Nat.mod_lt _ hn⟩) with
    | ok resp =>
      rw [hask] at hstep hphase'
      exact ⟨_,rfl,by simp [run,hstep],hphase'⟩
    | error err =>
      rw [hask] at hstep hphase'
      rw [afterAsk,if_neg hlast] at hphase'
      exact ⟨_,rfl,by simp [run,hstep],hphase'⟩
  | succ rounds ih =>
    rw [askFrom_succ hn]
    obtain ⟨call₁,hstep,hphase₁⟩ := alone_ask u hn hphase
      (ask (exchanges.get ⟨(start+i)%exchanges.length,Nat.mod_lt _ hn⟩))
    cases hask : ask (exchanges.get ⟨(start+i)%exchanges.length,Nat.mod_lt _ hn⟩) with
    | ok resp =>
      rw [hask] at hstep hphase₁
      exact ⟨[.ask (.ok resp)],call₁,_,rfl,by simp [run,hstep],hphase₁⟩
    | error err =>
      rw [hask] at hstep hphase₁
      rw [afterAsk,if_pos (by omega)] at hphase₁
      obtain ⟨acts,call',r,hr,hrun,hphase'⟩ := ih err (by omega) hphase₁
      exact ⟨.ask (.error err)::acts,call',r,hr,by simpa [run,hstep] using hrun,hphase'⟩

/-- A call on its own returns and stores what the function does. -/
theorem alone_returns {u : Upstreams ι} (hidx : 0 ≤ u.dnsExchangeIdx) :
    ∃ acts call' r, exchangeMsg ask u = .ok r ∧ run alone acts ({},u) = some (call',r.2) ∧
      call'.phase = .returned r.1 := by
  by_cases hnil : u.dnsExchanges = []
  · rw [exchangeMsg,if_pos hnil]
    cases hsingle : u.dnsExchange with
    | none =>
      refine ⟨[.copyList],_,_,rfl,rfl,?_⟩
      simp [afterCopy,hnil,hsingle,exchangeUpstream]
    | some single =>
      refine ⟨[.copyList,.ask (ask single)],{
        phase := .returned (ask single)
        snapshot := (u.dnsExchanges,u.dnsExchange)
        asked := [⟨0,single,ask single⟩]},_,rfl,?_,?_⟩
      · simp [run,alone,Call.step,afterCopy,hnil,hsingle]
      · simp [exchangeUpstream,hsingle]
  · have hn : 0 < u.dnsExchanges.length := List.length_pos_iff.mpr hnil
    set start := u.dnsExchangeIdx.toNat%u.dnsExchanges.length with hstart
    have hmod : u.dnsExchangeIdx.tmod u.dnsExchanges.length = start := tmod_natCast _ _ hidx
    let call₁ : Call ι ρ := {
      phase := .trying u.dnsExchanges start 0
      snapshot := (u.dnsExchanges,u.dnsExchange)
      sticky := some u.dnsExchangeIdx}
    have hload : run alone [.copyList,.loadIdx] ({},u) = some (call₁,u) := by
      simp [run,alone,Call.step,afterCopy,hnil,hmod,call₁]
    obtain ⟨acts,call₂,r,hr,hrun,hphase⟩ := alone_trying ask (u.dnsExchanges.length-1)
      "" u (by omega) (rfl : call₁.phase = .trying u.dnsExchanges start 0)
    have hrounds : u.dnsExchanges.length-1+1 = u.dnsExchanges.length := by omega
    rw [hrounds] at hr
    let call₃ : Call ι ρ := {call₂ with phase := .returned r.1, stored := some r.2}
    have hstore : alone (call₂,u) .storeIdx = some (call₃,{u with dnsExchangeIdx := r.2}) := by
      simp [alone,Call.step,hphase,call₃]
    refine ⟨([.copyList,.loadIdx]++acts)++[.storeIdx],call₃,
      (r.1,{u with dnsExchangeIdx := r.2}),?_,?_,rfl⟩
    · simp only [exchangeMsg,if_neg hnil,hmod,hr,ok_bind,pure_eq_ok]
    · rw [run_concat,run_append,hload,Option.bind_some,hrun,Option.bind_some,hstore]

end Alone

end ExchangeRace
end Enimul
