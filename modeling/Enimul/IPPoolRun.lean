import Enimul.IPPool
import Enimul.Machine

/-! Runs of a pool: scans and calls of `Get` in any order.
A call of `Get` reads the pool under the lock in one step and takes its number from the counter in
a later one; between the two there may be scans and other calls. Calls are told apart by numbers. -/
namespace Enimul
namespace Pool

open GoSlice GoText Machine

/-- An address that was handed out, with its position among the best ones; the fallback has
none. -/
structure Return where
  id : ℕ
  pos : Option ℕ
  ip : Str
  deriving DecidableEq, Repr

structure State where
  pool : IPPool
  /-- The calls that have read the pool and have not returned. -/
  reading : ℕ → Option Snapshot := fun _ => none
  started : List ℕ := []
  returns : List Return := []
  panics : List Panic := []

inductive Label
  | scan (weightVal : IPResult → ℚ) (results : List IPResult)
  | read (id : ℕ)
  | finish (id : ℕ)

def stepScan (s : State) (weightVal : IPResult → ℚ) (results : List IPResult) : Option State :=
  if results.all fun res => res.ipIndex < s.pool.ips.length then
    match updateBest weightVal s.pool results with
    | .ok p => some {s with pool := p}
    | .error panic => some {s with panics := s.panics++[panic]}
  else none

def stepRead (s : State) (id : ℕ) : Option State :=
  if id ∈ s.started then none
  else
    let s := {s with started := id::s.started}
    match getRead s.pool with
    | .ok none => some {s with returns := s.returns++[⟨id,none,s.pool.fallbackIP⟩]}
    | .ok (some snap) => some {s with reading := Function.update s.reading id (some snap)}
    | .error panic => some {s with panics := s.panics++[panic]}

def stepFinish (s : State) (id : ℕ) : Option State :=
  match s.reading id with
  | none => none
  | some snap =>
    let current := s.pool.counter
    let s := {s with
      pool := {s.pool with counter := s.pool.counter+1}
      reading := Function.update s.reading id none }
    match getPick s.pool snap current with
    | .ok (pos,ip) => some {s with returns := s.returns++[⟨id,pos,ip⟩]}
    | .error panic => some {s with panics := s.panics++[panic]}

def step (s : State) : Label → Option State
  | .scan weightVal results => stepScan s weightVal results
  | .read id => stepRead s id
  | .finish id => stepFinish s id

/-- The pool is consistent, and what has been read from it can be used. -/
structure Sound (s : State) : Prop where
  consistent : Consistent s.pool
  usable : ∀ id snap, s.reading id = some snap → Usable s.pool snap

/-- What a step of a sound state does. -/
inductive Moves (s : State) : Label → State → Prop
  | unusable (weightVal : IPResult → ℚ) : Moves s (.scan weightVal []) s
  | scan {weightVal : IPResult → ℚ} {results : List IPResult} {p : IPPool} (hne : results ≠ [])
      (hp : Updated weightVal results s.pool p) :
      Moves s (.scan weightVal results) {s with pool := p}
  | fallback {id : ℕ} (hid : id ∉ s.started) (hvalid : s.pool.curValidIPs = 0) :
      Moves s (.read id) {s with
        started := id::s.started
        returns := s.returns++[⟨id,none,s.pool.fallbackIP⟩] }
  | read {id : ℕ} (hid : id ∉ s.started) (hvalid : s.pool.curValidIPs ≠ 0) :
      Moves s (.read id) {s with
        started := id::s.started
        reading := Function.update s.reading id (some (snapshot s.pool)) }
  | finish {id i index : ℕ} {snap : Snapshot} {ip : Str} (hreading : s.reading id = some snap)
      (hpos : position snap s.pool.counter.toNat = some i) (hindex : snap.indexes[i]? = some index)
      (hip : s.pool.ips[index]? = some ip) :
      Moves s (.finish id) {s with
        pool := {s.pool with counter := s.pool.counter+1}
        reading := Function.update s.reading id none
        returns := s.returns++[⟨id,some i,ip⟩] }

variable {s s' : State} {l : Label}

theorem stepScan_moves (h : Sound s) {weightVal : IPResult → ℚ} {results : List IPResult}
    (hstep : stepScan s weightVal results = some s') : Moves s (.scan weightVal results) s' := by
  unfold stepScan at hstep
  split at hstep
  · rename_i hall
    by_cases hne : results = []
    · subst hne
      cases hstep
      exact .unusable weightVal
    · obtain ⟨p,hp,hupdated⟩ := updateBest_updated weightVal h.consistent hne (by simpa using hall)
      rw [hp] at hstep
      cases hstep
      exact .scan hne hupdated
  · cases hstep

theorem stepRead_moves (h : Sound s) {id : ℕ} (hstep : stepRead s id = some s') :
    Moves s (.read id) s' := by
  unfold stepRead at hstep
  split at hstep
  · cases hstep
  · rename_i hid
    simp only [h.consistent.getRead] at hstep
    by_cases hvalid : s.pool.curValidIPs = 0
    · rw [if_pos hvalid] at hstep
      cases hstep
      exact .fallback hid hvalid
    · rw [if_neg hvalid] at hstep
      cases hstep
      exact .read hid hvalid

theorem stepFinish_moves (h : Sound s) {id : ℕ} (hstep : stepFinish s id = some s') :
    Moves s (.finish id) s' := by
  unfold stepFinish at hstep
  cases hreading : s.reading id with
  | none =>
    rw [hreading] at hstep
    cases hstep
  | some snap =>
    rw [hreading] at hstep
    have husable := h.usable id snap hreading
    obtain ⟨i,index,ip,hpos,hindex,hip,hpick⟩ :=
      Usable.getPick (p := {s.pool with counter := s.pool.counter+1})
        ⟨husable.length_eq,husable.total_eq,husable.total_pos,husable.indexes_lt⟩ s.pool.counter
    simp only [hpick] at hstep
    cases hstep
    exact .finish hreading hpos hindex hip

theorem step_moves (h : Sound s) (hstep : step s l = some s') : Moves s l s' := by
  cases l with
  | scan weightVal results => exact stepScan_moves h hstep
  | read id => exact stepRead_moves h hstep
  | finish id => exact stepFinish_moves h hstep

theorem Usable.mono {p p' : IPPool} {snap : Snapshot} (h : Usable p snap) (hips : p'.ips = p.ips) :
    Usable p' snap where
  length_eq := h.length_eq
  total_eq := h.total_eq
  total_pos := h.total_pos
  indexes_lt := by
    rw [hips]
    exact h.indexes_lt

theorem Updated.ips_eq {weightVal : IPResult → ℚ} {results : List IPResult} {p p' : IPPool}
    (h : Updated weightVal results p p') : p'.ips = p.ips := by rw [h.frame]

/-- What is read after a call has been added or taken away. -/
theorem reading_update {f : ℕ → Option Snapshot} {id id' : ℕ} {new : Option Snapshot}
    {snap : Snapshot} (h : Function.update f id new id' = some snap) :
    id' = id ∧ new = some snap ∨ id' ≠ id ∧ f id' = some snap := by
  by_cases heq : id' = id
  · subst heq
    rw [Function.update_self] at h
    exact .inl ⟨rfl,h⟩
  · rw [Function.update_of_ne heq] at h
    exact .inr ⟨heq,h⟩

theorem Moves.sound (h : Sound s) (hmoves : Moves s l s') : Sound s' := by
  cases hmoves with
  | unusable weightVal => exact h
  | scan hne hp => exact ⟨hp.consistent,fun id snap hread => (h.usable id snap hread).mono hp.ips_eq⟩
  | fallback hid hvalid => exact ⟨h.consistent,h.usable⟩
  | read hid hvalid =>
    refine ⟨h.consistent,fun id' snap hread => ?_⟩
    obtain ⟨-,hsnap⟩|⟨-,hold⟩ := reading_update hread
    · obtain rfl := Option.some.inj hsnap
      exact h.consistent.usable hvalid
    · exact h.usable id' snap hold
  | finish hreading hpos hindex hip =>
    have hc := h.consistent
    refine ⟨⟨hc.top_pos,hc.indexes_length,hc.weights_length,hc.valid_le,hc.total_eq,
      hc.weights_range,hc.indexes_lt⟩,fun id' snap hread => ?_⟩
    obtain ⟨-,hsnap⟩|⟨-,hold⟩ := reading_update hread
    · cases hsnap
    · exact (h.usable id' snap hold).mono rfl

theorem Updated.valid_ne_zero {weightVal : IPResult → ℚ} {results : List IPResult} {p p' : IPPool}
    (h : Updated weightVal results p p') (hp : Consistent p) (hne : results ≠ []) :
    p'.curValidIPs ≠ 0 := by
  have htop := hp.top_pos
  have hlen := List.length_pos_iff.mpr hne
  rw [h.valid_eq]
  omega

/-- A call that has started is still in flight or has returned. -/
def Awaited (s : State) : Prop :=
  ∀ id ∈ s.started, s.reading id ≠ none ∨ ∃ r ∈ s.returns, r.id = id

theorem Moves.awaited (h : Awaited s) (hmoves : Moves s l s') : Awaited s' := by
  have hkept : ∀ {id : ℕ} (new : Return), (∃ r ∈ s.returns, r.id = id) →
      ∃ r ∈ s.returns++[new], r.id = id :=
    fun new ⟨r,hr,heq⟩ => ⟨r,List.mem_append_left _ hr,heq⟩
  cases hmoves with
  | unusable weightVal => exact h
  | scan hne hp => exact h
  | fallback hid hvalid =>
    intro id' hid'
    cases hid' with
    | head => exact .inr ⟨_,List.mem_append_right _ (.head _),rfl⟩
    | tail _ hid' => exact (h id' hid').imp_right (hkept _)
  | @read id hid hvalid =>
    intro id' hid'
    by_cases heq : id' = id
    · exact .inl (by simp [heq])
    · have hold : id' ∈ s.started := by simpa [heq] using hid'
      simpa [Function.update_of_ne heq] using h id' hold
  | @finish id i index snap ip hread hpos hindex hip =>
    intro id' hid'
    by_cases heq : id' = id
    · exact .inr ⟨_,List.mem_append_right _ (.head _),heq.symm⟩
    · dsimp only
      rw [Function.update_of_ne heq]
      exact (h id' hid').imp_right (hkept _)

/-- A scan that found a usable address. -/
def Label.IsUsable : Label → Prop
  | .scan _ results => results ≠ []
  | _ => False

theorem Label.not_isUsable_read (id : ℕ) : ¬ (Label.read id).IsUsable := fun h => h

theorem Label.not_isUsable_finish (id : ℕ) : ¬ (Label.finish id).IsUsable := fun h => h

theorem Label.not_isUsable_scan (weightVal : IPResult → ℚ) : ¬ (Label.scan weightVal []).IsUsable :=
  fun h => h rfl

section Run

variable {p : IPPool} {ls : List Label}

/-- The call has read this, in a state of the run after a usable scan. -/
def ReadFrom (p : IPPool) (ls : List Label) (id : ℕ) (snap : Snapshot) : Prop :=
  ∃ pre post s₁, ls = pre++.read id::post ∧ run step pre {pool := p} = some s₁ ∧
    (∃ l ∈ pre, l.IsUsable) ∧ snap = snapshot s₁.pool ∧ s₁.pool.ips = p.ips

/-- A call returns the fallback if there had been no usable scan when it read the pool, and one of
the best addresses of that moment otherwise. -/
def FromPool (p : IPPool) (ls : List Label) (r : Return) : Prop :=
  ∃ pre post s₁, ls = pre++.read r.id::post ∧ run step pre {pool := p} = some s₁ ∧
    ((∀ l ∈ pre, ¬ l.IsUsable) ∧ r.ip = p.fallbackIP ∨
      (∃ l ∈ pre, l.IsUsable) ∧ r.ip ∈ bestAddresses s₁.pool)

theorem ReadFrom.concat {id : ℕ} {snap : Snapshot} (h : ReadFrom p ls id snap) (l : Label) :
    ReadFrom p (ls++[l]) id snap := by
  obtain ⟨pre,post,s₁,rfl,h⟩ := h
  exact ⟨pre,post++[l],s₁,by simp,h⟩

theorem FromPool.concat {r : Return} (h : FromPool p ls r) (l : Label) : FromPool p (ls++[l]) r := by
  obtain ⟨pre,post,s₁,rfl,h⟩ := h
  exact ⟨pre,post++[l],s₁,by simp,h⟩

/-- What holds after every run. -/
structure Reached (p : IPPool) (ls : List Label) (s : State) : Prop where
  sound : Sound s
  ips_eq : s.pool.ips = p.ips
  fallback_eq : s.pool.fallbackIP = p.fallbackIP
  valid_iff : s.pool.curValidIPs = 0 ↔ ∀ l ∈ ls, ¬ l.IsUsable
  panics : s.panics = []
  reading : ∀ id snap, s.reading id = some snap → ReadFrom p ls id snap
  returns : ∀ r ∈ s.returns, FromPool p ls r
  started : Awaited s

theorem not_usable_concat (hl : ¬ l.IsUsable) :
    (∀ l' ∈ ls++[l], ¬ l'.IsUsable) ↔ ∀ l' ∈ ls, ¬ l'.IsUsable := by
  rw [List.forall_mem_append,List.forall_mem_singleton,and_iff_left hl]

theorem Reached.start (h : Consistent p) (hvalid : p.curValidIPs = 0) :
    Reached p [] {pool := p} where
  sound := ⟨h,by simp⟩
  ips_eq := rfl
  fallback_eq := rfl
  valid_iff := by simp [hvalid]
  panics := rfl
  reading := by simp
  returns := by simp
  started := by simp [Awaited]

/-- A call that does not go on returns at once. -/
theorem FromPool.fallback (hrun : run step ls {pool := p} = some s) (h : Reached p ls s)
    (hvalid : s.pool.curValidIPs = 0) (id : ℕ) :
    FromPool p (ls++[.read id]) ⟨id,none,s.pool.fallbackIP⟩ :=
  ⟨ls,[],s,rfl,hrun,.inl ⟨h.valid_iff.mp hvalid,h.fallback_eq⟩⟩

theorem ReadFrom.read (hrun : run step ls {pool := p} = some s) (h : Reached p ls s)
    (hvalid : s.pool.curValidIPs ≠ 0) (id : ℕ) :
    ReadFrom p (ls++[.read id]) id (snapshot s.pool) := by
  refine ⟨ls,[],s,rfl,hrun,?_,rfl,h.ips_eq⟩
  by_contra hnone
  refine hvalid (h.valid_iff.mpr fun l hl hu => hnone ⟨l,hl,hu⟩)

theorem FromPool.finish (h : Reached p ls s) {id i index : ℕ} {snap : Snapshot} {ip : Str}
    (hreading : s.reading id = some snap) (hindex : snap.indexes[i]? = some index)
    (hip : s.pool.ips[index]? = some ip) (pos : Option ℕ) : FromPool p ls ⟨id,pos,ip⟩ := by
  obtain ⟨pre,post,s₁,hls,hpre,husable,rfl,hips⟩ := h.reading id snap hreading
  refine ⟨pre,post,s₁,hls,hpre,.inr ⟨husable,?_⟩⟩
  rw [bestAddresses,List.mem_filterMap]
  refine ⟨index,List.mem_of_getElem? hindex,?_⟩
  rw [hips,← h.ips_eq]
  exact hip

theorem Reached.move (hrun : run step ls {pool := p} = some s) (h : Reached p ls s)
    (hmoves : Moves s l s') : Reached p (ls++[l]) s' := by
  have hsound := hmoves.sound h.sound
  have hstarted := hmoves.awaited h.started
  have hkept (hl : ¬ l.IsUsable) := h.valid_iff.trans (not_usable_concat hl).symm
  have hreading := fun id snap hread => (h.reading id snap hread).concat l
  have hreturns := fun r hr => (h.returns r hr).concat l
  have hreturned : ∀ {new : Return}, FromPool p (ls++[l]) new →
      ∀ r ∈ s.returns++[new], FromPool p (ls++[l]) r :=
    fun hnew => List.forall_mem_append.mpr ⟨hreturns,List.forall_mem_singleton.mpr hnew⟩
  cases hmoves with
  | unusable weightVal =>
    exact ⟨hsound,h.ips_eq,h.fallback_eq,hkept (Label.not_isUsable_scan _),h.panics,hreading,
      hreturns,hstarted⟩
  | scan hne hp =>
    refine ⟨hsound,hp.ips_eq.trans h.ips_eq,?_,?_,h.panics,hreading,hreturns,hstarted⟩
    · rw [← h.fallback_eq,hp.frame]
    · have hvalid := hp.valid_ne_zero h.sound.consistent hne
      exact ⟨fun hzero => absurd hzero hvalid,
        fun hall => absurd hne (hall _ (List.mem_append_right ls (.head [])))⟩
  | fallback hid hvalid =>
    exact ⟨hsound,h.ips_eq,h.fallback_eq,hkept (Label.not_isUsable_read _),h.panics,hreading,
      hreturned (.fallback hrun h hvalid _),hstarted⟩
  | read hid hvalid =>
    refine ⟨hsound,h.ips_eq,h.fallback_eq,hkept (Label.not_isUsable_read _),h.panics,
      fun id' snap hread => ?_,hreturns,hstarted⟩
    obtain ⟨rfl,hsnap⟩|⟨-,hold⟩ := reading_update hread
    · obtain rfl := Option.some.inj hsnap
      exact .read hrun h hvalid _
    · exact hreading id' snap hold
  | finish hread hpos hindex hip =>
    refine ⟨hsound,h.ips_eq,h.fallback_eq,hkept (Label.not_isUsable_finish _),h.panics,
      fun id' snap' hread' => ?_,
      hreturned ((FromPool.finish h hread hindex hip _).concat _),hstarted⟩
    obtain ⟨-,hsnap⟩|⟨-,hold⟩ := reading_update hread'
    · cases hsnap
    · exact hreading id' snap' hold

theorem run_reached (h : Consistent p) (hvalid : p.curValidIPs = 0)
    (hrun : run step ls {pool := p} = some s) : Reached p ls s := by
  refine run_invariant (P := Reached p) (Reached.start h hvalid) ?_ hrun
  intro ls s l s' hpre hreached hstep
  exact hreached.move hpre (step_moves hreached.sound hstep)

end Run

/-- After every run of scans and calls on a decoded pool, its counters fit together, no call has
divided by zero or left a slice, and every call that has returned had the fallback exactly if no
usable scan came before its reading of the pool, and one of the best addresses otherwise. -/
theorem ipPool_total {lookupIP : Str → Except String (List Bytes)} {tmp : PoolJSON} {p : IPPool}
    {ls : List Label} {s : State} (hpool : unmarshalJSON lookupIP tmp = .ok p)
    (hrun : run step ls {pool := p} = some s) :
    s.pool.totalWeight = (s.pool.bestWeights.take s.pool.curValidIPs).sum ∧
    (∀ w ∈ s.pool.bestWeights.take s.pool.curValidIPs, 1 ≤ w ∧ w ≤ 10000) ∧
    s.pool.curValidIPs ≤ s.pool.topIPCount ∧ s.panics = [] ∧
    (∀ id ∈ s.started, s.reading id ≠ none ∨ ∃ r ∈ s.returns, r.id = id) ∧
    ∀ r ∈ s.returns, ∃ pre post s₁, ls = pre++.read r.id::post ∧
      run step pre {pool := p} = some s₁ ∧
      ((∀ l ∈ pre, ¬ l.IsUsable) ∧ r.ip = p.fallbackIP ∨
        (∃ l ∈ pre, l.IsUsable) ∧ r.ip ∈ bestAddresses s₁.pool) := by
  obtain ⟨hconsistent,hvalid⟩ := unmarshalJSON_consistent hpool
  have h := run_reached hconsistent hvalid hrun
  have hc := h.sound.consistent
  exact ⟨hc.total_eq,hc.weights_range,hc.valid_le,h.panics,h.started,h.returns⟩

/-- Two addresses, of which the second one answers a scan. -/
def twoAddresses : PoolJSON :=
  {ips := [str "192.0.2.1",str "192.0.2.2"],fallbackIP := str "192.0.2.9",port := 443}

def twoAddressPool : IPPool where
  waitScanOnStartUp := false
  ips := [str "192.0.2.1",str "192.0.2.2"]
  fallbackIP := str "192.0.2.9"
  port := 443
  topIPCount := 3
  attempts := 4
  timeout := defaultTimeout
  updateInterval := defaultUpdateInterval
  maxConcurrency := 100
  bestIndexes := [0,0,0]
  bestWeights := [0,0,0]

def scannedPool : IPPool :=
  {twoAddressPool with
    bestIndexes := [1,0,0]
    bestWeights := [5,0,0]
    totalWeight := 5
    curValidIPs := 1 }

theorem updateBest_scannedPool :
    updateBest (fun _ => 5) twoAddressPool [⟨1,20,0⟩] = .ok scannedPool := by
  rw [updateBest,sortResults,List.mergeSort_singleton]
  decide +kernel

def twoAddressRun : List Label :=
  [.read 0,.scan (fun _ => 5) [⟨1,20,0⟩],.read 1,.scan (fun _ => 5) [],.finish 1]

theorem twoAddressRun_returns :
    ∃ s, run step twoAddressRun {pool := twoAddressPool} = some s ∧
      s.returns = [⟨0,none,str "192.0.2.9"⟩,⟨1,some 0,str "192.0.2.2"⟩] := by
  have hread : step {pool := twoAddressPool} (.read 0) = some _ := rfl
  rw [twoAddressRun,run,hread,Option.bind_some,run,step,stepScan,if_pos (by rfl),
    updateBest_scannedPool]
  exact ⟨_,rfl,rfl⟩

theorem ipPool_total_twoAddresses :
    ∃ s, run step twoAddressRun {pool := twoAddressPool} = some s ∧ s.panics = [] ∧
      s.returns.length = 2 := by
  obtain ⟨s,hrun,hreturns⟩ := twoAddressRun_returns
  have hpool : unmarshalJSON (fun _ => .ok []) twoAddresses = .ok twoAddressPool := rfl
  exact ⟨s,hrun,(ipPool_total hpool hrun).2.2.2.1,by rw [hreturns]; rfl⟩

/-! ### The order of the addresses -/

def Label.isFinish : Label → Bool
  | .finish _ => true
  | _ => false

def Label.isScan : Label → Bool
  | .scan _ _ => true
  | _ => false

/-- The `i`-th best address. -/
def addressAt (p : IPPool) (i : ℕ) : Option Str :=
  (p.bestIndexes.take p.curValidIPs)[i]?.bind (p.ips[·]?)

/-- The state after `n` calls have returned since `s`, without a scan. -/
structure Turned (s : State) (n : ℕ) (s' : State) : Prop where
  pool_eq : s'.pool = {s.pool with counter := s.pool.counter+UInt32.ofNat n}
  current : ∀ id snap, s'.reading id = some snap → snap = snapshot s.pool
  returns : ∃ new, s'.returns = s.returns++new ∧ new.length = n ∧
    (∀ i, new.countP (fun r => r.pos = some i) =
      Nat.count (fun k => position (snapshot s.pool) (s.pool.counter.toNat+k) = some i) n) ∧
    ∀ r ∈ new, ∀ i, r.pos = some i → addressAt s.pool i = some r.ip

theorem Turned.sound {n : ℕ} (h : Turned s n s') (hc : Consistent s.pool)
    (hvalid : s.pool.curValidIPs ≠ 0) : Sound s' := by
  refine ⟨?_,fun id snap hread => ?_⟩
  · rw [h.pool_eq]
    exact ⟨hc.top_pos,hc.indexes_length,hc.weights_length,hc.valid_le,hc.total_eq,
      hc.weights_range,hc.indexes_lt⟩
  · obtain rfl := h.current id snap hread
    exact (hc.usable hvalid).mono (by rw [h.pool_eq])

theorem Turned.start (hcurrent : ∀ id snap, s.reading id = some snap → snap = snapshot s.pool) :
    Turned s 0 s where
  pool_eq := by
    have hzero : s.pool.counter+UInt32.ofNat 0 = s.pool.counter := by simp
    rw [hzero]
  current := hcurrent
  returns := ⟨[],by simp,rfl,by simp,by simp⟩

theorem Turned.read {n id : ℕ} (h : Turned s n s') :
    Turned s n {s' with
      started := id::s'.started
      reading := Function.update s'.reading id (some (snapshot s'.pool)) } where
  pool_eq := h.pool_eq
  current := by
    intro id' snap hread
    obtain ⟨-,hsnap⟩|⟨-,hold⟩ := reading_update hread
    · rw [← Option.some.inj hsnap,h.pool_eq]
      rfl
    · exact h.current id' snap hold
  returns := h.returns

theorem Turned.finish {n id i index : ℕ} {snap : Snapshot} {ip : Str} (h : Turned s n s')
    (hwrap : s.pool.counter.toNat+n < 2^32) (hreading : s'.reading id = some snap)
    (hpos : position snap s'.pool.counter.toNat = some i) (hindex : snap.indexes[i]? = some index)
    (hip : s'.pool.ips[index]? = some ip) :
    Turned s (n+1) {s' with
      pool := {s'.pool with counter := s'.pool.counter+1}
      reading := Function.update s'.reading id none
      returns := s'.returns++[⟨id,some i,ip⟩] } := by
  obtain rfl := h.current id snap hreading
  obtain ⟨new,hnew,hlen,hcount,haddr⟩ := h.returns
  have hcounter : s'.pool.counter.toNat = s.pool.counter.toNat+n := by
    rw [h.pool_eq]
    change (s.pool.counter+UInt32.ofNat n).toNat = _
    rw [UInt32.toNat_add,UInt32.toNat_ofNat_of_lt' (by change n < 2^32; omega)]
    exact Nat.mod_eq_of_lt hwrap
  rw [hcounter] at hpos
  refine ⟨?_,fun id' snap hread => ?_,new++[⟨id,some i,ip⟩],?_,?_,fun j => ?_,?_⟩
  · have hadd : s.pool.counter+UInt32.ofNat n+1 = s.pool.counter+UInt32.ofNat (n+1) := by
      rw [UInt32.ofNat_add,UInt32.add_assoc]
      rfl
    simp only [h.pool_eq,hadd]
  · obtain ⟨-,hsnap⟩|⟨-,hold⟩ := reading_update hread
    · cases hsnap
    · exact h.current id' snap hold
  · rw [hnew,List.append_assoc]
  · rw [List.length_append,hlen]
    rfl
  · rw [List.countP_append,hcount,Nat.count_succ,hpos]
    simp [List.countP_cons]
  · intro r hr j hj
    obtain hold|hlast := List.mem_append.mp hr
    · exact haddr r hold j hj
    · obtain rfl := List.mem_singleton.mp hlast
      cases hj
      rw [h.pool_eq] at hip
      rw [addressAt]
      change (snapshot s.pool).indexes[i]?.bind _ = _
      rw [hindex]
      exact hip

theorem Turned.move {n : ℕ} (h : Turned s n s') {s'' : State} (hvalid : s.pool.curValidIPs ≠ 0)
    (hwrap : l.isFinish = true → s.pool.counter.toNat+n < 2^32) (hscan : l.isScan = false)
    (hmoves : Moves s' l s'') :
    Turned s (n+if l.isFinish then 1 else 0) s'' := by
  cases hmoves with
  | unusable weightVal => cases hscan
  | scan hne hp => cases hscan
  | fallback hid hzero =>
    rw [h.pool_eq] at hzero
    exact absurd hzero hvalid
  | read hid hread => exact h.read
  | finish hreading hpos hindex hip => exact h.finish (hwrap rfl) hreading hpos hindex hip

theorem run_turned {ls : List Label} (hc : Consistent s.pool) (hvalid : s.pool.curValidIPs ≠ 0)
    (hcurrent : ∀ id snap, s.reading id = some snap → snap = snapshot s.pool)
    (hscan : ∀ l ∈ ls, l.isScan = false)
    (hwrap : s.pool.counter.toNat+ls.countP Label.isFinish ≤ 2^32)
    (hrun : run step ls s = some s') : Turned s (ls.countP Label.isFinish) s' := by
  refine run_invariant (P := fun ls s' => (∀ l ∈ ls, l.isScan = false) →
    s.pool.counter.toNat+ls.countP Label.isFinish ≤ 2^32 → Turned s (ls.countP Label.isFinish) s')
    (fun _ _ => Turned.start hcurrent) ?_ hrun hscan hwrap
  intro ls s₁ l s₂ _ ih hstep hscan hwrap
  rw [List.countP_append,List.countP_singleton] at hwrap ⊢
  have hturned := ih (fun l' hl' => hscan l' (List.mem_append_left _ hl')) (by omega)
  refine hturned.move hvalid (fun hl => ?_) (hscan l (by simp))
    (step_moves (hturned.sound hc hvalid) hstep)
  rw [hl,if_pos rfl] at hwrap
  omega

/-- While there is no scan, as many calls as the weights sum up to return the address of each
position as often as its weight says, in whatever order the calls overlap. -/
theorem get_round_robin {ls : List Label} (hc : Consistent s.pool) (hpos : 0 < s.pool.totalWeight)
    (hcurrent : ∀ id snap, s.reading id = some snap → snap = snapshot s.pool)
    (hscan : ∀ l ∈ ls, l.isScan = false)
    (hcalls : ls.countP Label.isFinish = s.pool.totalWeight)
    (hwrap : s.pool.counter.toNat+s.pool.totalWeight ≤ 2^32) (hrun : run step ls s = some s') :
    ∃ new, s'.returns = s.returns++new ∧ new.length = s.pool.totalWeight ∧
      ∀ i w, (s.pool.bestWeights.take s.pool.curValidIPs)[i]? = some w →
        new.countP (fun r => r.pos = some i) = w ∧
        ∀ r ∈ new, r.pos = some i → addressAt s.pool i = some r.ip := by
  have hvalid : s.pool.curValidIPs ≠ 0 := by
    intro hzero
    rw [hc.total_eq,hzero] at hpos
    simp at hpos
  have hturned := run_turned hc hvalid hcurrent hscan (by rw [hcalls]; exact hwrap) hrun
  rw [hcalls] at hturned
  obtain ⟨new,hnew,hlen,hcount,haddr⟩ := hturned.returns
  refine ⟨new,hnew,hlen,fun i w hw => ⟨?_,fun r hr hri => haddr r hr i hri⟩⟩
  obtain ⟨hi,rfl⟩ := List.getElem?_eq_some_iff.mp hw
  have hshare := WeightedChoice.count_choose_mod hi s.pool.counter.toNat
  rw [← hc.total_eq] at hshare
  rw [hcount]
  exact hshare

/-- A pool with the weights 2 and 1, just before a round of three calls, of which one has begun. -/
def threeCalls : State where
  pool := {twoAddressPool with
    bestIndexes := [1,0,0]
    bestWeights := [2,1,0]
    totalWeight := 3
    curValidIPs := 2
    counter := 7 }
  reading := fun id => if id = 0 then some ⟨[1,0],[2,1],3⟩ else none
  started := [0]

theorem get_round_robin_threeCalls :
    ∃ s', run step [.read 1,.finish 0,.read 2,.finish 2,.finish 1] threeCalls = some s' ∧
      s'.returns.countP (fun r => r.pos = some 0) = 2 := by
  have hc : Consistent threeCalls.pool :=
    ⟨by decide,rfl,rfl,by decide,rfl,by decide,by decide⟩
  have hcurrent : ∀ id snap, threeCalls.reading id = some snap → snap = snapshot threeCalls.pool := by
    intro id snap hread
    simp only [threeCalls] at hread
    split at hread
    · exact (Option.some.inj hread).symm
    · cases hread
  obtain ⟨s',hrun⟩ : ∃ s', run step [.read 1,.finish 0,.read 2,.finish 2,.finish 1] threeCalls =
    some s' := ⟨_,rfl⟩
  obtain ⟨new,hnew,-,hcount⟩ := get_round_robin hc (by decide) hcurrent (by simp [Label.isScan]) rfl
    (by decide) hrun
  refine ⟨s',hrun,?_⟩
  rw [hnew]
  exact (hcount 0 2 rfl).1

end Pool
end Enimul
