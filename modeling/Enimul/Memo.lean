import Enimul.ShardedLRU
import Enimul.SingleFlight

/-! Work whose results are cached and shared.
A call looks for the value in a cache; without one it does the work, or waits in a group for
another call that is at the same work, and files what it has found. A new configuration puts a
new cache and a new group in the place of the old ones; calls that have copied the old pointers
go on with them. The caches and groups are numbered by the configuration that made them. -/
namespace Enimul
namespace Memo

open Machine
open FreeLRU (ShardedLRU)
open SingleFlight (Group FnEnd)

/-- A kind of work: the keys of a call in the cache and in the group, what it finds when the
world replies so, and the lifetime with which a value is filed, none if it is not. -/
structure Work (Q K G V R : Type) where
  cacheKey : Q → K
  groupKey : Q → G
  result : R → Q → Except String V
  lifetime : Q → V → Option ℤ
  onError : V
  defaultCapacity : ℕ

/-- The next access of a call to what it shares with the others. `g` is the number of the cache
and the group that it has copied, `h` that of the cache that it files its value in. -/
inductive Phase (Q V : Type)
  | outside
  | started (q : Q) (g : ℕ)
  | missed (q : Q) (g : ℕ)
  | flying (q : Q) (g : ℕ)
  | working (q : Q) (g : ℕ)
  | asking (q : Q) (g h : ℕ)
  | storing (q : Q) (g h : ℕ) (v : V)
  | ended (q : Q) (g : ℕ) (r : Except String V)
  | returned (q : Q) (g : ℕ) (r : Except String (V × Bool))
  | died (q : Q) (g : ℕ)

/-- A piece of work that was done, by which call and when. -/
structure Answer (Q R : Type) where
  call : ℕ
  query : Q
  gen : ℕ
  replies : R

/-- `gen` counts the configurations. The last three fields are the past, which the program does
not keep. -/
structure State (Q K G V R : Type) where
  gen : ℕ := 0
  cache : ℕ → Option (ShardedLRU K V) := fun _ => none
  group : ℕ → Option (Group G V String) := fun _ => none
  phase : ℕ → Phase Q V := fun _ => .outside
  cacheLog : ℕ → List (FreeLRU.Call K V) := fun _ => []
  groupLog : ℕ → List (SingleFlight.Label G V String) := fun _ => []
  answers : List (Answer Q R) := []

structure CacheConfig where
  singleFlight : Bool
  disableCache : Bool
  capacity : ℕ

inductive Act (Q R : Type)
  | start (q : Q)
  | lookup (now : ℤ)
  | enter
  | copyCache
  | work (u : R)
  | store (now : ℤ)
  | fnEnd
  | release
  | leave

inductive Label (Q R : Type)
  | configure (conf : CacheConfig) (unfit gomaxprocs : ℕ)
  | call (i : ℕ) (act : Act Q R)

variable {Q K G V R : Type}

namespace State

def enterPhase (s : State Q K G V R) (i : ℕ) (p : Phase Q V) : State Q K G V R :=
  {s with phase := Function.update s.phase i p}

theorem phase_enterPhase_self (s : State Q K G V R) (i : ℕ) (p : Phase Q V) :
    (s.enterPhase i p).phase i = p := Function.update_self ..

theorem phase_enterPhase_of_ne (s : State Q K G V R) {i j : ℕ} (p : Phase Q V) (hj : j ≠ i) :
    (s.enterPhase i p).phase j = s.phase j := Function.update_of_ne hj ..

/-- A call of the cache with the number `g`. -/
def useCache (s : State Q K G V R) (g : ℕ) (c : ShardedLRU K V) (call : FreeLRU.Call K V) :
    State Q K G V R :=
  {s with
    cache := Function.update s.cache g (some c)
    cacheLog := Function.update s.cacheLog g (s.cacheLog g++[call])}

def useGroup (s : State Q K G V R) (g : ℕ) (group : Group G V String)
    (l : SingleFlight.Label G V String) : State Q K G V R :=
  {s with
    group := Function.update s.group g (some group)
    groupLog := Function.update s.groupLog g (s.groupLog g++[l])}

end State

section Step

variable [DecidableEq K] [Inhabited K] [DecidableEq G] [Inhabited V] (w : Work Q K G V R)

/-- The cache of a configuration. -/
def newCache (hash : K → UInt32) (conf : CacheConfig) (unfit gomaxprocs : ℕ) :
    Except String (Option (ShardedLRU K V)) :=
  if conf.disableCache then .ok none
  else
    let capacity := if conf.capacity = 0 then w.defaultCapacity else conf.capacity
    (FreeLRU.newSharded unfit gomaxprocs capacity hash).map some

/-- The part of a configuration that holds the lock. -/
def commit (conf : CacheConfig) (cache : Option (ShardedLRU K V)) (s : State Q K G V R) :
    State Q K G V R :=
  {s with
    gen := s.gen+1
    cache := Function.update s.cache (s.gen+1) cache
    group := Function.update s.group (s.gen+1)
      (if conf.singleFlight then some {} else none)
    cacheLog := Function.update s.cacheLog (s.gen+1) []
    groupLog := Function.update s.groupLog (s.gen+1) []}

/-- How the function that is given to the group ends. -/
def fnEnd : Except String V → FnEnd V String
  | .ok v => .returned v none
  | .error err => .returned w.onError (some err)

/-- What a call does with the result of the group. -/
def afterDo (q : Q) (g : ℕ) : SingleFlight.Phase G V String → Option (Phase Q V)
  | .finished _ _ (.returned v none) _ => some (.returned q g (.ok (v,false)))
  | .finished _ _ (.returned _ (some err)) _ => some (.returned q g (.error err))
  | .finished _ _ _ _ => some (.died q g)
  | _ => none

def lookup (s : State Q K G V R) (i : ℕ) (q : Q) (g : ℕ) (now : ℤ) : Option (State Q K G V R) :=
  match s.cache g with
  | none => some (s.enterPhase i (.missed q g))
  | some c =>
    match (FreeLRU.Call.get now (w.cacheKey q)).exec c with
    | some (.got (some v),c') =>
      some ((s.useCache g c' (.get now (w.cacheKey q))).enterPhase i (.returned q g (.ok (v,true))))
    | some (_,c') => some ((s.useCache g c' (.get now (w.cacheKey q))).enterPhase i (.missed q g))
    | none => none

def enter (s : State Q K G V R) (i : ℕ) (q : Q) (g : ℕ) : Option (State Q K G V R) :=
  match s.group g with
  | none => some (s.enterPhase i (.working q g))
  | some group =>
    (SingleFlight.step group (.enter i (w.groupKey q))).map fun group' =>
      (s.useGroup g group' (.enter i (w.groupKey q))).enterPhase i
        (match group'.phase i with
        | .running _ => .working q g
        | _ => .flying q g)

def work (s : State Q K G V R) (i : ℕ) (q : Q) (g h : ℕ) (u : R) : State Q K G V R :=
  ({s with answers := s.answers++[⟨i,q,s.gen,u⟩]} : State Q K G V R).enterPhase i
    (match w.result u q with
    | .ok v => .storing q g h v
    | .error err => .ended q g (.error err))

def store (s : State Q K G V R) (i : ℕ) (q : Q) (g h : ℕ) (v : V) (now : ℤ) :
    Option (State Q K G V R) :=
  match s.cache h,w.lifetime q v with
  | some c,some ttl =>
    ((FreeLRU.Call.addWithLifetime now (w.cacheKey q) v ttl).exec c).map fun (_,c') =>
      (s.useCache h c' (.addWithLifetime now (w.cacheKey q) v ttl)).enterPhase i (.ended q g (.ok v))
  | _,_ => some (s.enterPhase i (.ended q g (.ok v)))

def endFn (s : State Q K G V R) (i : ℕ) (q : Q) (g : ℕ) (r : Except String V) :
    Option (State Q K G V R) :=
  match s.group g with
  | none => some (s.enterPhase i (.returned q g (r.map fun v => (v,false))))
  | some group =>
    (SingleFlight.step group (.fnEnd i (fnEnd w r))).map fun group' =>
      (s.useGroup g group' (.fnEnd i (fnEnd w r))).enterPhase i (.flying q g)

def release (s : State Q K G V R) (i : ℕ) (g : ℕ) : Option (State Q K G V R) :=
  (s.group g).bind fun group =>
    (SingleFlight.step group (.release i)).map fun group' => s.useGroup g group' (.release i)

def leave (s : State Q K G V R) (i : ℕ) (q : Q) (g : ℕ) : Option (State Q K G V R) :=
  (s.group g).bind fun group =>
    (SingleFlight.step group (.leave i)).bind fun group' =>
      (afterDo q g (group'.phase i)).map fun p => (s.useGroup g group' (.leave i)).enterPhase i p

def actStep (s : State Q K G V R) (i : ℕ) : Act Q R → Phase Q V → Option (State Q K G V R)
  | .start q, .outside => some (s.enterPhase i (.started q s.gen))
  | .lookup now, .started q g => lookup w s i q g now
  | .enter, .missed q g => enter w s i q g
  | .copyCache, .working q g => some (s.enterPhase i (.asking q g s.gen))
  | .work u, .asking q g h => some (work w s i q g h u)
  | .store now, .storing q g h v => store w s i q g h v now
  | .fnEnd, .ended q g r => endFn w s i q g r
  | .release, .flying _ g => release s i g
  | .leave, .flying q g => leave s i q g
  | _, _ => none

def step (hash : K → UInt32) (s : State Q K G V R) : Label Q R → Option (State Q K G V R)
  | .configure conf unfit gomaxprocs =>
    match newCache w hash conf unfit gomaxprocs with
    | .ok cache => some (commit conf cache s)
    | .error _ => some s
  | .call i act => actStep w s i act (s.phase i)

end Step

/-- The value was found for the very query, while the configuration had at least this number. -/
def Found (w : Work Q K G V R) (answers : List (Answer Q R)) (g : ℕ) (q : Q) (v : V) : Prop :=
  ∃ a ∈ answers, a.query = q ∧ w.result a.replies a.query = .ok v ∧ g ≤ a.gen

/-- The value was found for a query with the key of this one in the cache or in the group. What
has the same key in the cache only was filed there. -/
def Sourced (w : Work Q K G V R) (answers : List (Answer Q R)) (g : ℕ) (q : Q) (v : V) : Prop :=
  ∃ a ∈ answers, w.result a.replies a.query = .ok v ∧ g ≤ a.gen ∧
    (w.groupKey a.query = w.groupKey q ∨
      (w.cacheKey a.query = w.cacheKey q ∧ (w.lifetime a.query v).isSome = true))

namespace Phase

/-- What a call was started with: its arguments and the number of its cache and group. -/
def begun : Phase Q V → Option (Q × ℕ)
  | outside => none
  | started q g => some (q,g)
  | missed q g => some (q,g)
  | flying q g => some (q,g)
  | working q g => some (q,g)
  | asking q g _ => some (q,g)
  | storing q g _ _ => some (q,g)
  | ended q g _ => some (q,g)
  | returned q g _ => some (q,g)
  | died q g => some (q,g)

def query (p : Phase Q V) : Option Q := p.begun.map Prod.fst

/-- What is known of a call in a phase. -/
def Ok (w : Work Q K G V R) (gen : ℕ) (answers : List (Answer Q R)) : Phase Q V → Prop
  | started _ g => g ≤ gen
  | missed _ g => g ≤ gen
  | working _ g => g ≤ gen
  | asking _ g h => g ≤ h ∧ h ≤ gen
  | storing q g h v => g ≤ h ∧ Found w answers h q v
  | ended q g r => ∀ v, r = .ok v → Found w answers g q v
  | returned q g r => ∀ v cached, r = .ok (v,cached) → Sourced w answers g q v
  | _ => True

end Phase

section Sources

variable {w : Work Q K G V R} {g : ℕ}

theorem Found.mono {answers answers' : List (Answer Q R)} {q : Q} {v : V}
    (h : Found w answers g q v) (hsub : ∀ a ∈ answers, a ∈ answers') : Found w answers' g q v := by
  obtain ⟨a,ha,hrest⟩ := h
  exact ⟨a,hsub a ha,hrest⟩

theorem Found.weaken {answers : List (Answer Q R)} {q : Q} {v : V} {g' : ℕ}
    (h : Found w answers g q v) (hg : g' ≤ g) : Found w answers g' q v := by
  obtain ⟨a,ha,hq,hresult,hle⟩ := h
  exact ⟨a,ha,hq,hresult,hg.trans hle⟩

theorem Found.sourced {answers : List (Answer Q R)} {q q' : Q} {v : V}
    (h : Found w answers g q v) (hkey : w.groupKey q = w.groupKey q') :
    Sourced w answers g q' v := by
  obtain ⟨a,ha,rfl,hresult,hle⟩ := h
  exact ⟨a,ha,hresult,hle,.inl hkey⟩

theorem Phase.Ok.mono {gen gen' : ℕ} {answers answers' : List (Answer Q R)} {p : Phase Q V}
    (h : p.Ok w gen answers) (hgen : gen ≤ gen') (hsub : ∀ a ∈ answers, a ∈ answers') :
    p.Ok w gen' answers' := by
  cases p with
  | started q g => exact Nat.le_trans h hgen
  | missed q g => exact Nat.le_trans h hgen
  | working q g => exact Nat.le_trans h hgen
  | asking q g h' => exact ⟨h.1,h.2.trans hgen⟩
  | storing q g h' v => exact ⟨h.1,h.2.mono hsub⟩
  | ended q g r => exact fun v hr => (h v hr).mono hsub
  | returned q g r =>
    intro v cached hr
    obtain ⟨a,ha,hrest⟩ := h v cached hr
    exact ⟨a,hsub a ha,hrest⟩
  | _ => trivial

theorem begun_afterDo {q : Q} {r : SingleFlight.Phase G V String} {p : Phase Q V}
    (h : afterDo q g r = some p) : p.begun = some (q,g) := by
  unfold afterDo at h
  split at h <;> cases h <;> rfl

end Sources

open FreeLRU (Caches runCalls)

section Invariant

variable [DecidableEq K] [Inhabited K] [DecidableEq G] [Inhabited V]

structure Inv (w : Work Q K G V R) (s : State Q K G V R) : Prop where
  caches : ∀ g c, s.cache g = some c → ∃ cap c₀ out, Caches cap c₀ (fun _ => []) ∧
    runCalls (s.cacheLog g) c₀ = some (out,c)
  groups : ∀ g group, s.group g = some group →
    run SingleFlight.step (s.groupLog g) {} = some group
  stored : ∀ g t key v ttl, .addWithLifetime t key v ttl ∈ s.cacheLog g →
    ∃ a ∈ s.answers, w.cacheKey a.query = key ∧ w.lifetime a.query v = some ttl ∧
      w.result a.replies a.query = .ok v ∧ g ≤ a.gen
  entered : ∀ g i key, .enter i key ∈ s.groupLog g → ∃ q ∈ (s.phase i).query, w.groupKey q = key
  ended : ∀ g i r, .fnEnd i r ∈ s.groupLog g → ∃ q ∈ (s.phase i).query,
    ∀ v, r = .returned v none → Found w s.answers g q v
  phases : ∀ i, (s.phase i).Ok w s.gen s.answers

variable {w : Work Q K G V R} {s : State Q K G V R} {i g : ℕ}

theorem Inv.init : Inv w {} where
  caches := by simp
  groups := by simp
  stored := by simp
  entered := by simp
  ended := by simp
  phases := by simp [Phase.Ok]

theorem Inv.enterPhase (h : Inv w s) {p : Phase Q V} (hp : p.Ok w s.gen s.answers)
    (hquery : (s.phase i).query = none ∨ (s.phase i).query = p.query) :
    Inv w (s.enterPhase i p) := by
  have hkept : ∀ j, ∀ q ∈ (s.phase j).query, q ∈ ((s.enterPhase i p).phase j).query := by
    intro j q hq
    by_cases hj : j = i
    · subst hj
      rw [State.phase_enterPhase_self]
      rcases hquery with hnone | hsame
      · simp [hnone] at hq
      · rwa [← hsame]
    · rwa [State.phase_enterPhase_of_ne s p hj]
  refine ⟨h.caches,h.groups,h.stored,fun g j key hmem => ?_,fun g j r hmem => ?_,fun j => ?_⟩
  · obtain ⟨q,hq,hkey⟩ := h.entered g j key hmem
    exact ⟨q,hkept j q hq,hkey⟩
  · obtain ⟨q,hq,hfound⟩ := h.ended g j r hmem
    exact ⟨q,hkept j q hq,hfound⟩
  · by_cases hj : j = i
    · subst hj
      rwa [State.phase_enterPhase_self]
    · rw [State.phase_enterPhase_of_ne s p hj]
      exact h.phases j

theorem Inv.useCache (h : Inv w s) {c c' : ShardedLRU K V} {call : FreeLRU.Call K V}
    {reply : FreeLRU.Reply V} (hc : s.cache g = some c) (hexec : call.exec c = some (reply,c'))
    (hadd : ∀ t key v ttl, call = .addWithLifetime t key v ttl →
      ∃ a ∈ s.answers, w.cacheKey a.query = key ∧ w.lifetime a.query v = some ttl ∧
        w.result a.replies a.query = .ok v ∧ g ≤ a.gen) : Inv w (s.useCache g c' call) where
  caches g' c₁ hc₁ := by
    by_cases hg : g' = g
    · subst hg
      obtain ⟨cap,c₀,out,hnew,hrun⟩ := h.caches g' c hc
      simp only [State.useCache,Function.update_self,Option.some.injEq] at hc₁ ⊢
      subst hc₁
      exact ⟨cap,c₀,out++[reply],hnew,by simp [FreeLRU.runCalls_concat,hrun,hexec]⟩
    · simp only [State.useCache,Function.update_of_ne hg] at hc₁ ⊢
      exact h.caches g' c₁ hc₁
  groups := h.groups
  stored g' t key v ttl hmem := by
    by_cases hg : g' = g
    · subst hg
      simp only [State.useCache,Function.update_self,List.mem_append,List.mem_singleton] at hmem
      rcases hmem with hmem | hmem
      · exact h.stored g' t key v ttl hmem
      · exact hadd t key v ttl hmem.symm
    · simp only [State.useCache,Function.update_of_ne hg] at hmem
      exact h.stored g' t key v ttl hmem
  entered := h.entered
  ended := h.ended
  phases := h.phases

theorem Inv.useGroup (h : Inv w s) {group group' : Group G V String}
    {l : SingleFlight.Label G V String} (hgroup : s.group g = some group)
    (hstep : SingleFlight.step group l = some group')
    (henter : ∀ i key, l = .enter i key → ∃ q ∈ (s.phase i).query, w.groupKey q = key)
    (hended : ∀ i r, l = .fnEnd i r → ∃ q ∈ (s.phase i).query,
      ∀ v, r = .returned v none → Found w s.answers g q v) :
    Inv w (s.useGroup g group' l) := by
  have hmem : ∀ g' l', l' ∈ (s.useGroup g group' l).groupLog g' →
      l' ∈ s.groupLog g' ∨ (g' = g ∧ l = l') := by
    intro g' l' hl'
    by_cases hg : g' = g
    · subst hg
      simp only [State.useGroup,Function.update_self,List.mem_append,List.mem_singleton] at hl'
      exact hl'.imp_right fun heq => ⟨rfl,heq.symm⟩
    · simp only [State.useGroup,Function.update_of_ne hg] at hl'
      exact .inl hl'
  refine ⟨h.caches,fun g' group₁ hgroup₁ => ?_,h.stored,fun g' j key hl => ?_,fun g' j r hl => ?_,
    h.phases⟩
  · by_cases hg : g' = g
    · subst hg
      simp only [State.useGroup,Function.update_self,Option.some.injEq] at hgroup₁ ⊢
      subst hgroup₁
      rw [run_concat,h.groups g' group hgroup]
      exact hstep
    · simp only [State.useGroup,Function.update_of_ne hg] at hgroup₁ ⊢
      exact h.groups g' group₁ hgroup₁
  · rcases hmem g' _ hl with hold | ⟨-,hnew⟩
    · exact h.entered g' j key hold
    · exact henter j key hnew
  · rcases hmem g' _ hl with hold | ⟨rfl,hnew⟩
    · exact h.ended g' j r hold
    · exact hended j r hnew

theorem Inv.answer (h : Inv w s) (a : Answer Q R) : Inv w {s with answers := s.answers++[a]} where
  caches := h.caches
  groups := h.groups
  stored g t key v ttl hmem := by
    obtain ⟨a',ha',hrest⟩ := h.stored g t key v ttl hmem
    exact ⟨a',List.mem_append_left _ ha',hrest⟩
  entered := h.entered
  ended g i r hmem := by
    obtain ⟨q,hq,hfound⟩ := h.ended g i r hmem
    exact ⟨q,hq,fun v hr => (hfound v hr).mono fun a' ha' => List.mem_append_left _ ha'⟩
  phases i := (h.phases i).mono le_rfl fun a' ha' => List.mem_append_left _ ha'

theorem Inv.commit (h : Inv w s) {conf : CacheConfig} {cache : Option (ShardedLRU K V)}
    (hcache : ∀ c ∈ cache, ∃ cap, Caches cap c (fun _ => [])) : Inv w (commit conf cache s) := by
  refine ⟨fun g c hc => ?_,fun g group hgroup => ?_,fun g t key v ttl hmem => ?_,
    fun g i key hmem => ?_,fun g i r hmem => ?_,fun i => (h.phases i).mono (Nat.le_succ _) fun _ => id⟩
  all_goals
    simp only [Memo.commit] at *
    by_cases hg : g = s.gen+1
  · subst hg
    rw [Function.update_self] at hc ⊢
    obtain ⟨cap,hcaches⟩ := hcache c hc
    exact ⟨cap,c,[],hcaches,rfl⟩
  · rw [Function.update_of_ne hg] at hc ⊢
    exact h.caches g c hc
  · subst hg
    rw [Function.update_self] at hgroup ⊢
    obtain ⟨-,heq⟩ := Option.ite_none_right_eq_some.1 hgroup
    exact heq
  · rw [Function.update_of_ne hg] at hgroup ⊢
    exact h.groups g group hgroup
  · simp [hg] at hmem
  · rw [Function.update_of_ne hg] at hmem
    exact h.stored g t key v ttl hmem
  · simp [hg] at hmem
  · rw [Function.update_of_ne hg] at hmem
    exact h.entered g i key hmem
  · simp [hg] at hmem
  · rw [Function.update_of_ne hg] at hmem
    exact h.ended g i r hmem

/-- What the cache returns was filed by the last work for the key, whose lifetime is not over, and
was found while the configuration was at least that of the cache. -/
theorem Inv.hit (h : Inv w s) {c c' : ShardedLRU K V} {now : ℤ} {key : K} {v : V}
    (hc : s.cache g = some c)
    (hexec : (FreeLRU.Call.get now key).exec c = some (.got (some v),c')) :
    ∃ pre post t ttl, s.cacheLog g = pre++.addWithLifetime t key v ttl::post ∧
      (∀ t' v' ttl', .addWithLifetime t' key v' ttl' ∉ post) ∧
      (FreeLRU.expire t ttl = 0 ∨ now < FreeLRU.expire t ttl) ∧
      ∃ a ∈ s.answers, w.cacheKey a.query = key ∧ w.lifetime a.query v = some ttl ∧
        w.result a.replies a.query = .ok v ∧ g ≤ a.gen := by
  obtain ⟨cap,c₀,out,hcaches,hrun⟩ := h.caches g c hc
  obtain ⟨pre,post,t,ttl,hlog,hlast,hlive⟩ := hcaches.fresh (FreeLRU.getAfter_of_exec hrun hexec)
  exact ⟨pre,post,t,ttl,hlog,hlast,hlive,h.stored g t key v ttl (by simp [hlog])⟩

theorem Inv.lookup (h : Inv w s) {q : Q} {now : ℤ} {s' : State Q K G V R}
    (hphase : s.phase i = .started q g) (hstep : lookup w s i q g now = some s') : Inv w s' := by
  have hquery : (s.phase i).query = some q := by rw [hphase]; rfl
  have hgen : g ≤ s.gen := by simpa [hphase,Phase.Ok] using h.phases i
  rw [Memo.lookup] at hstep
  split at hstep
  · cases hstep
    exact h.enterPhase hgen (.inr hquery)
  · rename_i c hc
    split at hstep
    · rename_i v c' hexec
      cases hstep
      obtain ⟨pre,post,t,ttl,-,-,-,a,ha,hkey,hlife,hresult,hle⟩ := h.hit hc hexec
      refine (h.useCache hc hexec (by simp)).enterPhase (fun v' cached hr => ?_) (.inr hquery)
      cases hr
      exact ⟨a,ha,hresult,hle,.inr ⟨hkey,by rw [hlife]; rfl⟩⟩
    · rename_i c' hexec
      cases hstep
      exact (h.useCache hc hexec (by simp)).enterPhase hgen (.inr hquery)
    · cases hstep

theorem Inv.enter (h : Inv w s) {q : Q} {s' : State Q K G V R} (hphase : s.phase i = .missed q g)
    (hstep : enter w s i q g = some s') : Inv w s' := by
  have hquery : (s.phase i).query = some q := by rw [hphase]; rfl
  have hgen : g ≤ s.gen := by simpa [hphase,Phase.Ok] using h.phases i
  rw [Memo.enter] at hstep
  split at hstep
  · cases hstep
    exact h.enterPhase hgen (.inr hquery)
  · rename_i group hgroup
    obtain ⟨group',hgstep,rfl⟩ := Option.map_eq_some_iff.1 hstep
    refine (h.useGroup hgroup hgstep ?_ (by simp)).enterPhase ?_ ?_
    · rintro j key heq
      cases heq
      exact ⟨q,hquery,rfl⟩
    · split
      · exact hgen
      · trivial
    · right
      split <;> exact hquery

theorem Inv.work (h : Inv w s) {q : Q} {k : ℕ} {u : R} (hphase : s.phase i = .asking q g k) :
    Inv w (work w s i q g k u) := by
  have hquery : (s.phase i).query = some q := by rw [hphase]; rfl
  have hgen : g ≤ k ∧ k ≤ s.gen := by simpa [hphase,Phase.Ok] using h.phases i
  refine (h.answer ⟨i,q,s.gen,u⟩).enterPhase ?_ ?_
  · split
    · rename_i v hv
      exact ⟨hgen.1,⟨i,q,s.gen,u⟩,by simp,rfl,hv,hgen.2⟩
    · exact fun v hr => by cases hr
  · right
    split <;> exact hquery

theorem Inv.store (h : Inv w s) {q : Q} {k : ℕ} {v : V} {now : ℤ} {s' : State Q K G V R}
    (hphase : s.phase i = .storing q g k v) (hstep : store w s i q g k v now = some s') :
    Inv w s' := by
  have hquery : (s.phase i).query = some q := by rw [hphase]; rfl
  have hfound : g ≤ k ∧ Found w s.answers k q v := by simpa [hphase,Phase.Ok] using h.phases i
  obtain ⟨hgk,hfound⟩ := hfound
  have hok : (Phase.ended q g (.ok v)).Ok w s.gen s.answers := by
    intro v' hr
    cases hr
    exact hfound.weaken hgk
  rw [Memo.store] at hstep
  split at hstep
  · rename_i c ttl hc hlife
    obtain ⟨⟨reply,c'⟩,hexec,rfl⟩ := Option.map_eq_some_iff.1 hstep
    refine (h.useCache hc hexec ?_).enterPhase hok (.inr hquery)
    intro t key v' ttl' heq
    cases heq
    obtain ⟨a,ha,rfl,hresult,hk⟩ := hfound
    exact ⟨a,ha,rfl,hlife,hresult,hk⟩
  · cases hstep
    exact h.enterPhase hok (.inr hquery)

theorem Inv.endFn (h : Inv w s) {q : Q} {r : Except String V} {s' : State Q K G V R}
    (hphase : s.phase i = .ended q g r) (hstep : endFn w s i q g r = some s') : Inv w s' := by
  have hquery : (s.phase i).query = some q := by rw [hphase]; rfl
  have hfound : ∀ v, r = .ok v → Found w s.answers g q v := by
    simpa [hphase,Phase.Ok] using h.phases i
  rw [Memo.endFn] at hstep
  split at hstep
  · cases hstep
    refine h.enterPhase (fun v cached hr => ?_) (.inr hquery)
    cases r with
    | error err => cases hr
    | ok v' =>
      cases hr
      exact (hfound _ rfl).sourced rfl
  · rename_i group hgroup
    obtain ⟨group',hgstep,rfl⟩ := Option.map_eq_some_iff.1 hstep
    refine (h.useGroup hgroup hgstep (by simp) ?_).enterPhase trivial (.inr hquery)
    rintro j r' heq
    cases heq
    refine ⟨q,hquery,fun v hr => ?_⟩
    cases r with
    | error err => simp [fnEnd] at hr
    | ok v' =>
      simp only [fnEnd,FnEnd.returned.injEq,and_true] at hr
      exact hfound v (by rw [hr])

theorem Inv.release (h : Inv w s) {s' : State Q K G V R} (hstep : release s i g = some s') :
    Inv w s' := by
  obtain ⟨group,hgroup,hstep⟩ := Option.bind_eq_some_iff.1 hstep
  obtain ⟨group',hgstep,rfl⟩ := Option.map_eq_some_iff.1 hstep
  exact h.useGroup hgroup hgstep (by simp) (by simp)

theorem Inv.leave (h : Inv w s) {q : Q} {s' : State Q K G V R} (hphase : s.phase i = .flying q g)
    (hstep : leave s i q g = some s') : Inv w s' := by
  have hquery : (s.phase i).query = some q := by rw [hphase]; rfl
  obtain ⟨group,hgroup,hstep⟩ := Option.bind_eq_some_iff.1 hstep
  obtain ⟨group',hgstep,hstep⟩ := Option.bind_eq_some_iff.1 hstep
  obtain ⟨p,hp,rfl⟩ := Option.map_eq_some_iff.1 hstep
  have hinv := h.useGroup hgroup hgstep (by simp) (by simp)
  cases hfin : group'.phase i with
  | finished key c r shared =>
    rw [hfin] at hp
    -- The queries of the call and of the leader have the key of the group.
    have hrun : run SingleFlight.step (s.groupLog g++[.leave i]) {} = some group' := by
      rw [run_concat,h.groups g group hgroup]
      exact hgstep
    obtain ⟨hi,hc,hend⟩ := SingleFlight.result_of_run hrun hfin
    obtain ⟨q',hq',rfl⟩ := h.entered g i key (by simpa using hi)
    obtain rfl : q = q' := Option.some.inj (hquery.symm.trans hq')
    obtain ⟨qc,hqc,hkey⟩ := h.entered g c (w.groupKey q) (by simpa using hc)
    obtain ⟨qc',hqc',hfound⟩ := h.ended g c r (by simpa using hend)
    obtain rfl : qc = qc' := Option.some.inj (Eq.symm hqc |>.trans hqc')
    cases r with
    | returned v err =>
      cases err with
      | none =>
        cases hp
        refine hinv.enterPhase (fun v' cached hr => ?_) (.inr hquery)
        cases hr
        exact (hfound v rfl).sourced hkey
      | some err =>
        cases hp
        exact hinv.enterPhase (fun v' cached hr => by cases hr) (.inr hquery)
    | panicked value =>
      cases hp
      exact hinv.enterPhase trivial (.inr hquery)
    | goexit =>
      cases hp
      exact hinv.enterPhase trivial (.inr hquery)
  | _ =>
    rw [hfin] at hp
    cases hp

omit [DecidableEq K] [DecidableEq G] in
theorem caches_of_newCache {hash : K → UInt32} {conf : CacheConfig} {unfit gomaxprocs : ℕ}
    {cache : Option (ShardedLRU K V)} (hdefault : w.defaultCapacity ≤ 2^31)
    (hcap : conf.capacity ≤ 2^31) (hnew : newCache w hash conf unfit gomaxprocs = .ok cache) :
    ∀ c ∈ cache, ∃ cap, Caches cap c (fun _ => []) := by
  intro c hc
  rw [newCache] at hnew
  split at hnew
  · cases hnew
    simp at hc
  · cases hmade : FreeLRU.newSharded (V := V) unfit gomaxprocs
        (if conf.capacity = 0 then w.defaultCapacity else conf.capacity) hash with
    | error err => simp [hmade,Except.map] at hnew
    | ok c' =>
      simp only [hmade,Except.map,Except.ok.injEq] at hnew
      subst hnew
      cases hc
      obtain ⟨cap,hcaches,-⟩ := Caches.of_newSharded (by split <;> omega) hmade
      exact ⟨cap,hcaches⟩

theorem Inv.actStep (h : Inv w s) {act : Act Q R} {s' : State Q K G V R}
    (hstep : actStep w s i act (s.phase i) = some s') : Inv w s' := by
  generalize hphase : s.phase i = p at hstep
  unfold Memo.actStep at hstep
  split at hstep
  · cases hstep
    exact h.enterPhase le_rfl (.inl (by rw [hphase]; rfl))
  · exact h.lookup hphase hstep
  · exact h.enter hphase hstep
  · rename_i q g
    cases hstep
    have hgen : g ≤ s.gen := by simpa [hphase,Phase.Ok] using h.phases i
    exact h.enterPhase ⟨hgen,le_rfl⟩ (.inr (by rw [hphase]; rfl))
  · cases hstep
    exact h.work hphase
  · exact h.store hphase hstep
  · exact h.endFn hphase hstep
  · exact h.release hstep
  · exact h.leave hphase hstep
  · cases hstep

/-- The capacities of the configurations in a run are of the size that the caches are made for. -/
def Fits (w : Work Q K G V R) (ls : List (Label Q R)) : Prop :=
  w.defaultCapacity ≤ 2^31 ∧
    ∀ conf unfit gomaxprocs, .configure conf unfit gomaxprocs ∈ ls → conf.capacity ≤ 2^31

theorem Inv.step {hash : K → UInt32} (h : Inv w s) {l : Label Q R} {s' : State Q K G V R}
    (hfits : Fits w [l]) (hstep : step w hash s l = some s') : Inv w s' := by
  cases l with
  | configure conf unfit gomaxprocs =>
    rw [Memo.step] at hstep
    split at hstep
    · rename_i cache hcache
      cases hstep
      exact h.commit (caches_of_newCache hfits.1 (hfits.2 conf unfit gomaxprocs (by simp)) hcache)
    · cases hstep
      exact h
  | call i act => exact h.actStep hstep

theorem inv_of_run {hash : K → UInt32} {ls : List (Label Q R)} (hfits : Fits w ls)
    (h : run (step w hash) ls {} = some s) : Inv w s := by
  refine run_keeps (P := Inv w) (fun hl hs hstep => hs.step ⟨hfits.1,?_⟩ hstep) .init h
  intro conf unfit gomaxprocs hmem
  rw [List.mem_singleton] at hmem
  exact hfits.2 conf unfit gomaxprocs (hmem ▸ hl)

/-- A step moves one call, and the call goes on with what it was started with. -/
theorem moves_of_actStep {act : Act Q R} {s' : State Q K G V R}
    (hstep : actStep w s i act (s.phase i) = some s') :
    ∃ p, s'.phase = Function.update s.phase i p ∧
      ((s.phase i).begun = none ∨ p.begun = (s.phase i).begun) := by
  generalize hphase : s.phase i = p at hstep
  unfold Memo.actStep at hstep
  split at hstep
  · cases hstep
    exact ⟨_,rfl,.inl rfl⟩
  · rw [lookup] at hstep
    repeat' split at hstep
    all_goals
      cases hstep
      try exact ⟨_,rfl,.inr rfl⟩
  · rw [enter] at hstep
    split at hstep
    · cases hstep
      exact ⟨_,rfl,.inr rfl⟩
    · obtain ⟨group',-,rfl⟩ := Option.map_eq_some_iff.1 hstep
      refine ⟨_,rfl,.inr ?_⟩
      split <;> rfl
  · cases hstep
    exact ⟨_,rfl,.inr rfl⟩
  · cases hstep
    refine ⟨_,rfl,.inr ?_⟩
    split <;> rfl
  · rw [store] at hstep
    split at hstep
    · obtain ⟨r,-,rfl⟩ := Option.map_eq_some_iff.1 hstep
      exact ⟨_,rfl,.inr rfl⟩
    · cases hstep
      exact ⟨_,rfl,.inr rfl⟩
  · rw [endFn] at hstep
    split at hstep
    · cases hstep
      exact ⟨_,rfl,.inr rfl⟩
    · obtain ⟨group',-,rfl⟩ := Option.map_eq_some_iff.1 hstep
      exact ⟨_,rfl,.inr rfl⟩
  · obtain ⟨group,-,hstep⟩ := Option.bind_eq_some_iff.1 hstep
    obtain ⟨group',-,rfl⟩ := Option.map_eq_some_iff.1 hstep
    exact ⟨s.phase i,(Function.update_eq_self ..).symm,.inr (by rw [hphase])⟩
  · obtain ⟨group,-,hstep⟩ := Option.bind_eq_some_iff.1 hstep
    obtain ⟨group',-,hstep⟩ := Option.bind_eq_some_iff.1 hstep
    obtain ⟨p,hp,rfl⟩ := Option.map_eq_some_iff.1 hstep
    exact ⟨p,rfl,.inr (begun_afterDo hp)⟩
  · cases hstep

theorem begun_step {hash : K → UInt32} {l : Label Q R} {s' : State Q K G V R}
    (hstep : step w hash s l = some s') {x : Q × ℕ} (hx : (s.phase i).begun = some x) :
    (s'.phase i).begun = some x := by
  cases l with
  | configure conf unfit gomaxprocs =>
    rw [Memo.step] at hstep
    split at hstep <;> cases hstep <;> exact hx
  | call j act =>
    obtain ⟨p,hs',hp⟩ := moves_of_actStep hstep
    rw [hs']
    by_cases hj : i = j
    · subst hj
      rw [Function.update_self]
      exact (hp.resolve_left (by simp [hx])).trans hx
    · rwa [Function.update_of_ne hj]

/-- A call keeps what it was started with: its query, and the number of the configuration. -/
theorem begun_of_run {hash : K → UInt32} {pre post : List (Label Q R)} {q : Q}
    {s₀ : State Q K G V R} (hpre : run (step w hash) pre {} = some s₀)
    (h : run (step w hash) (pre++.call i (.start q)::post) {} = some s) :
    (s.phase i).begun = some (q,s₀.gen) := by
  obtain ⟨s₁,s₂,hs₁,hstart,hpost⟩ := run_at h
  rw [hpre] at hs₁
  cases hs₁
  have hbegun : (s₂.phase i).begun = some (q,s₀.gen) := by
    rw [step] at hstart
    generalize s₀.phase i = p at hstart
    cases p with
    | outside =>
      cases hstart
      rw [State.phase_enterPhase_self]
      rfl
    | _ => cases hstart
  exact run_keeps (P := fun s => (s.phase i).begun = some (q,s₀.gen))
    (fun _ hs hstep => begun_step hstep hs) hbegun hpost

/-- Whatever calls run at the same time, and however often the configuration is changed
meanwhile: a value that a call returns was found by work with one of its keys, its own or that of
another call, under a configuration that was in effect when the call started or later. -/
theorem sourced_of_run {hash : K → UInt32} {pre post : List (Label Q R)} {q : Q}
    {s₀ : State Q K G V R} (hfits : Fits w (pre++.call i (.start q)::post))
    (hpre : run (step w hash) pre {} = some s₀)
    (h : run (step w hash) (pre++.call i (.start q)::post) {} = some s) {q' : Q} {v : V}
    {cached : Bool} (hret : s.phase i = .returned q' g (.ok (v,cached))) :
    Sourced w s.answers s₀.gen q v := by
  have hend := begun_of_run hpre h
  rw [hret] at hend
  cases hend
  have hok := (inv_of_run hfits h).phases i
  rw [hret] at hok
  exact hok v cached rfl

/-- A call that returns a value from the cache has just looked for it. -/
theorem hit_of_lookup {hash : K → UInt32} (hinv : Inv w s) {now : ℤ} {s' : State Q K G V R}
    (hstep : step w hash s (.call i (.lookup now)) = some s') {q : Q} {v : V}
    (hret : s'.phase i = .returned q g (.ok (v,true))) :
    ∃ pre post t ttl, s.cacheLog g = pre++.addWithLifetime t (w.cacheKey q) v ttl::post ∧
      (∀ t' v' ttl', .addWithLifetime t' (w.cacheKey q) v' ttl' ∉ post) ∧
      (FreeLRU.expire t ttl = 0 ∨ now < FreeLRU.expire t ttl) ∧
      ∃ a ∈ s.answers, w.cacheKey a.query = w.cacheKey q ∧ w.lifetime a.query v = some ttl ∧
        w.result a.replies a.query = .ok v ∧ g ≤ a.gen := by
  rw [Memo.step] at hstep
  generalize hphase : s.phase i = p at hstep
  cases p with
  | started q' g' =>
    rw [actStep,lookup] at hstep
    split at hstep
    · cases hstep
      simp [State.phase_enterPhase_self] at hret
    · rename_i c hc
      split at hstep
      · rename_i v' c' hexec
        cases hstep
        rw [State.phase_enterPhase_self] at hret
        cases hret
        exact hinv.hit hc hexec
      · cases hstep
        simp [State.phase_enterPhase_self] at hret
      · cases hstep
  | _ => cases hstep

end Invariant

end Memo
end Enimul
