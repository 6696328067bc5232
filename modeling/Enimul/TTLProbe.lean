import Enimul.GoRun
import Enimul.Policies

/-! Probing for the smallest TTL that reaches a destination.
`probeMinimumReachableTTL` bisects the TTLs from 1 to `max_ttl`, with some dials for each, and
keeps the last TTL with which one of them succeeded. The network answers every dial as it
likes and may change with each one; the dials of a call are recorded with their outcomes. A
`max_ttl` is decoded from a `uint8`, so that the sums of the search do not overflow. -/
namespace Enimul
namespace TTLProbe

open GoText GoRun Policies

/-- How a dial ends; a connection is closed at once. -/
inductive Dialed
  | connected
  | timeout
  | failed (err : String)
  deriving DecidableEq, Repr

/-- A dialer with the TTL that its `Control` sets on the socket. -/
structure Dialer where
  isIPv6 : Bool
  timeout : ℤ
  ttl : ℤ
  deriving DecidableEq, Repr

/-- The network, with a state of its own, and the cache of the probed TTLs. -/
structure Env (ν κ : Type) where
  dial : Dialer → Str → ν → Dialed × ν
  addWithLifetime : Str → ℤ → ℤ → κ → κ

structure State (ν κ : Type) where
  net : ν
  dials : List (ℤ × Dialed)
  cache : Option κ

section Probe

variable {ν κ : Type} (env : Env ν κ) (addr : Str)

def dial (d : Dialer) : Run (State ν κ) Dialed := fun s =>
  let r := env.dial d addr s.net
  (.ok r.1,{s with net := r.2,dials := s.dials++[(d.ttl,r.1)]})

/-- The dials with one TTL: up to `attempts` of them, until one does not time out. -/
def probe (d : Dialer) : ℕ → Run (State ν κ) Bool
  | 0 => pure false
  | attempts+1 => do
    match ← dial env addr d with
    | .connected => return true
    | .timeout => probe d attempts
    | .failed err => withStr ("dial with ttl " ++ toString d.ttl) (fail err)

/-- The loop `for low <= high`. -/
def search (isIPv6 : Bool) (timeout attempts low high found : ℤ) : Run (State ν κ) ℤ :=
  if _h : low ≤ high then do
    let mid := (low+high)/2
    let ok ← probe env addr ⟨isIPv6,timeout,mid⟩ attempts.toNat
    if ok then search isIPv6 timeout attempts low (mid-1) mid
    else search isIPv6 timeout attempts (mid+1) high found
  else pure found
termination_by (high+1-low).toNat

def addToCache (ip : Str) (found cacheTTL : ℤ) : Run (State ν κ) Unit := fun s =>
  if found ≠ -1 ∧ cacheTTL ≠ 0 ∧ cacheTTL ≠ unsetInt then
    (.ok (),{s with cache := s.cache.map (env.addWithLifetime ip found cacheTTL)})
  else (.ok (),s)

def probeMinimumReachableTTL (ip : Str) (isIPv6 : Bool) (maxTTL attempts dialTimeout cacheTTL : ℤ) :
    Run (State ν κ) ℤ := do
  let found ← search env addr isIPv6 dialTimeout attempts 1 maxTTL (-1)
  addToCache env ip found cacheTTL
  return found

end Probe

/-- The dials of a call with one TTL. -/
structure Round where
  ttl : ℤ
  outcomes : List Dialed

namespace Round

def dials (r : Round) : List (ℤ × Dialed) := r.outcomes.map (r.ttl,·)

/-- No dial of the round failed other than by a timeout. -/
def Clean (r : Round) : Prop := ∀ err, Dialed.failed err ∉ r.outcomes

/-- The round ends with its only dial that failed otherwise. -/
def FailsWith (r : Round) (err : String) : Prop :=
  ∃ n, r.outcomes = List.replicate n .timeout++[.failed err]

end Round

/-- The dials of a list of rounds. -/
def dialsOf (rounds : List Round) : List (ℤ × Dialed) := rounds.flatMap Round.dials

@[simp] theorem dialsOf_nil : dialsOf [] = [] := rfl
@[simp] theorem dialsOf_cons (r : Round) (rs : List Round) :
    dialsOf (r::rs) = r.dials++dialsOf rs := rfl

/-- The rounds of a search between two TTLs: each TTL has at most one round, and a round has
at most as many dials as are allowed. -/
structure Between (low high : ℤ) (attempts : ℕ) (rounds : List Round) : Prop where
  nodup : (rounds.map Round.ttl).Nodup
  range : ∀ r ∈ rounds, low ≤ r.ttl ∧ r.ttl ≤ high
  length : ∀ r ∈ rounds, r.outcomes.length ≤ attempts

theorem Between.nil (low high : ℤ) (attempts : ℕ) : Between low high attempts [] :=
  ⟨List.nodup_nil,by simp,by simp⟩

/-- A round with a TTL outside of the rest of the search comes before it. -/
theorem Between.cons {low high low' high' : ℤ} {attempts : ℕ} {r : Round} {rs : List Round}
    (h : Between low' high' attempts rs) (hout : r.ttl < low' ∨ high' < r.ttl)
    (hlow : low ≤ r.ttl ∧ low ≤ low') (hhigh : r.ttl ≤ high ∧ high' ≤ high)
    (hlen : r.outcomes.length ≤ attempts) : Between low high attempts (r::rs) where
  nodup := by
    rw [List.map_cons,List.nodup_cons]
    refine ⟨fun hmem => ?_,h.nodup⟩
    obtain ⟨r',hr',heq⟩ := List.mem_map.mp hmem
    have hrange := h.range r' hr'
    omega
  range := by
    intro r' hr'
    cases hr' with
    | head => exact ⟨hlow.1,hhigh.1⟩
    | tail _ hr' =>
      have hrange := h.range r' hr'
      omega
  length := by
    intro r' hr'
    cases hr' with
    | head => exact hlen
    | tail _ hr' => exact h.length r' hr'

/-- What a search that started from `found` and made the dials of these rounds ends with. -/
inductive Ends (found : ℤ) : List Round → Except String ℤ → Prop
  | found (rounds : List Round) (ttl : ℤ) (hclean : ∀ r ∈ rounds, r.Clean)
      (httl : ttl = found ∨ (ttl,Dialed.connected) ∈ dialsOf rounds) :
      Ends found rounds (.ok ttl)
  | failed (rounds : List Round) (r : Round) (err : String) (hclean : ∀ r ∈ rounds, r.Clean)
      (hfails : r.FailsWith err) :
      Ends found (rounds++[r]) (.error ("dial with ttl " ++ toString r.ttl ++ ": " ++ err))

theorem Ends.cons {found found' : ℤ} {r : Round} {rs : List Round} {res : Except String ℤ}
    (h : Ends found' rs res) (hr : r.Clean)
    (hfound : found' = found ∨ (found',Dialed.connected) ∈ r.dials) : Ends found (r::rs) res := by
  cases h with
  | found _ ttl hclean httl =>
    refine .found _ ttl (List.forall_mem_cons.mpr ⟨hr,hclean⟩) ?_
    rw [dialsOf_cons,List.mem_append]
    cases httl with
    | inl heq =>
      subst heq
      exact hfound.imp_right .inl
    | inr hmem => exact .inr (.inr hmem)
  | failed rs r' err hclean hfails =>
    exact .failed (r::rs) r' err (List.forall_mem_cons.mpr ⟨hr,hclean⟩) hfails

section Results

variable {ν κ : Type} (env : Env ν κ) (addr : Str)

/-- The dials of one round and what they come to. -/
theorem probe_round (d : Dialer) (attempts : ℕ) (s : State ν κ) :
    ∃ (r : Round) (net : ν), r.ttl = d.ttl ∧ r.outcomes.length ≤ attempts ∧
      (probe env addr d attempts s).2 = {s with net := net,dials := s.dials++r.dials} ∧
      ((probe env addr d attempts s).1 = .ok true ∧ (d.ttl,Dialed.connected) ∈ r.dials ∧ r.Clean ∨
        (probe env addr d attempts s).1 = .ok false ∧ r.Clean ∨
        ∃ err, (probe env addr d attempts s).1 =
          .error ("dial with ttl " ++ toString d.ttl ++ ": " ++ err) ∧ r.FailsWith err) := by
  induction attempts generalizing s with
  | zero =>
    exact ⟨⟨d.ttl,[]⟩,s.net,rfl,Nat.le_refl 0,by simp [probe,Round.dials],
      .inr (.inl ⟨rfl,by simp [Round.Clean]⟩)⟩
  | succ attempts ih =>
    have hdial : dial env addr d s = (.ok (env.dial d addr s.net).1,_) := rfl
    rw [probe,bind_of_ok hdial]
    cases hout : (env.dial d addr s.net).1 with
    | connected =>
      exact ⟨⟨d.ttl,[.connected]⟩,_,rfl,by simp,rfl,
        .inl ⟨rfl,by simp [Round.dials],by simp [Round.Clean]⟩⟩
    | timeout =>
      obtain ⟨r,net,httl,hlen,hstate,hres⟩ :=
        ih {s with net := (env.dial d addr s.net).2,dials := s.dials++[(d.ttl,.timeout)]}
      refine ⟨⟨d.ttl,.timeout::r.outcomes⟩,net,rfl,by simpa using hlen,?_,?_⟩
      · rw [hstate]
        simp [Round.dials,httl]
      · refine hres.imp ?_ (Or.imp ?_ ?_)
        · rintro ⟨hok,hmem,hclean⟩
          refine ⟨hok,?_,?_⟩
          · simpa [Round.dials,httl] using hmem
          · simpa [Round.Clean] using hclean
        · rintro ⟨hok,hclean⟩
          exact ⟨hok,by simpa [Round.Clean] using hclean⟩
        · rintro ⟨err,herr,n,hn⟩
          exact ⟨err,herr,n+1,by simp [hn,List.replicate_succ]⟩
    | failed err =>
      exact ⟨⟨d.ttl,[.failed err]⟩,_,rfl,by simp,rfl,.inr (.inr ⟨err,rfl,0,rfl⟩)⟩

/-- The rounds of the search, whatever the network answers. -/
theorem search_rounds (isIPv6 : Bool) (timeout attempts low high found : ℤ) (s : State ν κ) :
    ∃ rounds net, Between low high attempts.toNat rounds ∧
      (search env addr isIPv6 timeout attempts low high found s).2 =
        {s with net := net,dials := s.dials++dialsOf rounds} ∧
      Ends found rounds (search env addr isIPv6 timeout attempts low high found s).1 := by
  fun_induction search env addr isIPv6 timeout attempts low high found generalizing s with
  | case1 low high found h mid ih₁ ih₂ =>
    have hmid : low ≤ mid ∧ mid ≤ high := by omega
    obtain ⟨r,net,httl,hlen,hstate,hres⟩ :=
      probe_round env addr ⟨isIPv6,timeout,mid⟩ attempts.toNat s
    replace httl : r.ttl = mid := httl
    have hpair := Prod.eta (probe env addr ⟨isIPv6,timeout,mid⟩ attempts.toNat s)
    rw [hstate] at hpair
    obtain ⟨hok,hmem,hclean⟩|⟨hok,hclean⟩|⟨err,herr,hfails⟩ := hres
    · rw [hok] at hpair
      rw [bind_of_ok hpair.symm,if_pos rfl]
      obtain ⟨rs,net',hbetween,hstate',hends⟩ := ih₁ {s with net := net,dials := s.dials++r.dials}
      refine ⟨r::rs,net',hbetween.cons (.inr (by omega)) (by omega) (by omega) hlen,?_,
        hends.cons hclean (.inr hmem)⟩
      rw [hstate',dialsOf_cons,List.append_assoc]
    · rw [hok] at hpair
      rw [bind_of_ok hpair.symm,if_neg Bool.false_ne_true]
      obtain ⟨rs,net',hbetween,hstate',hends⟩ := ih₂ {s with net := net,dials := s.dials++r.dials}
      refine ⟨r::rs,net',hbetween.cons (.inl (by omega)) (by omega) (by omega) hlen,?_,
        hends.cons hclean (.inl rfl)⟩
      rw [hstate',dialsOf_cons,List.append_assoc]
    · rw [herr] at hpair
      rw [bind_of_error hpair.symm]
      have hnil := Between.nil (mid+1) high attempts.toNat
      refine ⟨[r],net,hnil.cons (.inl (by omega)) (by omega) (by omega) hlen,by simp,?_⟩
      rw [← httl]
      exact .failed [] r err (by simp) hfails
  | case2 low high found h =>
    exact ⟨[],s.net,.nil _ _ _,by simp,.found [] found (by simp) (.inl rfl)⟩

theorem addToCache_run (ip : Str) (found cacheTTL : ℤ) (s : State ν κ) :
    ∃ cache, addToCache env ip found cacheTTL s = (.ok (),{s with cache := cache}) := by
  rw [addToCache]
  split
  · exact ⟨_,rfl⟩
  · exact ⟨s.cache,rfl⟩

/-- The destination is reached exactly with the TTLs from `h` on; other dials time out. -/
def ReachableFrom (isIPv6 : Bool) (timeout h : ℤ) : Prop :=
  ∀ ttl net, (env.dial ⟨isIPv6,timeout,ttl⟩ addr net).1 = if h ≤ ttl then .connected else .timeout

variable {env addr}

theorem probe_reachable {isIPv6 : Bool} {timeout h : ℤ}
    (hreach : ReachableFrom env addr isIPv6 timeout h) (ttl : ℤ) (n : ℕ) (s : State ν κ) :
    (probe env addr ⟨isIPv6,timeout,ttl⟩ (n+1) s).1 = .ok (decide (h ≤ ttl)) := by
  have hdial (s : State ν κ) : dial env addr ⟨isIPv6,timeout,ttl⟩ s = (.ok _,_) := rfl
  induction n generalizing s with
  | zero =>
    rw [probe,bind_of_ok (hdial s),hreach ttl s.net]
    by_cases hle : h ≤ ttl <;> simp [hle,probe]
  | succ n ih =>
    rw [probe,bind_of_ok (hdial s),hreach ttl s.net]
    by_cases hle : h ≤ ttl
    · simp [hle]
    · simpa [hle] using ih _

/-- The search keeps its lower end at or below the boundary. -/
theorem search_reachable {isIPv6 : Bool} {timeout attempts h : ℤ}
    (hreach : ReachableFrom env addr isIPv6 timeout h) (hatt : 1 ≤ attempts) {low high found : ℤ}
    (hlow : low ≤ h) (s : State ν κ) :
    (search env addr isIPv6 timeout attempts low high found s).1 =
      .ok (if h ≤ high then h else found) := by
  obtain ⟨n,hn⟩ : ∃ n, attempts.toNat = n+1 := ⟨attempts.toNat-1,by omega⟩
  fun_induction search env addr isIPv6 timeout attempts low high found generalizing s with
  | case1 low high found hle mid ih₁ ih₂ =>
    have hprobe := probe_reachable hreach mid n s
    have hpair := Prod.eta (probe env addr ⟨isIPv6,timeout,mid⟩ (n+1) s)
    rw [hprobe] at hpair
    rw [hn,bind_of_ok hpair.symm]
    by_cases hm : h ≤ mid
    · rw [if_pos (decide_eq_true hm),ih₁ hlow,if_pos (by omega : h ≤ high)]
      congr 1
      split <;> omega
    · rw [if_neg (by simpa using hm),ih₂ (by omega)]
  | case2 low high found hle => rw [if_neg (by omega),pure_run]

/-- A destination that is reached from some TTL on is probed for exactly that TTL. On any
network the call returns; its rounds are with different TTLs from 1 to the maximum, it returns
-1 or a TTL with which a dial succeeded, and at the first dial that fails without a timeout it
returns that error and leaves the cache alone. -/
theorem probeMinimumReachableTTL_boundary {ip : Str} {isIPv6 : Bool}
    {maxTTL attempts dialTimeout cacheTTL : ℤ} {s s' : State ν κ} {res : Except String ℤ}
    (hrun : probeMinimumReachableTTL env addr ip isIPv6 maxTTL attempts dialTimeout cacheTTL s =
      (res,s')) :
    (∀ h, 1 ≤ h → 1 ≤ attempts → ReachableFrom env addr isIPv6 dialTimeout h →
      res = .ok (if h ≤ maxTTL then h else -1)) ∧
    ∃ rounds, Between 1 maxTTL attempts.toNat rounds ∧ s'.dials = s.dials++dialsOf rounds ∧
      Ends (-1) rounds res ∧ (∀ err, res = .error err → s'.cache = s.cache) := by
  obtain ⟨rounds,net,hbetween,hstate,hends⟩ :=
    search_rounds env addr isIPv6 dialTimeout attempts 1 maxTTL (-1) s
  have hpair := Prod.eta (search env addr isIPv6 dialTimeout attempts 1 maxTTL (-1) s)
  rw [hstate] at hpair
  rw [probeMinimumReachableTTL] at hrun
  cases hres : (search env addr isIPv6 dialTimeout attempts 1 maxTTL (-1) s).1 with
  | ok found =>
    obtain ⟨cache,hcache⟩ := addToCache_run env ip found cacheTTL
      {s with net := net,dials := s.dials++dialsOf rounds}
    rw [hres] at hpair hends
    rw [bind_of_ok hpair.symm,bind_of_ok hcache] at hrun
    cases hrun
    refine ⟨fun h hh hatt hreach => ?_,rounds,hbetween,rfl,hends,by simp⟩
    rw [← hres,search_reachable hreach hatt hh]
  | error err =>
    rw [hres] at hpair hends
    rw [bind_of_error hpair.symm] at hrun
    cases hrun
    refine ⟨fun h hh hatt hreach => ?_,rounds,hbetween,rfl,hends,fun _ _ => rfl⟩
    rw [search_reachable hreach hatt hh] at hres
    cases hres

end Results

/-- A destination four hops away that refuses nothing; the cache is a list. -/
def fourHops : Env Unit (List (Str × ℤ × ℤ)) where
  dial d _ net := (if 4 ≤ d.ttl then .connected else .timeout,net)
  addWithLifetime ip ttl life cache := (ip,ttl,life)::cache

theorem fourHops_boundary :
    (probeMinimumReachableTTL fourHops (str "192.0.2.1:443") (str "192.0.2.1") false 30 2 500 60
      ⟨(),[],some []⟩).1 = .ok 4 ∧
    (probeMinimumReachableTTL fourHops (str "192.0.2.1:443") (str "192.0.2.1") false 3 2 500 60
      ⟨(),[],some []⟩).1 = .ok (-1) :=
  ⟨(probeMinimumReachableTTL_boundary rfl).1 4 (by decide) (by decide) fun _ _ => rfl,
    (probeMinimumReachableTTL_boundary rfl).1 4 (by decide) (by decide) fun _ _ => rfl⟩

end TTLProbe
end Enimul
