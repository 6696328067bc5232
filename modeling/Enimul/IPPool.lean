import Mathlib.Data.Rat.Floor
import Enimul.LoadConfig
import Enimul.WeightedChoice

/-! Pools of addresses.
A pool keeps the best of its addresses by their last scan, with weights, and hands them out in
turn. An access outside of a slice and a division by zero are a `Panic`. The weight that a scan
result gets is computed in floating point; here it is any number, which is then clamped. -/
namespace Enimul
namespace Pool

open GoSlice GoText NetIP LoadConfig WeightedChoice

inductive Panic
  | divide
  | index (i len : ℕ)
  | slice (hi len : ℕ)
  deriving DecidableEq, Repr

abbrev Safe (α : Type) := Except Panic α

section Slices

variable {α : Type}

/-- `l[i]` -/
def elemAt (l : List α) (i : ℕ) : Safe α :=
  match l[i]? with
  | some a => .ok a
  | none => .error (.index i l.length)

/-- `l[:n]` -/
def firstN (l : List α) (n : ℕ) : Safe (List α) :=
  if n ≤ l.length then .ok (l.take n) else .error (.slice n l.length)

/-- `l[i] = a` -/
def storeAt (l : List α) (i : ℕ) (a : α) : Safe (List α) :=
  if i < l.length then .ok (l.set i a) else .error (.index i l.length)

end Slices

def defaultTimeout : ℤ := 10^9
def defaultUpdateInterval : ℤ := 30*60*10^9
def defaultMaxConcurrency : ℤ := 100
def defaultTopIPCount : ℤ := 3
def defaultAttempts : ℤ := 4
def maxIPPoolSize : ℕ := 1000
def minWeight : ℚ := 1
def maxWeight : ℚ := 10000

structure IPPool where
  waitScanOnStartUp : Bool
  ips : List Str
  fallbackIP : Str
  port : ℕ
  topIPCount : ℕ
  attempts : ℕ
  timeout : ℤ
  updateInterval : ℤ
  /-- The capacity of `sem`. -/
  maxConcurrency : ℕ
  bestIndexes : List ℕ
  bestWeights : List ℕ
  totalWeight : ℕ := 0
  curValidIPs : ℕ := 0
  counter : UInt32 := 0
  deriving DecidableEq, Repr

/-! ### Decoding -/

/-- The struct into which the JSON is decoded. -/
structure PoolJSON where
  waitScanOnStartUp : Bool := false
  fallbackIP : Str := []
  ips : List Str := []
  port : ℤ := 0
  topIPCount : ℤ := 0
  maxConcurrency : ℤ := 0
  timeout : Str := []
  updateInterval : Str := []
  attempts : ℤ := 0
  deriving DecidableEq, Repr

/-- The addresses of a prefix, from `addr` on; `room` more fit into the pool. -/
def addPrefix (s : Str) (p : Prefix) : ℕ → Addr → List Str → Except String (List Str)
  | room, addr, ips =>
    if ¬ p.contains addr then .ok ips
    else
      match room with
      | 0 => .error ("CIDR " ++ text s ++ " exceeds max pool size (" ++ toString maxIPPoolSize ++ ")")
      | room+1 =>
        let ips := ips++[addr.string]
        let next := addr.next
        if next = .invalid ∨ ¬ p.contains next then .ok ips else addPrefix s p room next ips

def addLookup (s : Str) : List Bytes → List Str → Except String (List Str)
  | [], ips => .ok ips
  | ip::rest, ips =>
    match addrFromSlice ip with
    | none => addLookup s rest ips
    | some addr =>
      if maxIPPoolSize ≤ ips.length then
        .error ("DNS resolution for " ++ text s ++ " exceeds max pool size")
      else addLookup s rest (ips++[addr.string])

section Unmarshal

variable (lookupIP : Str → Except String (List Bytes))

def addSource (ips : List Str) (s : Str) : Except String (List Str) :=
  if maxIPPoolSize ≤ ips.length then
    .error ("IP pool exceeds maximum size (" ++ toString maxIPPoolSize ++ ") during parsing")
  else if (parseAddr s).isSome then .ok (ips++[s])
  else
    match parsePrefix s with
    | some p => addPrefix s p (maxIPPoolSize-ips.length) p.addr ips
    | none =>
      match lookupIP s with
      | .error err => .error ("DNS lookup failed for " ++ text s ++ ": " ++ err)
      | .ok addrs => addLookup s addrs ips

def parseIPList (sources : List Str) : Except String (List Str) :=
  (sources.flatMap expandPattern).foldlM (addSource lookupIP) []

/-- A duration that has a default. -/
def durationOr (default : ℤ) (field : String) (s : Str) : Except String ℤ :=
  if s = [] then .ok default
  else
    match GoTime.parseDuration s with
    | .error _ => .error ("invalid " ++ field ++ ": " ++ text s)
    | .ok d => if d ≤ 0 then .error ("invalid " ++ field ++ ": " ++ text s) else .ok d

/-- A count that has a default. -/
def countOr (default : ℤ) (field : String) (n : ℤ) (bad : Prop) [Decidable bad] : Except String ℤ :=
  if n = 0 then .ok default
  else if bad then .error ("invalid " ++ field ++ ": " ++ toString n)
  else .ok n

def unmarshalJSON (tmp : PoolJSON) : Except String IPPool := do
  let ips ← parseIPList lookupIP tmp.ips
  if ips.length = 0 then .error "no valid IPs after parsing"
  else if maxIPPoolSize < ips.length then
    .error ("IP pool exceeds maximum size (" ++ toString maxIPPoolSize ++ "): " ++
      toString ips.length)
  else if ips.length < tmp.topIPCount then
    .error ("IP count (" ++ toString ips.length ++ ") less than top_ip_count (" ++
      toString tmp.topIPCount ++ ")")
  else if tmp.port ≤ 0 ∨ 65535 < tmp.port then .error ("invalid port: " ++ toString tmp.port)
  else
    let concurrency ← countOr defaultMaxConcurrency "max_concurrency" tmp.maxConcurrency
      (tmp.maxConcurrency < 1)
    let topCount ← countOr defaultTopIPCount "top_ip_count" tmp.topIPCount
      (tmp.topIPCount ≤ 0 ∨ 255 < tmp.topIPCount ∨ ips.length < tmp.topIPCount)
    let attempts ← countOr defaultAttempts "attempts" tmp.attempts
      (tmp.attempts ≤ 0 ∨ 255 < tmp.attempts)
    let timeout ← durationOr defaultTimeout "timeout" tmp.timeout
    let updateInterval ← durationOr defaultUpdateInterval "update_interval" tmp.updateInterval
    return {
      waitScanOnStartUp := tmp.waitScanOnStartUp
      ips := ips
      fallbackIP := tmp.fallbackIP
      port := tmp.port.toNat
      topIPCount := topCount.toNat
      attempts := attempts.toNat
      timeout := timeout
      updateInterval := updateInterval
      maxConcurrency := concurrency.toNat
      bestIndexes := List.replicate topCount.toNat 0
      bestWeights := List.replicate topCount.toNat 0 }

end Unmarshal

/-! ### Scans -/

structure IPResult where
  ipIndex : ℕ
  latency : ℤ
  loss : ℚ
  deriving DecidableEq, Repr

/-- The order of the results, by loss and then by latency. -/
def less (a b : IPResult) : Bool :=
  if a.loss ≠ b.loss then a.loss < b.loss else a.latency < b.latency

/-- `sort.SliceStable` -/
def sortResults (results : List IPResult) : List IPResult := results.mergeSort fun a b => !less b a

def clampWeight (weightVal : ℚ) : ℚ :=
  if weightVal < minWeight then minWeight
  else if maxWeight < weightVal then maxWeight
  else weightVal

/-- What the loop over the results keeps. -/
structure Best where
  indexes : List ℕ
  weights : List ℕ
  totalWeight : ℕ
  validCount : ℕ
  deriving DecidableEq, Repr

section Update

variable (weightVal : IPResult → ℚ)

def weight (res : IPResult) : ℕ := ⌊clampWeight (weightVal res)⌋.toNat

/-- The loop over the results; `validCount` is its index. -/
def fillBest (topIPCount : ℕ) : List IPResult → Best → Safe Best
  | [], b => .ok b
  | res::results, b =>
    if b.validCount < topIPCount then do
      let indexes ← storeAt b.indexes b.validCount res.ipIndex
      let weights ← storeAt b.weights b.validCount (weight weightVal res)
      fillBest topIPCount results
        ⟨indexes,weights,b.totalWeight+weight weightVal res,b.validCount+1⟩
    else .ok b

/-- `n` zeros from `i` on. -/
def zeroWeights : ℕ → ℕ → List ℕ → Safe (List ℕ)
  | 0, _, weights => .ok weights
  | n+1, i, weights => do
    let weights ← storeAt weights i 0
    zeroWeights n (i+1) weights

def updateBest (p : IPPool) (results : List IPResult) : Safe IPPool :=
  if results = [] then .ok p
  else do
    let b ← fillBest weightVal p.topIPCount (sortResults results) ⟨p.bestIndexes,p.bestWeights,0,0⟩
    let weights ← zeroWeights (p.topIPCount-b.validCount) b.validCount b.weights
    -- the addresses are read for a line of the log
    let best ← firstN b.indexes b.validCount
    let _ ← best.mapM (elemAt p.ips)
    return {p with
      bestIndexes := b.indexes
      bestWeights := weights
      totalWeight := b.totalWeight
      curValidIPs := b.validCount }

end Update

/-! ### Handing out addresses -/

/-- What a call of `Get` reads under the lock. -/
structure Snapshot where
  indexes : List ℕ
  weights : List ℕ
  total : ℕ
  deriving DecidableEq, Repr

/-- `Get` up to the release of the lock; without valid addresses it returns the fallback. -/
def getRead (p : IPPool) : Safe (Option Snapshot) :=
  if p.curValidIPs = 0 then .ok none
  else do
    let indexes ← firstN p.bestIndexes p.curValidIPs
    let weights ← firstN p.bestWeights p.curValidIPs
    return some ⟨indexes,weights,p.totalWeight⟩

/-- The loop over the weights from `i` on, of which there are `n` more. -/
def selectFrom (weights : List ℕ) (target : ℕ) : ℕ → ℕ → ℕ → Safe (Option ℕ)
  | 0, _, _ => .ok none
  | n+1, i, acc => do
    let w ← elemAt weights i
    if target < acc+w then return some i else selectFrom weights target n (i+1) (acc+w)

/-- The rest of `Get`, with the value that it got from the counter: the position of the address
and the address. -/
def getPick (p : IPPool) (snap : Snapshot) (current : UInt32) : Safe (Option ℕ × Str) := do
  let target ← if snap.total = 0 then .error .divide else .ok (current.toNat%snap.total)
  match ← selectFrom snap.weights target snap.indexes.length 0 0 with
  | some i => do
    let index ← elemAt snap.indexes i
    let ip ← elemAt p.ips index
    return (some i,ip)
  | none => return (none,p.fallbackIP)

/-! ### What the operations keep -/

section Slices

variable {α : Type} {l : List α} {i n : ℕ}

@[simp] theorem ok_bind {β : Type} (a : α) (f : α → Safe β) :
    (Except.ok a >>= f : Safe β) = f a := rfl

theorem elemAt_of_lt (h : i < l.length) : elemAt l i = .ok l[i] := by
  simp [elemAt,List.getElem?_eq_getElem h]

theorem firstN_of_le (h : n ≤ l.length) : firstN l n = .ok (l.take n) := if_pos h

theorem storeAt_of_lt (h : i < l.length) (a : α) : storeAt l i a = .ok (l.set i a) := if_pos h

theorem take_set_succ (h : i < l.length) (a : α) : (l.set i a).take (i+1) = l.take i++[a] := by
  rw [List.take_succ_eq_append_getElem (by simpa using h),List.take_set_of_le (Nat.le_refl i),
    List.getElem_set_self]

end Slices

theorem clampWeight_range (v : ℚ) : 1 ≤ clampWeight v ∧ clampWeight v ≤ 10000 := by
  unfold clampWeight minWeight maxWeight
  split
  · norm_num
  · split
    · norm_num
    · rename_i hmin hmax
      exact ⟨not_lt.mp hmin,not_lt.mp hmax⟩

theorem weight_range (weightVal : IPResult → ℚ) (res : IPResult) :
    1 ≤ weight weightVal res ∧ weight weightVal res ≤ 10000 := by
  obtain ⟨hmin,hmax⟩ := clampWeight_range (weightVal res)
  have hlow : 1 ≤ ⌊clampWeight (weightVal res)⌋ := Int.le_floor.mpr (by exact_mod_cast hmin)
  have hhigh : ⌊clampWeight (weightVal res)⌋ ≤ 10000 :=
    Int.cast_le.mp ((Int.floor_le _).trans (by exact_mod_cast hmax))
  unfold weight
  omega

/-- The counters and slices of a pool fit together. -/
structure Consistent (p : IPPool) : Prop where
  top_pos : 0 < p.topIPCount
  indexes_length : p.bestIndexes.length = p.topIPCount
  weights_length : p.bestWeights.length = p.topIPCount
  valid_le : p.curValidIPs ≤ p.topIPCount
  total_eq : p.totalWeight = (p.bestWeights.take p.curValidIPs).sum
  weights_range : ∀ w ∈ p.bestWeights.take p.curValidIPs, 1 ≤ w ∧ w ≤ 10000
  indexes_lt : ∀ i ∈ p.bestIndexes.take p.curValidIPs, i < p.ips.length

/-- The results that were stored, in front of what the slices had before. -/
structure Filled (weightVal : IPResult → ℚ) (topIPCount : ℕ) (results : List IPResult) (b b' : Best) :
    Prop where
  indexes_length : b'.indexes.length = topIPCount
  weights_length : b'.weights.length = topIPCount
  valid_eq : b'.validCount = b.validCount+results.length
  valid_le : b'.validCount ≤ topIPCount
  indexes_eq : b'.indexes.take b'.validCount =
    b.indexes.take b.validCount++results.map IPResult.ipIndex
  weights_eq : b'.weights.take b'.validCount =
    b.weights.take b.validCount++results.map (weight weightVal)
  total_eq : b'.totalWeight = b.totalWeight+(results.map (weight weightVal)).sum

/-- The loop stores the first results for which there is room. -/
theorem fillBest_filled (weightVal : IPResult → ℚ) {topIPCount : ℕ} (results : List IPResult) {b : Best}
    (hindexes : b.indexes.length = topIPCount) (hweights : b.weights.length = topIPCount)
    (hvalid : b.validCount ≤ topIPCount) :
    ∃ b', fillBest weightVal topIPCount results b = .ok b' ∧
      Filled weightVal topIPCount (results.take (topIPCount-b.validCount)) b b' := by
  induction results generalizing b with
  | nil => exact ⟨b,rfl,hindexes,hweights,by simp,hvalid,by simp,by simp,by simp⟩
  | cons res results ih =>
    by_cases hroom : b.validCount < topIPCount
    · rw [fillBest,if_pos hroom,storeAt_of_lt (by omega),storeAt_of_lt (by omega)]
      obtain ⟨b',hrun,hfilled⟩ := ih (b := ⟨b.indexes.set b.validCount res.ipIndex,
        b.weights.set b.validCount (weight weightVal res),b.totalWeight+weight weightVal res,
        b.validCount+1⟩) (by simpa using hindexes) (by simpa using hweights) hroom
      have htake : (res::results).take (topIPCount-b.validCount) =
          res::results.take (topIPCount-(b.validCount+1)) := by
        rw [show topIPCount-b.validCount = topIPCount-(b.validCount+1)+1 by omega]
        rfl
      rw [htake]
      refine ⟨b',hrun,hfilled.indexes_length,hfilled.weights_length,?_,hfilled.valid_le,?_,?_,?_⟩
      · rw [hfilled.valid_eq,List.length_cons]
        exact Nat.succ_add_eq_add_succ _ _
      · rw [hfilled.indexes_eq,take_set_succ (by omega),List.map_cons,List.append_assoc]
        rfl
      · rw [hfilled.weights_eq,take_set_succ (by omega),List.map_cons,List.append_assoc]
        rfl
      · rw [hfilled.total_eq,List.map_cons,List.sum_cons,Nat.add_assoc]
    · rw [fillBest,if_neg hroom]
      have hfull : topIPCount-b.validCount = 0 := by omega
      exact ⟨b,rfl,hindexes,hweights,by simp [hfull],hvalid,by simp [hfull],by simp [hfull],
        by simp [hfull]⟩

theorem zeroWeights_keeps (n i : ℕ) (weights : List ℕ) (h : i+n ≤ weights.length) :
    ∃ weights', zeroWeights n i weights = .ok weights' ∧ weights'.length = weights.length ∧
      weights'.take i = weights.take i := by
  induction n generalizing i weights with
  | zero => exact ⟨weights,rfl,rfl,rfl⟩
  | succ n ih =>
    rw [zeroWeights,storeAt_of_lt (by omega)]
    obtain ⟨weights',hrun,hlen,htake⟩ := ih (i+1) (weights.set i 0) (by simp; omega)
    refine ⟨weights',hrun,by simpa using hlen,?_⟩
    have hshort := congrArg (List.take i) htake
    rw [List.take_take,List.take_take,Nat.min_eq_left (Nat.le_succ i),
      List.take_set_of_le (Nat.le_refl i)] at hshort
    exact hshort

theorem mapM_elemAt {ips : List Str} {indexes : List ℕ} (h : ∀ i ∈ indexes, i < ips.length) :
    ∃ addrs, indexes.mapM (elemAt ips) = .ok addrs := by
  induction indexes with
  | nil => exact ⟨[],rfl⟩
  | cons i indexes ih =>
    obtain ⟨addrs,haddrs⟩ := ih fun j hj => h j (.tail _ hj)
    rw [List.mapM_cons,elemAt_of_lt (h i (.head _)),haddrs]
    exact ⟨_,rfl⟩

theorem sortResults_perm (results : List IPResult) : (sortResults results).Perm results :=
  List.mergeSort_perm results _

/-- What a scan with results leaves: the first of them in their order, with their weights. -/
structure Updated (weightVal : IPResult → ℚ) (results : List IPResult) (p p' : IPPool) : Prop where
  consistent : Consistent p'
  frame : p' = {p with
    bestIndexes := p'.bestIndexes
    bestWeights := p'.bestWeights
    totalWeight := p'.totalWeight
    curValidIPs := p'.curValidIPs }
  indexes_eq : p'.bestIndexes.take p'.curValidIPs =
    ((sortResults results).take p.topIPCount).map IPResult.ipIndex
  weights_eq : p'.bestWeights.take p'.curValidIPs =
    ((sortResults results).take p.topIPCount).map (weight weightVal)
  valid_eq : p'.curValidIPs = min p.topIPCount results.length

theorem updateBest_updated (weightVal : IPResult → ℚ) {p : IPPool} (h : Consistent p)
    {results : List IPResult} (hne : results ≠ [])
    (hindex : ∀ res ∈ results, res.ipIndex < p.ips.length) :
    ∃ p', updateBest weightVal p results = .ok p' ∧ Updated weightVal results p p' := by
  obtain ⟨b,hfill,hb⟩ := fillBest_filled weightVal (sortResults results)
    (b := ⟨p.bestIndexes,p.bestWeights,0,0⟩) h.indexes_length h.weights_length (Nat.zero_le _)
  have hvalid := hb.valid_le
  obtain ⟨weights,hzero,hlen,htake⟩ := zeroWeights_keeps (p.topIPCount-b.validCount) b.validCount
    b.weights (by rw [hb.weights_length]; omega)
  have hindexes := hb.indexes_eq
  have hweights := htake.trans hb.weights_eq
  simp only [List.take_zero,List.nil_append,Nat.sub_zero] at hindexes hweights
  have hlt : ∀ i ∈ b.indexes.take b.validCount, i < p.ips.length := by
    intro i hi
    rw [hindexes] at hi
    obtain ⟨res,hres,rfl⟩ := List.mem_map.mp hi
    exact hindex res ((sortResults_perm results).mem_iff.mp (List.mem_of_mem_take hres))
  obtain ⟨addrs,haddrs⟩ := mapM_elemAt hlt
  let p' := {p with
    bestIndexes := b.indexes
    bestWeights := weights
    totalWeight := b.totalWeight
    curValidIPs := b.validCount }
  have hupdate : updateBest weightVal p results = .ok p' := by
    rw [updateBest,if_neg hne,hfill,ok_bind,hzero,ok_bind,
      firstN_of_le (by rw [hb.indexes_length]; omega),ok_bind,haddrs]
    rfl
  refine ⟨p',hupdate,⟨h.top_pos,hb.indexes_length,hlen.trans hb.weights_length,hvalid,?_,?_,hlt⟩,rfl,
    hindexes,hweights,?_⟩
  · change b.totalWeight = (weights.take b.validCount).sum
    rw [hweights,hb.total_eq]
    simp
  · change ∀ w ∈ weights.take b.validCount, _
    intro w hw
    rw [hweights] at hw
    obtain ⟨res,-,rfl⟩ := List.mem_map.mp hw
    exact weight_range weightVal res
  · change b.validCount = _
    have hlength := (sortResults_perm results).length_eq
    rw [hb.valid_eq,List.length_take,hlength]
    simp

/-- What a call of `Get` reads in a pool with valid addresses. -/
def snapshot (p : IPPool) : Snapshot :=
  ⟨p.bestIndexes.take p.curValidIPs,p.bestWeights.take p.curValidIPs,p.totalWeight⟩

theorem Consistent.getRead {p : IPPool} (h : Consistent p) :
    getRead p = .ok (if p.curValidIPs = 0 then none else some (snapshot p)) := by
  have hvalid := h.valid_le
  rw [Pool.getRead]
  split
  · rfl
  · rw [firstN_of_le (by rw [h.indexes_length]; omega),ok_bind,
      firstN_of_le (by rw [h.weights_length]; omega),ok_bind]
    rfl

/-- The loop finds the position whose share the target is in. -/
theorem selectFrom_eq (weights : List ℕ) (target : ℕ) {n i acc : ℕ} (hlen : i+n = weights.length)
    (hacc : acc ≤ target) :
    selectFrom weights target n i acc = .ok ((choose (weights.drop i) (target-acc)).map (·+i)) := by
  induction n generalizing i acc with
  | zero =>
    rw [List.drop_of_length_le (by omega)]
    rfl
  | succ n ih =>
    have hi : i < weights.length := by omega
    rw [selectFrom,elemAt_of_lt hi,ok_bind,List.drop_eq_getElem_cons hi,choose]
    by_cases ht : target < acc+weights[i]
    · rw [if_pos ht,if_pos (by omega),Option.map_some,Nat.zero_add]
      rfl
    · rw [if_neg ht,if_neg (by omega),ih (by omega) (by omega),Nat.sub_add_eq,Option.map_map]
      congr 2
      funext j
      simp only [Function.comp_apply]
      omega

/-- A snapshot of a pool with valid addresses. -/
structure Usable (p : IPPool) (snap : Snapshot) : Prop where
  length_eq : snap.indexes.length = snap.weights.length
  total_eq : snap.total = snap.weights.sum
  total_pos : 0 < snap.total
  indexes_lt : ∀ i ∈ snap.indexes, i < p.ips.length

/-- The position to which the counter falls. -/
def position (snap : Snapshot) (current : ℕ) : Option ℕ := choose snap.weights (current%snap.total)

/-- `Get` hands out the address of that position. -/
theorem Usable.getPick {p : IPPool} {snap : Snapshot} (h : Usable p snap) (current : UInt32) :
    ∃ i index ip, position snap current.toNat = some i ∧ snap.indexes[i]? = some index ∧
      p.ips[index]? = some ip ∧ getPick p snap current = .ok (some i,ip) := by
  have hlt : current.toNat%snap.total < snap.weights.sum := by
    rw [← h.total_eq]
    exact Nat.mod_lt _ h.total_pos
  obtain ⟨i,hi⟩ := choose_of_lt hlt
  have hi' : i < snap.indexes.length := h.length_eq ▸ choose_lt_length hi
  have hindex := h.indexes_lt _ (List.getElem_mem hi')
  refine ⟨i,snap.indexes[i],p.ips[snap.indexes[i]],hi,List.getElem?_eq_getElem hi',
    List.getElem?_eq_getElem hindex,?_⟩
  have hselect := selectFrom_eq snap.weights (current.toNat%snap.total) (n := snap.indexes.length)
    (i := 0) (by rw [h.length_eq,Nat.zero_add]) (Nat.zero_le _)
  rw [List.drop_zero,Nat.sub_zero,hi] at hselect
  rw [Pool.getPick,if_neg (Nat.ne_of_gt h.total_pos)]
  simp only [ok_bind,hselect,Option.map_some,Nat.add_zero]
  rw [elemAt_of_lt hi',ok_bind,elemAt_of_lt hindex,ok_bind]
  rfl

/-- The addresses that a call of `Get` may hand out now. -/
def bestAddresses (p : IPPool) : List Str :=
  (p.bestIndexes.take p.curValidIPs).filterMap (p.ips[·]?)

theorem Consistent.usable {p : IPPool} (h : Consistent p) (hvalid : p.curValidIPs ≠ 0) :
    Usable p (snapshot p) where
  length_eq := by simp [snapshot,h.indexes_length,h.weights_length]
  total_eq := h.total_eq
  total_pos := by
    have hsum := List.length_le_sum_of_one_le _ fun w hw => (h.weights_range w hw).1
    have hle := h.valid_le
    rw [← h.total_eq,List.length_take,h.weights_length] at hsum
    change 0 < p.totalWeight
    omega
  indexes_lt := h.indexes_lt

theorem countOr_ok {default n m : ℤ} {field : String} {bad : Prop} [Decidable bad]
    (h : countOr default field n bad = .ok m) : m = default ∨ m = n ∧ ¬ bad := by
  unfold countOr at h
  split at h
  · exact .inl (Except.ok.inj h).symm
  · split at h
    · cases h
    · rename_i hbad
      exact .inr ⟨(Except.ok.inj h).symm,hbad⟩

/-- A decoded pool has no valid addresses yet. -/
theorem unmarshalJSON_consistent {lookupIP : Str → Except String (List Bytes)} {tmp : PoolJSON}
    {p : IPPool} (h : unmarshalJSON lookupIP tmp = .ok p) :
    Consistent p ∧ p.curValidIPs = 0 := by
  obtain ⟨ips,-,h⟩ := GoRun.except_bind_ok h
  split at h
  · cases h
  split at h
  · cases h
  split at h
  · cases h
  split at h
  · cases h
  obtain ⟨concurrency,-,h⟩ := GoRun.except_bind_ok h
  obtain ⟨topCount,htop,h⟩ := GoRun.except_bind_ok h
  obtain ⟨attempts,-,h⟩ := GoRun.except_bind_ok h
  obtain ⟨timeout,-,h⟩ := GoRun.except_bind_ok h
  obtain ⟨updateInterval,-,h⟩ := GoRun.except_bind_ok h
  obtain rfl := Except.ok.inj h
  have hpos : 0 < topCount := by
    rcases countOr_ok htop with rfl|⟨rfl,hbad⟩
    · decide
    · omega
  exact ⟨⟨by simpa using hpos,by simp,by simp,Nat.zero_le _,by simp,by simp,by simp⟩,rfl⟩

end Pool
end Enimul
