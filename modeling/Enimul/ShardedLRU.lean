import Enimul.LRURefinement
import Mathlib.Data.Nat.Size

/-! The sharded cache of package `freelru`, over whole sequences of calls.
A call holds the lock of its shard and works on nothing else, so that the calls of any number
of threads act as a sequence of calls. -/
namespace Enimul
namespace FreeLRU

open LinkedRing

/-- `lrus` has the length `shards`. -/
structure ShardedLRU (K V : Type) where
  lrus : ℕ → LRU K V
  hash : K → UInt32
  shards : ℕ
  mask : ℕ

variable {K V : Type}

def nextPowerOfTwo (val : ℕ) : ℕ :=
  if onesCount32 val ≠ 1 then 2^val.size%2^32 else val

/-- The loop that reduces the number of shards. -/
def fewerShards (limit shards : ℕ) : ℕ :=
  if _h : limit < shards then fewerShards limit (shards/16) else shards
  termination_by shards

def newShardedWithSize [Inhabited K] [Inhabited V] (shards capacity size : ℕ)
    (hash : K → UInt32) : Except String (ShardedLRU K V) :=
  if capacity = 0 then .error "capacity must be positive"
  else if size < capacity then
    .error s!"size ({size}) is smaller than capacity ({capacity})"
  else
    let size := if size < 2^31 then nextPowerOfTwo size else 2^31
    let shards := nextPowerOfTwo shards
    let shards := fewerShards (size/16) shards
    let shards := if shards = 0 then 1 else shards
    let size := size/shards
    let size := if size = 0 then 1 else size
    let capacity := (capacity+shards-1)%2^32/shards
    let capacity := if capacity = 0 then 1 else capacity
    .ok {lrus := fun _ => initLRU capacity size, hash := hash, shards := shards, mask := shards-1}

/-- A product that does not fit into 32 bits is converted to some number, `unfit`. -/
def newSharded [Inhabited K] [Inhabited V] (unfit gomaxprocs capacity : ℕ)
    (hash : K → UInt32) : Except String (ShardedLRU K V) :=
  let size := if capacity*5/4 < 2^32 then capacity*5/4 else unfit
  newShardedWithSize (gomaxprocs*16%2^32) capacity size hash

def ShardedLRU.shard (c : ShardedLRU K V) (key : K) : ℕ := (c.hash key).toNat >>> 16 &&& c.mask

/-- Run a function on the shard of a key. -/
def onShard {α : Type} (key : K) (act : ℕ → Act K V α) (c : ShardedLRU K V) :
    Option (α × ShardedLRU K V) :=
  if c.shard key < c.shards then
    (act (c.hash key).toNat (c.lrus (c.shard key))).map fun (r,s) =>
      (r,{c with lrus := Function.update c.lrus (c.shard key) s})
  else none

inductive Call (K V : Type)
  | addWithLifetime (now : ℤ) (key : K) (value : V) (lifetime : ℤ)
  | get (now : ℤ) (key : K)

inductive Reply (V : Type)
  | added (evicted : Bool)
  | got (value : Option V)

def Call.key : Call K V → K
  | addWithLifetime _ key _ _ => key
  | get _ key => key

section Calls

variable [DecidableEq K] [Inhabited K] [Inhabited V]

def Call.exec : Call K V → ShardedLRU K V → Option (Reply V × ShardedLRU K V)
  | addWithLifetime now key value lifetime, c =>
    (onShard key (fun hash => FreeLRU.addWithLifetime now hash key value lifetime) c).map fun (r,c) =>
      (.added r,c)
  | get now key, c =>
    (onShard key (fun hash => FreeLRU.get now hash key) c).map fun (r,c) => (.got r,c)

/-- A sequence of calls; without a result one of them panics. -/
def runCalls : List (Call K V) → ShardedLRU K V → Option (List (Reply V) × ShardedLRU K V)
  | [], c => some ([],c)
  | call::calls, c => do
    let (reply,c) ← call.exec c
    let (replies,c) ← runCalls calls c
    return (reply::replies,c)

/-- The value that a call of `Get` returns after other calls. -/
def getAfter (calls : List (Call K V)) (now : ℤ) (key : K) (c : ShardedLRU K V) :
    Option (Option V) := do
  let (_,c) ← runCalls calls c
  let (value,_) ← onShard key (fun hash => FreeLRU.get now hash key) c
  return value

end Calls

section Routing

variable {cap : ℕ} {c c' : ShardedLRU K V} {l : ℕ → List (Recency.Entry K V)}

/-- The two caches send a key to the same shard. -/
structure SameRouting (c c' : ShardedLRU K V) : Prop where
  hash : c'.hash = c.hash
  shards : c'.shards = c.shards
  mask : c'.mask = c.mask

/-- A cache whose shards hold the entries `l`, each with room for `cap` of them. -/
structure Caches (cap : ℕ) (c : ShardedLRU K V) (l : ℕ → List (Recency.Entry K V)) : Prop where
  shards : c.mask < c.shards
  cap : ∀ i < c.shards, (c.lrus i).cap = cap
  holds : ∀ i < c.shards, Represents c.hash (c.lrus i) (l i)

theorem SameRouting.shard (h : SameRouting c c') : c'.shard = c.shard := by
  funext key
  rw [ShardedLRU.shard,ShardedLRU.shard,h.hash,h.mask]

theorem Caches.shard_lt (h : Caches cap c l) (key : K) : c.shard key < c.shards :=
  Nat.lt_of_le_of_lt Nat.and_le_right h.shards

/-- A call that does what it should on one shard leaves the others alone. -/
theorem onShard_spec {α : Type} (h : Caches cap c l) (key : K) (act : ℕ → Act K V α) {r : α}
    {l' : List (Recency.Entry K V)}
    (hact : ∀ s, Represents c.hash s (l (c.shard key)) → s.cap = cap →
      ∃ s', act (c.hash key).toNat s = some (r,s') ∧ Represents c.hash s' l' ∧ SameShape s s') :
    ∃ c', onShard key act c = some (r,c') ∧
      Caches cap c' (Function.update l (c.shard key) l') ∧ SameRouting c c' := by
  have hlt := h.shard_lt key
  obtain ⟨s',hrun,hrep,hshape⟩ := hact _ (h.holds _ hlt) (h.cap _ hlt)
  refine ⟨{c with lrus := Function.update c.lrus (c.shard key) s'},
    by rw [onShard,if_pos hlt,hrun]; rfl,⟨h.shards,fun i hi => ?_,fun i hi => ?_⟩,rfl,rfl,rfl⟩
  · by_cases hi' : i = c.shard key
    · subst hi'
      simpa using hshape.cap.trans (h.cap _ hlt)
    · simpa [Function.update_of_ne hi'] using h.cap i hi
  · by_cases hi' : i = c.shard key
    · subst hi'
      simpa using hrep
    · simpa [Function.update_of_ne hi'] using h.holds i hi

end Routing

section Spec

def Call.op : Call K V → Recency.Op K V
  | addWithLifetime now key value lifetime => .add (entry ⟨key,value,expire now lifetime⟩)
  | get now key => .get now key

theorem Call.op_key (call : Call K V) : call.op.key = call.key := by
  cases call <;> rfl

variable [DecidableEq K]

def Call.reply (cap : ℕ) : Call K V → List (Recency.Entry K V) → Reply V
  | addWithLifetime now key value lifetime, l =>
    .added (Recency.add cap (entry ⟨key,value,expire now lifetime⟩) l).1
  | get now key, l => .got (Recency.get now key l).1

/-- The replies of a cache that keeps the entries of each shard in a list. -/
def replies (shard : K → ℕ) (cap : ℕ) :
    List (Call K V) → (ℕ → List (Recency.Entry K V)) → List (Reply V)
  | [], _ => []
  | call::calls, l =>
    call.reply cap (l (shard call.key))::replies shard cap calls
      (Function.update l (shard call.key) (call.op.apply cap (l (shard call.key))))

/-- The entries of a shard after some calls. -/
def entries (shard : K → ℕ) (cap : ℕ) (calls : List (Call K V)) (l : ℕ → List (Recency.Entry K V))
    (i : ℕ) : List (Recency.Entry K V) :=
  Recency.run cap ((calls.filter fun call => shard call.key = i).map Call.op) (l i)

theorem entries_cons (shard : K → ℕ) (cap : ℕ) (call : Call K V) (calls : List (Call K V))
    (l : ℕ → List (Recency.Entry K V)) :
    entries shard cap (call::calls) l = entries shard cap calls
      (Function.update l (shard call.key) (call.op.apply cap (l (shard call.key)))) := by
  funext i
  by_cases hi : shard call.key = i
  · subst hi
    simp [entries,Recency.run]
  · simp [entries,hi,Function.update_of_ne (Ne.symm hi)]

theorem entries_append (shard : K → ℕ) (cap : ℕ) (calls calls' : List (Call K V))
    (l : ℕ → List (Recency.Entry K V)) :
    entries shard cap (calls++calls') l = entries shard cap calls' (entries shard cap calls l) := by
  funext i
  simp only [entries,List.filter_append,List.map_append,Recency.run_append]

/-- An entry is there by the last call that stored its key. -/
theorem mem_entries {cap : ℕ} {e : Recency.Entry K V} {shard : K → ℕ} {calls : List (Call K V)}
    (he : e ∈ entries shard cap calls (fun _ => []) (shard e.key)) :
    ∃ pre post t lifetime, calls = pre++.addWithLifetime t e.key e.value lifetime::post ∧
      e = entry ⟨e.key,e.value,expire t lifetime⟩ ∧
      ∀ t' v' lifetime', .addWithLifetime t' e.key v' lifetime' ∉ post := by
  obtain ⟨ops,ops',hsplit,hlast⟩ := Recency.mem_run he
  obtain ⟨front,back,hfilter,rfl,hback⟩ := List.map_eq_append_iff.1 hsplit
  obtain ⟨call,rest,rfl,hcall,rfl⟩ := List.map_eq_cons_iff.1 hback
  obtain ⟨pre,tail,rfl,-,htail⟩ := List.filter_eq_append_iff.1 hfilter
  obtain ⟨skipped,post,rfl,-,-,rfl⟩ := List.filter_eq_cons_iff.1 htail
  cases call with
  | get now key => cases hcall
  | addWithLifetime t key value lifetime =>
    cases hcall
    refine ⟨pre++skipped,post,t,lifetime,by simp [entry],rfl,fun t' v' lifetime' hmem => ?_⟩
    exact hlast (entry ⟨key,v',expire t' lifetime'⟩)
      (List.mem_map.2 ⟨_,List.mem_filter.2 ⟨hmem,by simp [Call.key,entry]⟩,rfl⟩) rfl

end Spec

variable [Inhabited K] [Inhabited V]

theorem initLRU_represents {hash : K → UInt32} {cap size : ℕ} (hcap : 0 < cap) (hle : cap ≤ size)
    (hsize : size < emptyBucket) : Represents hash (initLRU cap size : LRU K V) [] := by
  have hmask : (initLRU cap size : LRU K V).mask < size := by
    simp only [initLRU]
    split <;> omega
  refine ⟨[],fun _ => [],⟨⟨hcap,hle,hsize,hmask⟩,rfl,Nat.zero_le _,by simp,?_,?_,by simp,by simp⟩,
    by simp [Compact],rfl⟩
  · exact ⟨isRing_nil _,by simp⟩
  · exact ⟨fun _ _ => isRing_nil _,fun _ _ => rfl,by simp⟩

section Construction

theorem onesCount32_eq_one {n : ℕ} (hn : n < 2^32) (h : onesCount32 n = 1) :
    ∃ k, n = 2^k := by
  rw [onesCount32,List.countP_eq_length_filter,List.length_eq_one_iff] at h
  obtain ⟨k,hk⟩ := h
  have hbit : ∀ i < 32, n.testBit i ↔ i = k := by
    intro i hi
    have hmem : i ∈ (List.range 32).filter (fun i => n.testBit i) ↔ i = k := by
      rw [hk,List.mem_singleton]
    rw [← hmem,List.mem_filter,List.mem_range]
    exact ⟨fun hbit => ⟨hi,hbit⟩,And.right⟩
  have hlt : k < 32 := by
    have hmem : k ∈ (List.range 32).filter fun i => n.testBit i := by simp [hk]
    exact List.mem_range.1 (List.mem_filter.1 hmem).1
  refine ⟨k,Nat.eq_of_testBit_eq fun i => ?_⟩
  rw [Nat.testBit_two_pow]
  by_cases hi : i < 32
  · rw [Bool.eq_iff_iff,hbit i hi,decide_eq_true_iff,eq_comm]
  · have hle : 2^32 ≤ 2^i := Nat.pow_le_pow_right (by decide) (Nat.le_of_not_lt hi)
    rw [Nat.testBit_lt_two_pow (Nat.lt_of_lt_of_le hn hle),eq_comm,decide_eq_false_iff_not]
    omega

/-- A power of two that is not below the value, unless it does not fit into 32 bits. -/
theorem nextPowerOfTwo_cases {n : ℕ} (hn : n < 2^32) :
    (nextPowerOfTwo n = 0 ∧ 2^31 ≤ n) ∨ ∃ k, nextPowerOfTwo n = 2^k ∧ n ≤ 2^k ∧ k ≤ 31 := by
  rw [nextPowerOfTwo]
  split
  · have hsize : n.size ≤ 32 := Nat.size_le.2 hn
    rcases Nat.lt_or_ge n.size 32 with hlt | hge
    · refine .inr ⟨n.size,Nat.mod_eq_of_lt (Nat.pow_lt_pow_right (by decide) hlt),
        (Nat.lt_size_self n).le,by omega⟩
    · refine .inl ⟨by rw [Nat.le_antisymm hsize hge]; decide,?_⟩
      exact Nat.lt_size.1 hge
  · obtain ⟨k,rfl⟩ := onesCount32_eq_one hn (by simpa using ‹¬onesCount32 n ≠ 1›)
    have hk : k < 32 := (Nat.pow_lt_pow_iff_right (by decide)).1 hn
    exact .inr ⟨k,rfl,le_rfl,by omega⟩

theorem fewerShards_cases (limit : ℕ) {n : ℕ} (hn : n = 0 ∨ ∃ k, n = 2^k) :
    fewerShards limit n = 0 ∨ (fewerShards limit n ≤ limit ∧ ∃ k, fewerShards limit n = 2^k) := by
  induction n using Nat.strong_induction_on with
  | h n ih =>
    rw [fewerShards]
    split
    · rename_i hlt
      refine ih _ (Nat.div_lt_self (by omega) (by decide)) ?_
      obtain ⟨k,rfl⟩ := hn.resolve_left (by omega)
      rcases Nat.lt_or_ge k 4 with hk | hk
      · left
        exact Nat.div_eq_of_lt (Nat.pow_lt_pow_right (by decide) hk)
      · refine .inr ⟨k-4,?_⟩
        exact Nat.pow_div hk (by decide)
    · rcases hn with rfl | hn
      · exact .inl rfl
      · exact .inr ⟨by omega,hn⟩


theorem div_up {n k : ℕ} (hk : 0 < k) :
    n ≤ (n+k-1)/k*k ∧ (n+k-1)/k*k < n+k := by
  have hdiv := Nat.div_add_mod (n+k-1) k
  have hmod := Nat.mod_lt (n+k-1) hk
  rw [Nat.mul_comm k] at hdiv
  constructor <;> omega

/-- The array and the shards of a new cache are powers of two, and there is enough room. -/
theorem powers {shards capacity size : ℕ} (hshards : shards < 2^32) (hsize : capacity ≤ size)
    (hle : capacity ≤ 2^31) :
    ∃ m j, (if size < 2^31 then nextPowerOfTwo size else 2^31) = 2^m ∧ m ≤ 31 ∧ capacity ≤ 2^m ∧
      j ≤ m ∧ (let k := fewerShards (2^m/16) (nextPowerOfTwo shards)
        if k = 0 then 1 else k) = 2^j := by
  obtain ⟨m,hm,hm31,hcapm⟩ : ∃ m, (if size < 2^31 then nextPowerOfTwo size else 2^31) = 2^m ∧
      m ≤ 31 ∧ capacity ≤ 2^m := by
    split
    · rename_i hlt
      rcases nextPowerOfTwo_cases (n := size) (by omega) with ⟨-,hge⟩ | ⟨k,hk,hle,hk31⟩
      · omega
      · exact ⟨k,hk,hk31,hsize.trans hle⟩
    · exact ⟨31,rfl,le_rfl,hle⟩
  have hpow : nextPowerOfTwo shards = 0 ∨ ∃ k, nextPowerOfTwo shards = 2^k := by
    rcases nextPowerOfTwo_cases hshards with ⟨hzero,-⟩ | ⟨k,hk,-⟩
    · exact .inl hzero
    · exact .inr ⟨k,hk⟩
  rcases fewerShards_cases (2^m/16) hpow with hzero | ⟨hlimit,j,hj⟩
  · exact ⟨m,0,hm,hm31,hcapm,Nat.zero_le m,by simp [hzero]⟩
  · have hjm : 2^j ≤ 2^m := by
      rw [← hj]
      exact hlimit.trans (Nat.div_le_self _ _)
    exact ⟨m,j,hm,hm31,hcapm,(Nat.pow_le_pow_iff_right (by decide)).1 hjm,by simp [hj]⟩

/-- A cache for at least `capacity` entries, as the constructor makes it. -/
theorem newShardedWithSize_ok {shards capacity size : ℕ} (hash : K → UInt32) (hshards : shards < 2^32)
    (hcap : 0 < capacity) (hsize : capacity ≤ size) (hle : capacity ≤ 2^31) :
    ∃ cap c, newShardedWithSize shards capacity size hash = .ok c ∧
      Caches cap (c : ShardedLRU K V) (fun _ => []) ∧
      capacity ≤ cap*c.shards ∧ cap*c.shards < capacity+c.shards := by
  obtain ⟨m,j,hm,hm31,hcapm,hjm,hj⟩ := powers hshards hsize hle
  have hkpos : 0 < 2^j := Nat.pow_pos (by decide)
  have hk31 : 2^j ≤ 2^31 := Nat.pow_le_pow_right (by decide) (hjm.trans hm31)
  have hm32 : 2^m ≤ 2^31 := Nat.pow_le_pow_right (by decide) hm31
  have hdiv : 2^m/2^j = 2^(m-j) := Nat.pow_div hjm (by decide)
  have hfit : (capacity+2^j-1)%2^32 = capacity+2^j-1 := Nat.mod_eq_of_lt (by omega)
  obtain ⟨hlow,hhigh⟩ := div_up (n := capacity) hkpos
  have hroom : (capacity+2^j-1)/2^j ≤ 2^(m-j) := by
    have hprod : 2^(m-j)*2^j = 2^m := by rw [← Nat.pow_add,Nat.sub_add_cancel hjm]
    have hlt : (capacity+2^j-1)/2^j*2^j < (2^(m-j)+1)*2^j := by
      rw [Nat.add_mul,hprod]
      omega
    exact Nat.le_of_lt_succ (Nat.lt_of_mul_lt_mul_right hlt)
  have hqpos : 0 < (capacity+2^j-1)/2^j := Nat.div_pos (by omega) hkpos
  have hspos : 0 < 2^(m-j) := Nat.pow_pos (by decide)
  have hsmall : 2^(m-j) ≤ 2^m := Nat.pow_le_pow_right (by decide) (Nat.sub_le m j)
  refine ⟨(capacity+2^j-1)/2^j,⟨fun _ => initLRU ((capacity+2^j-1)/2^j) (2^(m-j)),hash,2^j,2^j-1⟩,
    ?_,⟨Nat.sub_lt hkpos Nat.one_pos,fun _ _ => rfl,fun _ _ => ?_⟩,hlow,hhigh⟩
  · simp only at hj
    simp only [newShardedWithSize,if_neg hcap.ne',if_neg (Nat.not_lt.2 hsize),hm,hj,hdiv,hfit,
      if_neg hqpos.ne',if_neg hspos.ne']
  · exact initLRU_represents hqpos hroom (by rw [emptyBucket]; omega)

theorem newSharded_ok (unfit gomaxprocs capacity : ℕ) (hash : K → UInt32)
    (hcap : 0 < capacity) (hle : capacity ≤ 2^31) :
    ∃ cap c, newSharded unfit gomaxprocs capacity hash = .ok c ∧
      Caches cap (c : ShardedLRU K V) (fun _ => []) ∧
      capacity ≤ cap*c.shards ∧ cap*c.shards < capacity+c.shards := by
  have hsize : capacity*5/4 < 2^32 := by omega
  rw [newSharded,if_pos hsize]
  exact newShardedWithSize_ok hash (Nat.mod_lt _ (by decide)) hcap (by omega) hle

theorem Caches.of_newSharded {unfit gomaxprocs capacity : ℕ} {c : ShardedLRU K V}
    {hash : K → UInt32}
    (hle : capacity ≤ 2^31) (hnew : newSharded unfit gomaxprocs capacity hash = .ok c) :
    ∃ cap, Caches cap c (fun _ => []) ∧ capacity ≤ cap*c.shards := by
  have hcap : 0 < capacity := by
    rcases Nat.eq_zero_or_pos capacity with rfl | hpos
    · cases hnew
    · exact hpos
  obtain ⟨cap,c',hnew',hc',hlow,-⟩ := newSharded_ok (V := V) unfit gomaxprocs capacity hash hcap hle
  rw [hnew] at hnew'
  cases hnew'
  exact ⟨cap,hc',hlow⟩

theorem newSharded_sixteen (hash : K → UInt32) : newSharded 0 8 16 hash =
    .ok (⟨fun _ => initLRU 16 32,hash,1,0⟩ : ShardedLRU K V) := by
  have hsize : nextPowerOfTwo 20 = 32 := by decide
  have hshards : nextPowerOfTwo 128 = 128 := by decide
  have hfewer : fewerShards 2 128 = 0 := by
    rw [fewerShards,dif_pos (by decide),fewerShards,dif_pos (by decide),fewerShards,
      dif_neg (by decide)]
  simp [newSharded,newShardedWithSize,hsize,hshards,hfewer]

end Construction

variable [DecidableEq K]

section Run

variable {cap : ℕ} {c : ShardedLRU K V} {l : ℕ → List (Recency.Entry K V)}

theorem exec_spec (h : Caches cap c l) (call : Call K V) :
    ∃ c', call.exec c = some (call.reply cap (l (c.shard call.key)),c') ∧
      Caches cap c' (Function.update l (c.shard call.key)
        (call.op.apply cap (l (c.shard call.key)))) ∧ SameRouting c c' := by
  cases call with
  | addWithLifetime now key value lifetime =>
    obtain ⟨c',hrun,hc',hsame⟩ := onShard_spec h key
      (fun hash => FreeLRU.addWithLifetime now hash key value lifetime) fun s hs hcap =>
        hcap ▸ add_spec hs now key value lifetime
    exact ⟨c',by rw [Call.exec,hrun]; rfl,hc',hsame⟩
  | get now key =>
    obtain ⟨c',hrun,hc',hsame⟩ := onShard_spec h key (fun hash => FreeLRU.get now hash key)
      fun s hs _ => get_spec hs now key
    exact ⟨c',by rw [Call.exec,hrun]; rfl,hc',hsame⟩

theorem runCalls_spec (h : Caches cap c l) (calls : List (Call K V)) :
    ∃ c', runCalls calls c = some (replies c.shard cap calls l,c') ∧
      Caches cap c' (entries c.shard cap calls l) ∧ SameRouting c c' := by
  induction calls generalizing c l with
  | nil => exact ⟨c,rfl,h,rfl,rfl,rfl⟩
  | cons call calls ih =>
    obtain ⟨c₁,hexec,h₁,hsame₁⟩ := exec_spec h call
    obtain ⟨c₂,hrun,h₂,hsame₂⟩ := ih h₁
    rw [hsame₁.shard] at hrun h₂
    refine ⟨c₂,by simp [runCalls,hexec,hrun,replies],?_,hsame₂.hash.trans hsame₁.hash,
      hsame₂.shards.trans hsame₁.shards,hsame₂.mask.trans hsame₁.mask⟩
    rwa [entries_cons]

theorem runCalls_concat (calls : List (Call K V)) (call : Call K V) (c : ShardedLRU K V) :
    runCalls (calls++[call]) c = (runCalls calls c).bind fun (out,c') =>
      (call.exec c').map fun (reply,c'') => (out++[reply],c'') := by
  induction calls generalizing c with
  | nil => cases h : call.exec c <;> simp [runCalls,h]
  | cons call' calls ih =>
    cases h : call'.exec c with
    | none => simp [runCalls,h]
    | some r =>
      simp only [List.cons_append,runCalls,h,Option.bind_eq_bind,Option.bind_some,ih]
      cases runCalls calls r.2 with
      | none => rfl
      | some r' => cases h' : call.exec r'.2 <;> simp [h']

theorem getAfter_of_exec {calls : List (Call K V)} {c₁ c₂ : ShardedLRU K V} {out : List (Reply V)}
    {now : ℤ} {key : K} {value : Option V} (hrun : runCalls calls c = some (out,c₁))
    (hexec : (Call.get now key).exec c₁ = some (.got value,c₂)) :
    getAfter calls now key c = some value := by
  simp only [Call.exec,Option.map_eq_some_iff,Prod.mk.injEq,Reply.got.injEq] at hexec
  obtain ⟨⟨value',c₂'⟩,hshard,rfl,rfl⟩ := hexec
  simp [getAfter,hrun,hshard]

theorem getAfter_spec (h : Caches cap c l) (calls : List (Call K V)) (now : ℤ) (key : K) :
    getAfter calls now key c =
      some (Recency.get now key (entries c.shard cap calls l (c.shard key))).1 := by
  obtain ⟨c₁,hrun,h₁,hsame⟩ := runCalls_spec h calls
  obtain ⟨c₂,hget,-⟩ := onShard_spec h₁ key (fun hash => FreeLRU.get now hash key)
    fun s hs _ => get_spec hs now key
  simp [getAfter,hrun,hget,hsame.shard]

/-- A new cache never panics, whatever is called in whatever order, and answers as if it kept
the entries of each shard in a list in the order of their last use. All shards together have
room for the capacity, and for less than one more entry each. -/
theorem newSharded_refines (unfit gomaxprocs : ℕ) {capacity : ℕ} (hash : K → UInt32)
    (hcap : 0 < capacity) (hle : capacity ≤ 2^31) :
    ∃ (cap : ℕ) (c : ShardedLRU K V), newSharded unfit gomaxprocs capacity hash = .ok c ∧
      capacity ≤ cap*c.shards ∧ cap*c.shards < capacity+c.shards ∧
      ∀ calls, ∃ c', runCalls calls c = some (replies c.shard cap calls (fun _ => []),c') := by
  obtain ⟨cap,c,hnew,hc,hlow,hhigh⟩ := newSharded_ok (V := V) unfit gomaxprocs capacity hash hcap hle
  refine ⟨cap,c,hnew,hlow,hhigh,fun calls => ?_⟩
  obtain ⟨c',hrun,-⟩ := runCalls_spec hc calls
  exact ⟨c',hrun⟩

theorem newSharded_refines_sixteen : ∃ (cap : ℕ) (c : ShardedLRU ℕ ℕ),
    newSharded 0 8 16 Nat.toUInt32 = .ok c ∧ 16 ≤ cap*c.shards ∧ cap*c.shards < 16+c.shards ∧
    ∀ calls, ∃ c', runCalls calls c = some (replies c.shard cap calls (fun _ => []),c') :=
  newSharded_refines 0 8 Nat.toUInt32 (by decide) (by decide)

theorem Caches.fresh (hc : Caches cap c (fun _ => [])) {calls : List (Call K V)} {now : ℤ} {key : K}
    {v : V} (hget : getAfter calls now key c = some (some v)) :
    ∃ pre post t lifetime, calls = pre++.addWithLifetime t key v lifetime::post ∧
      (∀ t' v' lifetime', .addWithLifetime t' key v' lifetime' ∉ post) ∧
      (expire t lifetime = 0 ∨ now < expire t lifetime) := by
  rw [getAfter_spec hc,Option.some_inj,Recency.get_eq_some] at hget
  obtain ⟨e,hfind,hlive,rfl⟩ := hget
  obtain ⟨rfl,hmem⟩ := Recency.exists_split hfind
  obtain ⟨pre,post,t,lifetime,hcalls,he,hlast⟩ := mem_entries (List.mem_of_find?_eq_some hfind)
  refine ⟨pre,post,t,lifetime,hcalls,hlast,?_⟩
  rw [he,live_iff] at hlive
  by_cases hzero : expire t lifetime = 0
  · exact .inl hzero
  · exact .inr (not_le.1 fun hdue => hlive ⟨hzero,hdue⟩)

/-- `Get` returns what the last call of `AddWithLifetime` for the key has stored, and only
before its lifetime is over. -/
theorem getAfter_fresh {unfit gomaxprocs capacity : ℕ} {hash : K → UInt32} (hle : capacity ≤ 2^31)
    (hnew : newSharded unfit gomaxprocs capacity hash = .ok c) {calls : List (Call K V)} {now : ℤ}
    {key : K} {v : V} (hget : getAfter calls now key c = some (some v)) :
    ∃ pre post t lifetime, calls = pre++.addWithLifetime t key v lifetime::post ∧
      (∀ t' v' lifetime', .addWithLifetime t' key v' lifetime' ∉ post) ∧
      (expire t lifetime = 0 ∨ now < expire t lifetime) := by
  obtain ⟨cap,hc,-⟩ := Caches.of_newSharded hle hnew
  exact hc.fresh hget

theorem getAfter_fresh_stored : ∃ c : ShardedLRU ℕ ℕ, newSharded 0 8 16 Nat.toUInt32 = .ok c ∧
    getAfter [.addWithLifetime 100 7 5 2000000] 101 7 c = some (some 5) ∧
    ∃ pre post t lifetime, [Call.addWithLifetime 100 7 5 2000000] =
      pre++.addWithLifetime t 7 5 lifetime::post ∧
      (∀ t' v' lifetime', Call.addWithLifetime t' 7 v' lifetime' ∉ post) ∧
      (expire t lifetime = 0 ∨ 101 < expire t lifetime) := by
  obtain ⟨cap,c,hnew,hc,-⟩ := newSharded_ok (V := ℕ) 0 8 16 Nat.toUInt32 (by decide) (by decide)
  have hget : getAfter [.addWithLifetime 100 7 5 2000000] 101 7 c = some (some 5) := by
    rw [getAfter_spec hc,Option.some_inj,Recency.get_eq_some]
    refine ⟨entry ⟨7,5,102⟩,?_,by rw [live_iff]; decide,rfl⟩
    have hexpire : expire 100 2000000 = 102 := by decide
    simp only [entries,Call.key,decide_true,List.filter_cons_of_pos,List.filter_nil,List.map_cons,
      List.map_nil,Call.op,Recency.run,List.foldl_cons,List.foldl_nil,Recency.Op.apply,hexpire]
    rw [Recency.add_of_find_none rfl]
    split <;> rfl
  exact ⟨c,hnew,hget,getAfter_fresh (by decide) hnew hget⟩

/-- Calls of other keys leave the answer for a key alone, as long as fewer of them have been
used in its shard than the shard has room for. -/
theorem getAfter_kept {unfit gomaxprocs capacity : ℕ} {hash : K → UInt32} (hle : capacity ≤ 2^31)
    (hnew : newSharded unfit gomaxprocs capacity hash = .ok c) (pre : List (Call K V))
    (call : Call K V) (post : List (Call K V)) (now : ℤ)
    (hother : ∀ call' ∈ post, call'.key ≠ call.key)
    (hfew : ((post.map Call.key).filter fun k => c.shard k = c.shard call.key).toFinset.card*
      c.shards < capacity) :
    getAfter (pre++call::post) now call.key c = getAfter (pre++[call]) now call.key c := by
  obtain ⟨cap,hc,hlow⟩ := Caches.of_newSharded hle hnew
  rw [getAfter_spec hc,getAfter_spec hc,Option.some_inj]
  have hcard := Nat.lt_of_mul_lt_mul_right (Nat.lt_of_lt_of_le hfew hlow)
  have hkeys : ((entries c.shard cap pre (fun _ => []) (c.shard call.key)).map
      Recency.Entry.key).Nodup := Recency.nodup_run (by simp) _ _
  have hafter : ∀ rest, entries c.shard cap (pre++call::rest) (fun _ => []) (c.shard call.key) =
      Recency.run cap ((rest.filter fun call' => c.shard call'.key = c.shard call.key).map Call.op)
        (call.op.apply cap (entries c.shard cap pre (fun _ => []) (c.shard call.key))) := by
    intro rest
    rw [entries_append,entries_cons,entries,Function.update_self]
  refine Recency.get_congr ?_ now
  rw [hafter post,hafter []]
  refine Recency.find_run_of_few hkeys call.op_key (fun op hop => ?_) hcard
  obtain ⟨call',hmem,rfl⟩ := List.mem_map.1 hop
  obtain ⟨hpost,hshard⟩ := List.mem_filter.1 hmem
  rw [call'.op_key]
  refine ⟨hother call' hpost,List.mem_toFinset.2 (List.mem_filter.2 ⟨?_,hshard⟩)⟩
  exact List.mem_map_of_mem hpost

theorem getAfter_kept_other : ∃ c : ShardedLRU ℕ ℕ, newSharded 0 8 16 Nat.toUInt32 = .ok c ∧
    getAfter [.addWithLifetime 100 7 5 0,.get 100 7,.addWithLifetime 101 8 6 0] 102 7 c =
      getAfter [.addWithLifetime 100 7 5 0,.get 100 7] 102 7 c := by
  have hnew := newSharded_sixteen (K := ℕ) (V := ℕ) Nat.toUInt32
  exact ⟨_,hnew,getAfter_kept (by decide) hnew [.addWithLifetime 100 7 5 0] (.get 100 7)
    [.addWithLifetime 101 8 6 0] 102 (by simp [Call.key]) (by decide)⟩

end Run

end FreeLRU
end Enimul
