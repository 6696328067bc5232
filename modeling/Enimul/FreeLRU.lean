import Enimul.LinkedRing
import Mathlib.Data.Int.Notation

/-! The cache of package `freelru`.
The elements lie in one array. Two rings run through it: one over all elements, from the
oldest to the newest, and one for each bucket, over the elements whose keys fall into it. -/
namespace Enimul
namespace FreeLRU

open LinkedRing

@[ext] structure Element (K V : Type) where
  key : K
  value : V
  nextBucket : ℕ := 0
  prevBucket : ℕ := 0
  bucketPos : ℕ := 0
  next : ℕ := 0
  prev : ℕ := 0
  expire : ℤ := 0

/-- `math.MaxUint32`. -/
def emptyBucket : ℕ := 2^32-1

/-- Both arrays have the length `size`. -/
structure LRU (K V : Type) where
  buckets : ℕ → ℕ
  elements : ℕ → Element K V
  head : ℕ := 0
  len : ℕ := 0
  cap : ℕ
  size : ℕ
  mask : ℕ := 0

/-- A function over the cache; without a result it panics. -/
abbrev Act (K V α : Type) := StateT (LRU K V) Option α

variable {K V : Type}

section Access

def look {α : Type} (f : LRU K V → α) : Act K V α := fun s => some (f s,s)

def change (f : LRU K V → LRU K V) : Act K V Unit := fun s => some ((),f s)

def raise {α : Type} : Act K V α := fun _ => none

def element (pos : ℕ) : Act K V (Element K V) := fun s =>
  if pos < s.size then some (s.elements pos,s) else none

def setElement (pos : ℕ) (f : Element K V → Element K V) : Act K V Unit := fun s =>
  if pos < s.size then
    some ((),{s with elements := Function.update s.elements pos (f (s.elements pos))})
  else none

def bucket (bucketPos : ℕ) : Act K V ℕ := fun s =>
  if bucketPos < s.size then some (s.buckets bucketPos,s) else none

def setBucket (bucketPos pos : ℕ) : Act K V Unit := fun s =>
  if bucketPos < s.size then some ((),{s with buckets := Function.update s.buckets bucketPos pos})
  else none

end Access

/-- `bits.OnesCount32`. -/
def onesCount32 (n : ℕ) : ℕ := (List.range 32).countP fun i => n.testBit i

/-- `initLRU` for arrays that `make` has filled with zero values. -/
def initLRU [Inhabited K] [Inhabited V] (capacity size : ℕ) : LRU K V where
  buckets _ := emptyBucket
  elements _ := {key := default, value := default}
  cap := capacity
  size := size
  mask := if onesCount32 size = 1 then size-1 else 0

def fastRange (x n : ℕ) : ℕ := x*n/2^32

def hashToBucketPos (s : LRU K V) (hash : ℕ) : ℕ :=
  if s.mask ≠ 0 then hash &&& s.mask else fastRange hash s.size

def hashToPos (hash : ℕ) : Act K V (ℕ × ℕ) := do
  let bucketPos ← look (hashToBucketPos · hash)
  let elemPos ← bucket bucketPos
  return (bucketPos,elemPos)

def setHead (pos : ℕ) : Act K V Unit := do
  let head ← look LRU.head
  if pos = head then raise
  setElement pos fun e => {e with prev := head}
  let newest ← element head
  setElement pos fun e => {e with next := newest.next}
  let newest ← element head
  setElement newest.next fun e => {e with prev := pos}
  setElement head fun e => {e with next := pos}
  change fun s => {s with head := pos}

def unlinkElement (pos : ℕ) : Act K V Unit := do
  let e ← element pos
  setElement e.prev fun e' => {e' with next := e.next}
  let e ← element pos
  setElement e.next fun e' => {e' with prev := e.prev}

def unlinkBucket (pos : ℕ) : Act K V Unit := do
  let e ← element pos
  if e.prevBucket = e.nextBucket ∧ e.prevBucket = pos then setBucket e.bucketPos emptyBucket
  else
    setElement e.prevBucket fun e' => {e' with nextBucket := e.nextBucket}
    setElement e.nextBucket fun e' => {e' with prevBucket := e.prevBucket}
    let e' ← element pos
    setBucket e'.bucketPos e.nextBucket

/-- The callback on evictions is never set. -/
def evict (pos : ℕ) : Act K V Unit := do
  if pos = (← look LRU.head) then
    let e ← element pos
    change fun s => {s with head := e.prev}
  unlinkElement pos
  unlinkBucket pos
  change fun s => {s with len := s.len-1}

/-- The part of `move` that links the neighbours to the new position and copies the element. -/
def relocate (dst src : ℕ) : Act K V Unit := do
  let e ← element src
  setElement e.prev fun e' => {e' with next := dst}
  setElement e.next fun e' => {e' with prev := dst}
  let e ← element src
  setElement e.prevBucket fun e' => {e' with nextBucket := dst}
  setElement e.nextBucket fun e' => {e' with prevBucket := dst}
  let e ← element src
  setElement dst fun _ => e
  let e ← element dst
  if (← bucket e.bucketPos) = src then setBucket e.bucketPos dst

/-- Move the element from `src` to `dst`. -/
def move (dst src : ℕ) : Act K V Unit := do
  if dst = src then return
  if src = (← look LRU.head) then change fun s => {s with head := dst}
  relocate dst src

/-- `lifetime` is in nanoseconds, the clock and the result are in milliseconds. -/
def expire (now lifetime : ℤ) : ℤ :=
  if lifetime = 0 then 0 else now+lifetime.tdiv 1000000

def insert (now : ℤ) (pos : ℕ) (key : K) (value : V) (lifetime : ℤ) : Act K V Unit := do
  setElement pos fun e => {e with key := key}
  setElement pos fun e => {e with value := value}
  setElement pos fun e => {e with expire := expire now lifetime}
  if (← look LRU.len) = 0 then
    setElement pos fun e => {e with prev := pos}
    setElement pos fun e => {e with next := pos}
    change fun s => {s with head := pos}
  else if pos ≠ (← look LRU.head) then setHead pos
  change fun s => {s with len := s.len+1}

def clearKeyAndValue [Inhabited K] [Inhabited V] (pos : ℕ) : Act K V Unit := do
  setElement pos fun e => {e with key := default}
  setElement pos fun e => {e with value := default}

def removeAt [Inhabited K] [Inhabited V] (pos : ℕ) : Act K V Unit := do
  evict pos
  move pos (← look LRU.len)
  clearKeyAndValue (← look LRU.len)

/-- Make an element the newest. -/
def touch (pos : ℕ) : Act K V Unit := do
  if pos ≠ (← look LRU.head) then
    unlinkElement pos
    setHead pos

variable [DecidableEq K]

/-- The loop over a bucket that starts at `startPos`, up to the element with the key. A loop
that does not end within `fuel` elements has no result. -/
def walk (key : K) (startPos : ℕ) : ℕ → ℕ → Act K V (Option ℕ)
  | 0, _ => raise
  | fuel+1, pos => do
    let e ← element pos
    if e.key = key then return some pos
    if e.nextBucket = startPos then return none
    walk key startPos fuel e.nextBucket

/-- The position of the key, unless it is not there or has expired. -/
def findKey [Inhabited K] [Inhabited V] (now : ℤ) (hash : ℕ) (key : K) : Act K V (Option ℕ) := do
  let (_,startPos) ← hashToPos hash
  if startPos = emptyBucket then return none
  match ← walk key startPos (← look LRU.size) startPos with
  | none => return none
  | some pos =>
    let e ← element pos
    if e.expire ≠ 0 ∧ e.expire ≤ now then
      removeAt pos
      return none
    return some pos

/-- A free position, or the one of the oldest element when there is none. -/
def freePos : Act K V (ℕ × Bool) := do
  let pos ← look LRU.len
  if pos = (← look LRU.cap) then
    let newest ← element (← look LRU.head)
    evict newest.next
    return (newest.next,true)
  return (pos,false)

/-- Make the element at `pos` the first of an empty bucket. -/
def fileFirst (bucketPos pos : ℕ) : Act K V Unit := do
  setBucket bucketPos pos
  setElement pos fun e => {e with bucketPos := bucketPos}
  setElement pos fun e => {e with nextBucket := pos}
  setElement pos fun e => {e with prevBucket := pos}

/-- Put the element at `pos` before the one at the start of its bucket. -/
def fileBefore (bucketPos pos startPos : ℕ) : Act K V Unit := do
  setBucket bucketPos pos
  setElement pos fun e => {e with bucketPos := bucketPos}
  setElement pos fun e => {e with nextBucket := startPos}
  let start ← element startPos
  setElement pos fun e => {e with prevBucket := start.prevBucket}
  let start ← element startPos
  setElement start.prevBucket fun e => {e with nextBucket := pos}
  setElement startPos fun e => {e with prevBucket := pos}

/-- The start of a bucket after an element has been evicted, which may have been in it. -/
def restart (bucketPos pos : ℕ) : Act K V ℕ := do
  let start ← bucket bucketPos
  return if start = emptyBucket then pos else start

def addWithLifetime (now : ℤ) (hash : ℕ) (key : K) (value : V) (lifetime : ℤ) : Act K V Bool := do
  let (bucketPos,startPos) ← hashToPos hash
  if startPos = emptyBucket then
    let (pos,evicted) ← freePos
    fileFirst bucketPos pos
    insert now pos key value lifetime
    return evicted
  match ← walk key startPos (← look LRU.size) startPos with
  | some pos =>
    setElement pos fun e => {e with value := value}
    setElement pos fun e => {e with expire := expire now lifetime}
    touch pos
    return false
  | none =>
    let (pos,evicted) ← freePos
    let startPos ← if evicted then restart bucketPos pos else pure startPos
    fileBefore bucketPos pos startPos
    insert now pos key value lifetime
    return evicted

/-- The value of a key that has not expired; it becomes the newest. -/
def get [Inhabited K] [Inhabited V] (now : ℤ) (hash : ℕ) (key : K) : Act K V (Option V) := do
  match ← findKey now hash key with
  | none => return none
  | some pos =>
    touch pos
    let e ← element pos
    return some e.value

end FreeLRU
end Enimul
