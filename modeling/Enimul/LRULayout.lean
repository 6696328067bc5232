import Enimul.FreeLRU
import Mathlib.Tactic.Simps.Basic

/-! What the functions of the cache do to its arrays.
An element is read in four parts: its links in the ring of all elements, its links in the ring
of its bucket, the bucket, and what it stores. Every assignment of the source changes one part. -/
namespace Enimul
namespace FreeLRU

open LinkedRing

/-- What an element stores. -/
structure Item (K V : Type) where
  key : K
  value : V
  expire : ℤ

variable {K V : Type} {s : LRU K V} {pos : ℕ}

namespace LRU

def time (s : LRU K V) : Links ℕ := ⟨fun i => (s.elements i).next,fun i => (s.elements i).prev⟩

def chain (s : LRU K V) : Links ℕ :=
  ⟨fun i => (s.elements i).nextBucket,fun i => (s.elements i).prevBucket⟩

def place (s : LRU K V) (i : ℕ) : ℕ := (s.elements i).bucketPos

def item (s : LRU K V) (i : ℕ) : Item K V :=
  ⟨(s.elements i).key,(s.elements i).value,(s.elements i).expire⟩

@[simps head len cap size mask]
def withTime (s : LRU K V) (L : Links ℕ) : LRU K V :=
  {s with elements := fun i => {s.elements i with next := L.next i, prev := L.prev i}}

@[simps head len cap size mask]
def withChain (s : LRU K V) (L : Links ℕ) : LRU K V :=
  {s with elements := fun i => {s.elements i with nextBucket := L.next i, prevBucket := L.prev i}}

@[simps head len cap size mask]
def withPlace (s : LRU K V) (f : ℕ → ℕ) : LRU K V :=
  {s with elements := fun i => {s.elements i with bucketPos := f i}}

@[simps head len cap size mask]
def withItem (s : LRU K V) (f : ℕ → Item K V) : LRU K V :=
  {s with elements := fun i => {s.elements i with
    key := (f i).key, value := (f i).value, expire := (f i).expire}}

@[simps head len cap size mask elements]
def withHead (s : LRU K V) (head : ℕ) : LRU K V := {s with head := head}

@[simps head len cap size mask elements]
def withLen (s : LRU K V) (len : ℕ) : LRU K V := {s with len := len}

@[simps head len cap size mask elements]
def withBuckets (s : LRU K V) (buckets : ℕ → ℕ) : LRU K V := {s with buckets := buckets}

section Views

variable (L L' : Links ℕ) (f f' : ℕ → ℕ) (g g' : ℕ → Item K V) (n : ℕ)

@[simp] theorem buckets_withTime : (s.withTime L).buckets = s.buckets := rfl
@[simp] theorem buckets_withChain : (s.withChain L).buckets = s.buckets := rfl
@[simp] theorem buckets_withPlace : (s.withPlace f).buckets = s.buckets := rfl
@[simp] theorem buckets_withItem : (s.withItem g).buckets = s.buckets := rfl
@[simp] theorem buckets_withHead : (s.withHead n).buckets = s.buckets := rfl
@[simp] theorem buckets_withLen : (s.withLen n).buckets = s.buckets := rfl
@[simp] theorem buckets_withBuckets : (s.withBuckets f).buckets = f := rfl
@[simp] theorem time_withTime : (s.withTime L).time = L := rfl
@[simp] theorem chain_withTime : (s.withTime L).chain = s.chain := rfl
@[simp] theorem place_withTime : (s.withTime L).place = s.place := rfl
@[simp] theorem item_withTime : (s.withTime L).item = s.item := rfl
@[simp] theorem time_withChain : (s.withChain L).time = s.time := rfl
@[simp] theorem chain_withChain : (s.withChain L).chain = L := rfl
@[simp] theorem place_withChain : (s.withChain L).place = s.place := rfl
@[simp] theorem item_withChain : (s.withChain L).item = s.item := rfl
@[simp] theorem time_withPlace : (s.withPlace f).time = s.time := rfl
@[simp] theorem chain_withPlace : (s.withPlace f).chain = s.chain := rfl
@[simp] theorem place_withPlace : (s.withPlace f).place = f := rfl
@[simp] theorem item_withPlace : (s.withPlace f).item = s.item := rfl
@[simp] theorem time_withItem : (s.withItem g).time = s.time := rfl
@[simp] theorem chain_withItem : (s.withItem g).chain = s.chain := rfl
@[simp] theorem place_withItem : (s.withItem g).place = s.place := rfl
@[simp] theorem item_withItem : (s.withItem g).item = g := rfl
@[simp] theorem time_withHead : (s.withHead n).time = s.time := rfl
@[simp] theorem chain_withHead : (s.withHead n).chain = s.chain := rfl
@[simp] theorem place_withHead : (s.withHead n).place = s.place := rfl
@[simp] theorem item_withHead : (s.withHead n).item = s.item := rfl
@[simp] theorem time_withLen : (s.withLen n).time = s.time := rfl
@[simp] theorem chain_withLen : (s.withLen n).chain = s.chain := rfl
@[simp] theorem place_withLen : (s.withLen n).place = s.place := rfl
@[simp] theorem item_withLen : (s.withLen n).item = s.item := rfl
@[simp] theorem time_withBuckets : (s.withBuckets f).time = s.time := rfl
@[simp] theorem chain_withBuckets : (s.withBuckets f).chain = s.chain := rfl
@[simp] theorem place_withBuckets : (s.withBuckets f).place = s.place := rfl
@[simp] theorem item_withBuckets : (s.withBuckets f).item = s.item := rfl

@[simp] theorem withTime_withTime : (s.withTime L).withTime L' = s.withTime L' := rfl
@[simp] theorem withChain_withTime :
    (s.withChain L).withTime L' = (s.withTime L').withChain L := rfl
@[simp] theorem withChain_withChain : (s.withChain L).withChain L' = s.withChain L' := rfl
@[simp] theorem withItem_withItem : (s.withItem g).withItem g' = s.withItem g' := rfl

@[simp] theorem elements_next (i : ℕ) : (s.elements i).next = s.time.next i := rfl
@[simp] theorem elements_prev (i : ℕ) : (s.elements i).prev = s.time.prev i := rfl
@[simp] theorem elements_nextBucket (i : ℕ) : (s.elements i).nextBucket = s.chain.next i := rfl
@[simp] theorem elements_prevBucket (i : ℕ) : (s.elements i).prevBucket = s.chain.prev i := rfl
@[simp] theorem elements_bucketPos (i : ℕ) : (s.elements i).bucketPos = s.place i := rfl
@[simp] theorem elements_key (i : ℕ) : (s.elements i).key = (s.item i).key := rfl
@[simp] theorem elements_value (i : ℕ) : (s.elements i).value = (s.item i).value := rfl
@[simp] theorem elements_expire (i : ℕ) : (s.elements i).expire = (s.item i).expire := rfl

end Views

end LRU

section Run

variable {α β : Type} {v : ℕ}

@[simp] theorem bind_run (m : Act K V α) (f : α → Act K V β) (s : LRU K V) :
    (m >>= f) s = (m s).bind fun r => f r.1 r.2 := rfl
@[simp] theorem map_run (f : α → β) (m : Act K V α) (s : LRU K V) :
    (f <$> m) s = (m s).bind fun r => some (f r.1,r.2) := rfl
@[simp] theorem pure_run (a : α) (s : LRU K V) : (pure a : Act K V α) s = some (a,s) := rfl
@[simp] theorem ite_run (c : Prop) [Decidable c] (m m' : Act K V α) (s : LRU K V) :
    (if c then m else m') s = if c then m s else m' s := by
  split <;> rfl
@[simp] theorem look_run (f : LRU K V → α) (s : LRU K V) : look f s = some (f s,s) := rfl
@[simp] theorem changeHead_run (n : ℕ) (s : LRU K V) :
    change (fun s => {s with head := n}) s = some ((),s.withHead n) := rfl
@[simp] theorem changeLen_run (s : LRU K V) :
    change (fun s => {s with len := s.len+1}) s = some ((),s.withLen (s.len+1)) := rfl

theorem element_run (h : pos < s.size) : element pos s = some (s.elements pos,s) := if_pos h

theorem bucket_run (h : pos < s.size) : bucket pos s = some (s.buckets pos,s) := if_pos h

theorem setBucket_run (h : pos < s.size) :
    setBucket pos v s = some ((),s.withBuckets (Function.update s.buckets pos v)) := if_pos h

/-- An assignment to one element, and any description of the array after it. -/
theorem setElement_run {f : Element K V → Element K V} {elements : ℕ → Element K V}
    (h : pos < s.size) (hat : elements pos = f (s.elements pos))
    (hother : ∀ i ≠ pos, elements i = s.elements i) :
    setElement pos f s = some ((),{s with elements := elements}) := by
  have he : elements = Function.update s.elements pos (f (s.elements pos)) :=
    Function.eq_update_iff.mpr ⟨hat,hother⟩
  rw [setElement,if_pos h,he]

theorem setNext_run (h : pos < s.size) : setElement pos (fun e => {e with next := v}) s =
    some ((),s.withTime ⟨Function.update s.time.next pos v,s.time.prev⟩) :=
  setElement_run h (by simp) fun i hi => by
    dsimp only
    rw [Function.update_of_ne hi]
    rfl

theorem setPrev_run (h : pos < s.size) : setElement pos (fun e => {e with prev := v}) s =
    some ((),s.withTime ⟨s.time.next,Function.update s.time.prev pos v⟩) :=
  setElement_run h (by simp) fun i hi => by
    dsimp only
    rw [Function.update_of_ne hi]
    rfl

theorem setNextBucket_run (h : pos < s.size) :
    setElement pos (fun e => {e with nextBucket := v}) s =
      some ((),s.withChain ⟨Function.update s.chain.next pos v,s.chain.prev⟩) :=
  setElement_run h (by simp) fun i hi => by
    dsimp only
    rw [Function.update_of_ne hi]
    rfl

theorem setPrevBucket_run (h : pos < s.size) :
    setElement pos (fun e => {e with prevBucket := v}) s =
      some ((),s.withChain ⟨s.chain.next,Function.update s.chain.prev pos v⟩) :=
  setElement_run h (by simp) fun i hi => by
    dsimp only
    rw [Function.update_of_ne hi]
    rfl

theorem setPlace_run (h : pos < s.size) : setElement pos (fun e => {e with bucketPos := v}) s =
    some ((),s.withPlace (Function.update s.place pos v)) :=
  setElement_run h (by simp) fun i hi => by
    dsimp only
    rw [Function.update_of_ne hi]
    rfl

theorem setKey_run (h : pos < s.size) (key : K) : setElement pos (fun e => {e with key := key}) s =
    some ((),s.withItem (Function.update s.item pos {s.item pos with key := key})) :=
  setElement_run h (by simp) fun i hi => by
    dsimp only
    rw [Function.update_of_ne hi]
    rfl

theorem setValue_run (h : pos < s.size) (value : V) :
    setElement pos (fun e => {e with value := value}) s =
      some ((),s.withItem (Function.update s.item pos {s.item pos with value := value})) :=
  setElement_run h (by simp) fun i hi => by
    dsimp only
    rw [Function.update_of_ne hi]
    rfl

theorem setExpire_run (h : pos < s.size) (t : ℤ) :
    setElement pos (fun e => {e with expire := t}) s =
      some ((),s.withItem (Function.update s.item pos {s.item pos with expire := t})) :=
  setElement_run h (by simp) fun i hi => by
    dsimp only
    rw [Function.update_of_ne hi]
    rfl

theorem setHead_run (hne : pos ≠ s.head) (hpos : pos < s.size) (hhead : s.head < s.size)
    (hnext : s.time.next s.head < s.size) : setHead pos s =
      some ((),(s.withTime (s.time.insert pos s.head (s.time.next s.head))).withHead pos) := by
  have hne' := hne.symm
  simp [setHead,hne,hpos,hhead,hnext,setNext_run,setPrev_run,element_run,Function.update_of_ne hne',
    Links.insert,LRU.withHead]

theorem unlinkElement_run (hpos : pos < s.size) (hnext : s.time.next pos < s.size)
    (hprev : s.time.prev pos < s.size) :
    unlinkElement pos s = some ((),s.withTime (s.time.unlink pos)) := by
  have hself : Function.update s.time.next (s.time.prev pos) (s.time.next pos) pos =
      s.time.next pos := by
    by_cases h : pos = s.time.prev pos
    · rw [← h,Function.update_self]
    · rw [Function.update_of_ne h]
  simp [unlinkElement,hpos,hnext,hprev,hself,setNext_run,setPrev_run,element_run,Links.unlink]

theorem unlinkBucket_single (hpos : pos < s.size) (hplace : s.place pos < s.size)
    (hnext : s.chain.next pos = pos) (hprev : s.chain.prev pos = pos) : unlinkBucket pos s =
      some ((),s.withBuckets (Function.update s.buckets (s.place pos) emptyBucket)) := by
  simp [unlinkBucket,hpos,hplace,hnext,hprev,element_run,setBucket_run]

theorem unlinkBucket_run (hpos : pos < s.size) (hplace : s.place pos < s.size)
    (hnext : s.chain.next pos < s.size) (hprev : s.chain.prev pos < s.size)
    (hne : ¬(s.chain.prev pos = s.chain.next pos ∧ s.chain.prev pos = pos)) :
    unlinkBucket pos s = some ((),(s.withChain (s.chain.unlink pos)).withBuckets
      (Function.update s.buckets (s.place pos) (s.chain.next pos))) := by
  simp [unlinkBucket,hpos,hplace,hnext,hprev,hne,element_run,setBucket_run,setNextBucket_run,
    setPrevBucket_run,Links.unlink]

/-- Taking an element out: the newest element and the ring of all elements come first. -/
theorem evict_run {s₁ : LRU K V} (hpos : pos < s.size) (hnext : s.time.next pos < s.size)
    (hprev : s.time.prev pos < s.size)
    (h : unlinkBucket pos ((s.withTime (s.time.unlink pos)).withHead
      (if pos = s.head then s.time.prev pos else s.head)) = some ((),s₁)) :
    evict pos s = some ((),s₁.withLen (s₁.len-1)) := by
  by_cases hhead : pos = s.head
  · have hunlink := unlinkElement_run (s := s.withHead (s.time.prev pos)) hpos hnext hprev
    rw [if_pos hhead] at h
    simp only [evict,bind_run,look_run,Option.bind_some,ite_run,if_pos hhead,element_run hpos,
      changeHead_run,LRU.elements_prev,hunlink]
    change ((unlinkBucket pos ((s.withTime (s.time.unlink pos)).withHead (s.time.prev pos))).bind _) = _
    rw [h]
    rfl
  · have hunlink := unlinkElement_run hpos hnext hprev
    rw [if_neg hhead] at h
    simp only [evict,bind_run,look_run,Option.bind_some,ite_run,if_neg hhead,hunlink]
    change ((unlinkBucket pos ((s.withTime (s.time.unlink pos)).withHead s.head)).bind _) = _
    rw [h]
    rfl

/-- `elements[dst] = elements[src]`. -/
theorem copyElement_run {dst : ℕ} (src : ℕ) (h : dst < s.size) :
    setElement dst (fun _ => s.elements src) s =
      some ((),(((s.withTime ⟨Function.update s.time.next dst (s.time.next src),
        Function.update s.time.prev dst (s.time.prev src)⟩).withChain
        ⟨Function.update s.chain.next dst (s.chain.next src),
          Function.update s.chain.prev dst (s.chain.prev src)⟩).withPlace
        (Function.update s.place dst (s.place src))).withItem
        (Function.update s.item dst (s.item src))) :=
  setElement_run h (by apply Element.ext <;> simp)
    fun i hi => by apply Element.ext <;> simp [Function.update_of_ne hi]

/-- The state after an element has been copied to its new position. -/
def LRU.relocated (s : LRU K V) (dst src : ℕ) : LRU K V :=
  ((((s.withTime (s.time.replace src dst)).withChain (s.chain.replace src dst)).withPlace
    (Function.update s.place dst (s.place src))).withItem
    (Function.update s.item dst (s.item src))).withBuckets
    (if s.buckets (s.place src) = src then Function.update s.buckets (s.place src) dst
      else s.buckets)

theorem relocate_run {dst src : ℕ} (hdst : dst < s.size) (hsrc : src < s.size)
    (hnext : s.time.next src < s.size) (hprev : s.time.prev src < s.size)
    (hnextBucket : s.chain.next src < s.size) (hprevBucket : s.chain.prev src < s.size)
    (hplace : s.place src < s.size) : relocate dst src s = some ((),s.relocated dst src) := by
  have hcopy {s₁ : LRU K V} (h : dst < s₁.size) := copyElement_run src h
  by_cases hstart : s.buckets (s.place src) = src
  · simp [relocate,LRU.relocated,if_pos hstart,hdst,hsrc,hnext,hprev,hnextBucket,hprevBucket,hplace,
      element_run,bucket_run,setBucket_run,setNext_run,setPrev_run,setNextBucket_run,
      setPrevBucket_run,hcopy,Links.replace]
  · simp [relocate,LRU.relocated,if_neg hstart,hdst,hsrc,hnext,hprev,hnextBucket,hprevBucket,hplace,
      element_run,bucket_run,setNext_run,setPrev_run,setNextBucket_run,setPrevBucket_run,hcopy,
      Links.replace]
    rfl

theorem move_run {dst src : ℕ} (hne : dst ≠ src) (hdst : dst < s.size) (hsrc : src < s.size)
    (hnext : s.time.next src < s.size) (hprev : s.time.prev src < s.size)
    (hnextBucket : s.chain.next src < s.size) (hprevBucket : s.chain.prev src < s.size)
    (hplace : s.place src < s.size) : move dst src s =
      some ((),(s.relocated dst src).withHead (if src = s.head then dst else s.head)) := by
  by_cases hhead : src = s.head
  · have hrun := relocate_run (s := s.withHead dst) hdst hsrc hnext hprev hnextBucket hprevBucket
      hplace
    simp only [move,bind_run,look_run,Option.bind_some,ite_run,if_neg hne,if_pos hhead,
      changeHead_run,hrun]
    rfl
  · have hrun := relocate_run hdst hsrc hnext hprev hnextBucket hprevBucket hplace
    simp only [move,bind_run,look_run,Option.bind_some,ite_run,if_neg hne,if_neg hhead,hrun]
    rfl

section Insert

variable {key : K} {value : V} {now lifetime : ℤ}

theorem insert_first (hpos : pos < s.size) (hlen : s.len = 0) :
    insert now pos key value lifetime s =
      some ((),(((s.withItem (Function.update s.item pos ⟨key,value,expire now lifetime⟩)).withTime
        (s.time.loop pos)).withHead pos).withLen (s.len+1)) := by
  simp [insert,hpos,hlen,setKey_run,setValue_run,setExpire_run,setNext_run,setPrev_run,Links.loop]

theorem insert_run (hpos : pos < s.size) (hlen : s.len ≠ 0) (hne : pos ≠ s.head)
    (hhead : s.head < s.size) (hnext : s.time.next s.head < s.size) :
    insert now pos key value lifetime s =
      some ((),(((s.withItem (Function.update s.item pos ⟨key,value,expire now lifetime⟩)).withTime
        (s.time.insert pos s.head (s.time.next s.head))).withHead pos).withLen (s.len+1)) := by
  have hset := setHead_run
    (s := s.withItem (Function.update s.item pos ⟨key,value,expire now lifetime⟩))
    hne hpos hhead hnext
  simp [insert,hpos,hlen,hne,setKey_run,setValue_run,setExpire_run,hset]

end Insert

/-- The state after an element has been linked into its bucket. -/
def LRU.filed (s : LRU K V) (bucketPos pos : ℕ) (L : Links ℕ) : LRU K V :=
  ((s.withBuckets (Function.update s.buckets bucketPos pos)).withPlace
    (Function.update s.place pos bucketPos)).withChain L

theorem fileFirst_run {b : ℕ} (hb : b < s.size) (hpos : pos < s.size) :
    fileFirst b pos s = some ((),s.filed b pos (s.chain.loop pos)) := by
  simp [fileFirst,hb,hpos,setBucket_run,setPlace_run,setNextBucket_run,setPrevBucket_run,LRU.filed,
    Links.loop]

theorem fileBefore_run {b start : ℕ} (hb : b < s.size) (hpos : pos < s.size)
    (hstart : start < s.size) (hprev : s.chain.prev start < s.size) :
    fileBefore b pos start s =
      some ((),s.filed b pos (s.chain.insert pos (s.chain.prev start) start)) := by
  have hself : Function.update s.chain.prev pos (s.chain.prev start) start = s.chain.prev start := by
    by_cases h : start = pos
    · rw [h,Function.update_self]
    · rw [Function.update_of_ne h]
  simp [fileBefore,hb,hpos,hstart,hprev,hself,element_run,setBucket_run,setPlace_run,
    setNextBucket_run,setPrevBucket_run,LRU.filed,Links.insert]

end Run

end FreeLRU
end Enimul
