import Enimul.LRUInvariant
import Enimul.Recency
import Mathlib.Data.Nat.Bitwise

/-! The cache of package `freelru` as a list of entries in the order of their last use. -/
namespace Enimul
namespace FreeLRU

open LinkedRing

variable {K V : Type}

/-- What a stored item is for the user of the cache. -/
def entry (i : Item K V) : Recency.Entry K V :=
  ⟨i.key,i.value,if i.expire = 0 then none else some i.expire⟩

/-- The bounds that a cache is made with. -/
structure Shape (s : LRU K V) : Prop where
  cap_pos : 0 < s.cap
  cap_le : s.cap ≤ s.size
  size_lt : s.size < emptyBucket
  mask_lt : s.mask < s.size

structure SameShape (s s' : LRU K V) : Prop where
  cap : s'.cap = s.cap
  size : s'.size = s.size
  mask : s'.mask = s.mask

structure Holds (hash : K → UInt32) (s : LRU K V) (ages : List ℕ) (chains : ℕ → List ℕ) : Prop where
  shape : Shape s
  len_eq : s.len = ages.length
  len_le : s.len ≤ s.cap
  lt_size : ∀ p ∈ ages, p < s.size
  order : InOrder s.time s.head ages
  buckets : Bucketed s.chain s.buckets s.place s.size ages chains
  hashed : ∀ p ∈ ages, s.place p = hashToBucketPos s (hash (s.item p).key).toNat
  keys : (ages.map fun p => (s.item p).key).Nodup

theorem SameShape.shape {s s' : LRU K V} (h : SameShape s s') (hs : Shape s) : Shape s' :=
  ⟨h.cap ▸ hs.cap_pos,h.cap ▸ h.size ▸ hs.cap_le,h.size ▸ hs.size_lt,h.mask ▸ h.size ▸ hs.mask_lt⟩

theorem SameShape.trans {s s₁ s₂ : LRU K V} (h : SameShape s s₁) (h' : SameShape s₁ s₂) :
    SameShape s s₂ := ⟨h'.cap.trans h.cap,h'.size.trans h.size,h'.mask.trans h.mask⟩

theorem SameShape.hashToBucketPos {s s' : LRU K V} (h : SameShape s s') (n : ℕ) :
    hashToBucketPos s' n = hashToBucketPos s n := by
  rw [FreeLRU.hashToBucketPos,FreeLRU.hashToBucketPos,h.mask,h.size]

theorem hashToBucketPos_lt {s : LRU K V} (hs : Shape s) (n : UInt32) :
    hashToBucketPos s n.toNat < s.size := by
  rw [hashToBucketPos]
  split
  · exact Nat.lt_of_le_of_lt Nat.and_le_right hs.mask_lt
  · have hpos : 0 < s.size := Nat.lt_of_lt_of_le hs.cap_pos hs.cap_le
    rw [fastRange,Nat.div_lt_iff_lt_mul (by decide),Nat.mul_comm]
    exact Nat.mul_lt_mul_of_pos_left n.toNat_lt hpos

variable {hash : K → UInt32} {s s' : LRU K V} {ages u v : List ℕ} {chains : ℕ → List ℕ} {pos : ℕ}

namespace Holds

theorem nodup (h : Holds hash s ages chains) : ages.Nodup := h.order.ring.nodup

theorem next_lt (h : Holds hash s ages chains) (hp : pos ∈ ages) : s.time.next pos < s.size :=
  h.lt_size _ (h.order.ring.next_mem hp)

theorem prev_lt (h : Holds hash s ages chains) (hp : pos ∈ ages) : s.time.prev pos < s.size :=
  h.lt_size _ (h.order.ring.prev_mem hp)

theorem place_lt (h : Holds hash s ages chains) (hp : pos ∈ ages) : s.place pos < s.size := by
  rw [h.hashed pos hp]
  exact hashToBucketPos_lt h.shape _

theorem head_mem (h : Holds hash s ages chains) (hne : ages ≠ []) : s.head ∈ ages :=
  List.mem_of_getLast? (h.order.head_mem hne)

/-- The links of the buckets do not matter to the ring of all elements, nor do the items. -/
theorem withTime (h : Holds hash s ages chains) {L : Links ℕ} {head : ℕ} {ages' : List ℕ}
    (hperm : ages'.Perm ages) (horder : InOrder L head ages') :
    Holds hash ((s.withTime L).withHead head) ages' chains where
  shape := ⟨h.shape.cap_pos,h.shape.cap_le,h.shape.size_lt,h.shape.mask_lt⟩
  len_eq := h.len_eq.trans hperm.length_eq.symm
  len_le := h.len_le
  lt_size p hp := h.lt_size p (hperm.mem_iff.mp hp)
  order := horder
  buckets := ⟨h.buckets.ring,h.buckets.start,fun b hb p =>
    (h.buckets.mem_iff b hb p).trans (and_congr_left' hperm.mem_iff.symm)⟩
  hashed p hp := h.hashed p (hperm.mem_iff.mp hp)
  keys := (hperm.map _).nodup_iff.mpr h.keys

/-- New values under the same keys. -/
theorem withItem (h : Holds hash s ages chains) {g : ℕ → Item K V}
    (hg : ∀ p ∈ ages, (g p).key = (s.item p).key) : Holds hash (s.withItem g) ages chains where
  shape := ⟨h.shape.cap_pos,h.shape.cap_le,h.shape.size_lt,h.shape.mask_lt⟩
  len_eq := h.len_eq
  len_le := h.len_le
  lt_size := h.lt_size
  order := h.order
  buckets := h.buckets
  hashed p hp := by
    rw [LRU.item_withItem,hg p hp]
    exact h.hashed p hp
  keys := by
    rw [LRU.item_withItem,List.map_congr_left hg]
    exact h.keys

end Holds

theorem touch_spec (h : Holds hash s (u++pos::v) chains) : ∃ s', touch pos s = some ((),s') ∧
    Holds hash s' (u++v++[pos]) chains ∧ s'.item = s.item ∧ SameShape s s' := by
  have hmem : pos ∈ u++pos::v := by simp
  have hpos := h.lt_size pos hmem
  rcases h.order.newest_cases with ⟨rfl,rfl⟩ | ⟨hne,hlast⟩
  · refine ⟨s,by simp [touch],?_,rfl,rfl,rfl,rfl⟩
    simpa using h
  · have hunlink := unlinkElement_run hpos (h.next_lt hmem) (h.prev_lt hmem)
    have horder : InOrder (s.time.unlink pos) s.head (u++v) := by
      have hrest := h.order.remove
      rwa [if_neg hne] at hrest
    have hrest : u++v ≠ [] := fun he => by
      rw [(List.append_eq_nil_iff.mp he).2] at hlast
      cases hlast
    have hsub : ∀ p ∈ u++v, p ∈ u++pos::v := fun p hp => by
      simp only [List.mem_append,List.mem_cons] at hp ⊢
      tauto
    have hnotMem : pos ∉ u++v := (List.nodup_cons.mp (List.nodup_middle.mp h.nodup)).1
    have hhead := List.mem_of_getLast? (horder.head_mem hrest)
    have hset := setHead_run (s := s.withTime (s.time.unlink pos)) hne hpos
      (h.lt_size _ (hsub _ hhead)) (h.lt_size _ (hsub _ (horder.ring.next_mem hhead)))
    refine ⟨_,?_,h.withTime ?_ (horder.push hrest hnotMem),rfl,rfl,rfl,rfl⟩
    · simp [touch,hne,hunlink,hset]
    · rw [List.append_assoc]
      exact (List.perm_append_singleton pos v).append_left u

theorem mem_middle {p : ℕ} (hp : p ∈ u++v) : p ∈ u++pos::v := by
  simp only [List.mem_append,List.mem_cons] at hp ⊢
  tauto

/-- One element less, with everything else about the elements as before. -/
theorem Holds.remove {chains' : ℕ → List ℕ} (h : Holds hash s (u++pos::v) chains)
    (hshape : SameShape s s') (hlen : s'.len = s.len-1) (hitem : s'.item = s.item)
    (hplace : s'.place = s.place) (horder : InOrder s'.time s'.head (u++v))
    (hbuckets : Bucketed s'.chain s'.buckets s.place s.size (u++v) chains') :
    Holds hash s' (u++v) chains' where
  shape := hshape.shape h.shape
  len_eq := by
    rw [hlen,h.len_eq]
    simp only [List.length_append,List.length_cons]
    omega
  len_le := by
    have hle := h.len_le
    rw [hlen,hshape.cap]
    omega
  lt_size p hp := hshape.size ▸ h.lt_size p (mem_middle hp)
  order := horder
  buckets := by
    rw [hplace,hshape.size]
    exact hbuckets
  hashed p hp := by
    rw [hplace,hitem,hshape.hashToBucketPos]
    exact h.hashed p (mem_middle hp)
  keys := by
    rw [hitem]
    exact h.keys.sublist (((List.sublist_cons_self pos v).append_left u).map _)

/-- Without a neighbour in its bucket the element that is taken out stays linked to itself. -/
theorem evict_spec (h : Holds hash s (u++pos::v) chains) : ∃ s' chains',
    evict pos s = some ((),s') ∧ Holds hash s' (u++v) chains' ∧ s'.item = s.item ∧
      SameShape s s' ∧ (chains' (s.place pos) = [] → s'.chain.prev pos = pos) ∧
      ∀ b ≠ s.place pos, chains' b = chains b := by
  have hmem : pos ∈ u++pos::v := by simp
  have hpos := h.lt_size pos hmem
  have hplace := h.place_lt hmem
  obtain ⟨t,hrot,hring⟩ := h.buckets.chain_of_mem hmem hplace
  have hchain : ∀ p ∈ pos::t, p < s.size := fun p hp =>
    h.lt_size p ((h.buckets.mem_iff _ hplace p).mp (hrot.mem_iff.mpr hp)).1
  have hevict {s₁ : LRU K V} (h₁ : unlinkBucket pos _ = some ((),s₁)) :=
    evict_run hpos (h.next_lt hmem) (h.prev_lt hmem) h₁
  have hprev := hring.prev_eq_last
  cases t with
  | nil =>
    have hself : s.chain.prev pos = pos := hprev
    have hbucket := hevict (unlinkBucket_single hpos hplace hring.next_eq_head hself)
    refine ⟨_,_,hbucket,h.remove ⟨rfl,rfl,rfl⟩ rfl rfl rfl h.order.remove
      (h.buckets.remove_single h.nodup hplace hrot),rfl,⟨rfl,rfl,rfl⟩,fun _ => hself,
      fun b hb => Function.update_of_ne hb ..⟩
  | cons c t =>
    have hnext : s.chain.next pos = c := hring.next_eq_head
    have hne : ¬(s.chain.prev pos = s.chain.next pos ∧ s.chain.prev pos = pos) := by
      rintro ⟨he,hp⟩
      rw [hp,hnext] at he
      exact (List.nodup_cons.mp hring.nodup).1 (he ▸ List.mem_cons_self)
    have hbucket := hevict (unlinkBucket_run hpos hplace
      (hchain _ (hring.next_mem List.mem_cons_self)) (hchain _ (hring.prev_mem List.mem_cons_self))
      hne)
    have hbuckets := h.buckets.remove h.nodup hplace hrot
    rw [List.headD_cons,← hnext] at hbuckets
    refine ⟨_,_,hbucket,h.remove ⟨rfl,rfl,rfl⟩ rfl rfl rfl h.order.remove hbuckets,rfl,
      ⟨rfl,rfl,rfl⟩,fun hnil => ?_,fun b hb => Function.update_of_ne hb ..⟩
    rw [Function.update_self] at hnil
    cases hnil

theorem move_spec {dst src : ℕ} (h : Holds hash s (u++src::v) chains) (hdst : dst < s.size)
    (hfree : dst ∉ u++src::v) : ∃ s' chains', move dst src s = some ((),s') ∧
      Holds hash s' (u++dst::v) chains' ∧ SameShape s s' ∧ s'.len = s.len ∧
      (u++dst::v).map s'.item = (u++src::v).map s.item := by
  have hmem : src ∈ u++src::v := by simp
  have hplace := h.place_lt hmem
  have hin := (h.buckets.mem_iff _ hplace src).mpr ⟨hmem,rfl⟩
  have hchain : ∀ p ∈ chains (s.place src), p < s.size := fun p hp =>
    h.lt_size p ((h.buckets.mem_iff _ hplace p).mp hp).1
  have hring := h.buckets.ring _ hplace
  have hne : dst ≠ src := fun he => hfree (he ▸ hmem)
  have hrun := move_run hne hdst (h.lt_size src hmem) (h.next_lt hmem) (h.prev_lt hmem)
    (hchain _ (hring.next_mem hin)) (hchain _ (hring.prev_mem hin)) hplace
  obtain ⟨c,hbuckets⟩ := h.buckets.replace h.nodup hplace hfree
  have hother : ∀ p ∈ u++v, p ≠ dst := fun p hp he => hfree (he ▸ mem_middle hp)
  have hitems : (u++dst::v).map (Function.update s.item dst (s.item src)) =
      (u++src::v).map s.item := by
    have hkeep : ∀ p ∈ u++v, Function.update s.item dst (s.item src) p = s.item p :=
      fun p hp => Function.update_of_ne (hother p hp) ..
    simp only [List.map_append,List.map_cons,Function.update_self]
    rw [List.map_congr_left fun p hp => hkeep p (List.mem_append_left v hp),
      List.map_congr_left fun p hp => hkeep p (List.mem_append_right u hp)]
  have hold : ∀ p ∈ u++dst::v, p = dst ∨ p ∈ u++v := fun p hp => by
    simp only [List.mem_append,List.mem_cons] at hp ⊢
    tauto
  refine ⟨_,_,hrun,⟨?_,?_,h.len_le,?_,h.order.replace hfree,hbuckets,?_,?_⟩,⟨rfl,rfl,rfl⟩,rfl,
    hitems⟩
  · exact ⟨h.shape.cap_pos,h.shape.cap_le,h.shape.size_lt,h.shape.mask_lt⟩
  · change s.len = _
    rw [h.len_eq]
    simp
  · intro p hp
    rcases hold p hp with rfl | hp
    · exact hdst
    · exact h.lt_size p (mem_middle hp)
  · intro p hp
    change Function.update s.place dst (s.place src) p =
      hashToBucketPos s (hash (Function.update s.item dst (s.item src) p).key).toNat
    rcases hold p hp with rfl | hp
    · rw [Function.update_self,Function.update_self]
      exact h.hashed src hmem
    · rw [Function.update_of_ne (hother p hp),Function.update_of_ne (hother p hp)]
      exact h.hashed p (mem_middle hp)
  · have hkeys := congrArg (List.map Item.key) hitems
    rw [List.map_map,List.map_map] at hkeys
    exact (congrArg List.Nodup hkeys).mpr h.keys

/-- The positions in use are the first ones of the array. -/
def Compact (s : LRU K V) (ages : List ℕ) : Prop := ∀ p ∈ ages, p < s.len

theorem Compact.mem_iff (h : Holds hash s ages chains) (hc : Compact s ages) (p : ℕ) :
    p ∈ ages ↔ p < s.len := by
  have hsub : ages.toFinset ⊆ Finset.range s.len := fun q hq =>
    Finset.mem_range.mpr (hc q (List.mem_toFinset.mp hq))
  have heq := Finset.eq_of_subset_of_card_le hsub (by
    rw [Finset.card_range,List.toFinset_card_of_nodup h.nodup,h.len_eq])
  rw [← List.mem_toFinset,heq,Finset.mem_range]

theorem clearKeyAndValue_run [Inhabited K] [Inhabited V] (hpos : pos < s.size) :
    ∃ i, clearKeyAndValue pos s = some ((),s.withItem (Function.update s.item pos i)) := by
  refine ⟨⟨default,default,(s.item pos).expire⟩,?_⟩
  simp [clearKeyAndValue,hpos,setKey_run,setValue_run]

/-- What lies beyond the positions in use does not matter. -/
theorem clearKeyAndValue_spec [Inhabited K] [Inhabited V] (h : Holds hash s ages chains)
    (hpos : pos < s.size) (hfree : pos ∉ ages) : ∃ s', clearKeyAndValue pos s = some ((),s') ∧
      Holds hash s' ages chains ∧ SameShape s s' ∧ s'.len = s.len ∧
      ages.map s'.item = ages.map s.item := by
  obtain ⟨i,hrun⟩ := clearKeyAndValue_run hpos
  have hkeep : ∀ p ∈ ages, Function.update s.item pos i p = s.item p :=
    fun p hp => Function.update_of_ne (ne_of_mem_of_not_mem hp hfree) ..
  exact ⟨_,hrun,h.withItem fun p hp => by rw [hkeep p hp],⟨rfl,rfl,rfl⟩,rfl,
    List.map_congr_left hkeep⟩

/-- The gap that an evicted element leaves is filled with the last element of the array. -/
theorem fillGap_spec (h : Holds hash s ages chains) (hpos : pos < s.size) (hfree : pos ∉ ages)
    (hc : ∀ p, p ∈ ages ↔ p ≤ s.len ∧ p ≠ pos) (hle : pos ≤ s.len) : ∃ s' ages' chains',
      move pos s.len s = some ((),s') ∧ Holds hash s' ages' chains' ∧ Compact s' ages' ∧
      SameShape s s' ∧ s'.len = s.len ∧ ages'.map s'.item = ages.map s.item := by
  by_cases hlast : pos = s.len
  · refine ⟨s,ages,chains,by simp [move,hlast],h,fun p hp => ?_,⟨rfl,rfl,rfl⟩,rfl,rfl⟩
    have hp' := (hc p).mp hp
    omega
  · obtain ⟨x,y,rfl⟩ := List.append_of_mem ((hc s.len).mpr ⟨le_rfl,Ne.symm hlast⟩)
    obtain ⟨s',chains',hrun,h',hshape,hlen,hitems⟩ := move_spec h hpos hfree
    refine ⟨s',_,chains',hrun,h',fun p hp => ?_,hshape,hlen,hitems⟩
    have hnodup := (List.nodup_cons.mp (List.nodup_middle.mp h.nodup)).1
    rw [hlen]
    have hp' : p = pos ∨ p ∈ x++y := by
      simp only [List.mem_append,List.mem_cons] at hp ⊢
      tauto
    rcases hp' with rfl | hp'
    · omega
    · have hne : p ≠ s.len := ne_of_mem_of_not_mem hp' hnodup
      have hle' := (hc p).mp (mem_middle hp')
      omega

theorem removeAt_spec [Inhabited K] [Inhabited V] (h : Holds hash s (u++pos::v) chains)
    (hc : Compact s (u++pos::v)) : ∃ s' ages' chains', removeAt pos s = some ((),s') ∧
      Holds hash s' ages' chains' ∧ Compact s' ages' ∧ SameShape s s' ∧
      ages'.map s'.item = (u++v).map s.item := by
  have hmem := hc.mem_iff h
  have hpos : pos < s.len := (hmem pos).mp (by simp)
  obtain ⟨s₁,chains₁,hevict,h₁,hitem,hshape,-,-⟩ := evict_spec h
  have hlen : s₁.len+1 = s.len := by
    rw [h₁.len_eq,h.len_eq]
    simp only [List.length_append,List.length_cons]
    omega
  have hsize : s.len ≤ s₁.size := by
    rw [hshape.size]
    exact h.len_le.trans h.shape.cap_le
  have hfree : pos ∉ u++v := (List.nodup_cons.mp (List.nodup_middle.mp h.nodup)).1
  have hrest (p : ℕ) : p ∈ u++v ↔ p ≤ s₁.len ∧ p ≠ pos := by
    have hp := hmem p
    simp only [List.mem_append,List.mem_cons] at hp hfree ⊢
    by_cases he : p = pos
    · subst he
      exact ⟨fun hm => absurd hm hfree,fun hm => absurd rfl hm.2⟩
    · have hlt : p < s.len ↔ p ≤ s₁.len := by omega
      tauto
  obtain ⟨s₂,ages₂,chains₂,hmove,h₂,hc₂,hshape₂,hlen₂,hitems₂⟩ :=
    fillGap_spec h₁ (by omega) hfree hrest (by omega)
  have hout : s₂.len ∉ ages₂ := fun hm => Nat.lt_irrefl _ (hc₂ _ hm)
  obtain ⟨s₃,hclear,h₃,hshape₃,hlen₃,hitems₃⟩ :=
    clearKeyAndValue_spec h₂ (by rw [hshape₂.size]; omega) hout
  refine ⟨s₃,ages₂,chains₂,?_,h₃,fun p hp => hlen₃ ▸ hc₂ p hp,(hshape.trans hshape₂).trans hshape₃,
    hitems₃.trans (hitems₂.trans (by rw [hitem]))⟩
  simp [removeAt,hevict,hmove,hclear]

/-- The cache stores the entries `l`, from the oldest to the newest. -/
def Represents (hash : K → UInt32) (s : LRU K V) (l : List (Recency.Entry K V)) : Prop :=
  ∃ ages chains, Holds hash s ages chains ∧ Compact s ages ∧ ages.map (fun p => entry (s.item p)) = l

theorem Holds.split_keys (h : Holds hash s (u++pos::v) chains) :
    ((u.map (fun p => entry (s.item p))++entry (s.item pos)::v.map fun p => entry (s.item p)).map
      Recency.Entry.key).Nodup := by
  rw [← List.map_cons (f := fun p => entry (s.item p)),← List.map_append,List.map_map]
  exact h.keys

theorem map_items {ages' : List ℕ} (h : ages'.map s'.item = ages.map s.item) :
    ages'.map (fun p => entry (s'.item p)) = ages.map fun p => entry (s.item p) := by
  have hmap := congrArg (List.map entry) h
  rwa [List.map_map,List.map_map] at hmap

theorem live_iff (i : Item K V) (now : ℤ) :
    (entry i).Live now ↔ ¬(i.expire ≠ 0 ∧ i.expire ≤ now) := by
  rw [entry,Recency.Entry.Live]
  by_cases h : i.expire = 0
  · simp [h]
  · simp [h]

theorem hashToPos_run (h : Holds hash s ages chains) (key : K) :
    hashToPos (hash key).toNat s = some ((hashToBucketPos s (hash key).toNat,
      s.buckets (hashToBucketPos s (hash key).toNat)),s) := by
  simp only [hashToPos,bind_run,look_run,Option.bind_some,pure_run,
    bucket_run (hashToBucketPos_lt h.shape (hash key))]

theorem Compact.permuted {ages' : List ℕ} (hc : Compact s ages) (h : Holds hash s ages chains)
    (h' : Holds hash s' ages' chains) (hperm : ages'.Perm ages) : Compact s' ages' := by
  intro p hp
  rw [h'.len_eq,hperm.length_eq,← h.len_eq]
  exact hc p (hperm.mem_iff.mp hp)

theorem perm_touched : (u++v++[pos]).Perm (u++pos::v) := by
  rw [List.append_assoc]
  exact (List.perm_append_singleton pos v).append_left u

section Insert

variable {L : Links ℕ} {b : ℕ} {key : K} {value : V} {now lifetime : ℤ} {chains' : ℕ → List ℕ}

/-- The ring of all elements after an element has been put in as the newest. -/
theorem insert_order (h : Holds hash s ages chains) (hfree : pos ∉ ages) (hpos : pos < s.size)
    (b : ℕ) (L : Links ℕ) (now : ℤ) (key : K) (value : V) (lifetime : ℤ) : ∃ T, InOrder T pos (ages++[pos]) ∧ insert now pos key value lifetime (s.filed b pos L) =
      some ((),((((s.filed b pos L).withItem
        (Function.update s.item pos ⟨key,value,expire now lifetime⟩)).withTime T).withHead
        pos).withLen (s.len+1)) := by
  by_cases hempty : ages = []
  · have hlen : s.len = 0 := by rw [h.len_eq,hempty,List.length_nil]
    refine ⟨s.time.loop pos,?_,insert_first (s := s.filed b pos L) hpos hlen⟩
    rw [hempty]
    exact InOrder.first s.time pos
  · have hhead := h.head_mem hempty
    have hlen : s.len ≠ 0 := by
      rw [h.len_eq]
      exact mt List.length_eq_zero_iff.mp hempty
    exact ⟨_,h.order.push hempty hfree,insert_run (s := s.filed b pos L) hpos hlen
      (ne_of_mem_of_not_mem hhead hfree).symm (h.lt_size _ hhead) (h.next_lt hhead)⟩

theorem insert_spec (h : Holds hash s ages chains) (hfree : pos ∉ ages) (hpos : pos < s.size)
    (hlen : s.len < s.cap) (hkey : ∀ p ∈ ages, (s.item p).key ≠ key)
    (hb : b = hashToBucketPos s (hash key).toNat)
    (hbuckets : Bucketed L (Function.update s.buckets b pos) (Function.update s.place pos b) s.size
      (ages++[pos]) chains') :
    ∃ s', insert now pos key value lifetime (s.filed b pos L) = some ((),s') ∧
      Holds hash s' (ages++[pos]) chains' ∧ SameShape s s' ∧ s'.len = s.len+1 ∧
      (ages++[pos]).map s'.item = ages.map s.item++[⟨key,value,expire now lifetime⟩] := by
  obtain ⟨T,horder,hrun⟩ := insert_order h hfree hpos b L now key value lifetime
  have hkeep : ∀ p ∈ ages, Function.update s.item pos ⟨key,value,expire now lifetime⟩ p =
      s.item p := fun p hp => Function.update_of_ne (ne_of_mem_of_not_mem hp hfree) ..
  have hitems : (ages++[pos]).map (Function.update s.item pos ⟨key,value,expire now lifetime⟩) =
      ages.map s.item++[⟨key,value,expire now lifetime⟩] := by
    rw [List.map_append,List.map_congr_left hkeep]
    simp
  refine ⟨_,hrun,⟨?_,?_,hlen,?_,horder,hbuckets,?_,?_⟩,⟨rfl,rfl,rfl⟩,rfl,hitems⟩
  · exact ⟨h.shape.cap_pos,h.shape.cap_le,h.shape.size_lt,h.shape.mask_lt⟩
  · change s.len+1 = _
    rw [h.len_eq]
    simp
  · intro p hp
    rcases List.mem_append.mp hp with hp | hp
    · exact h.lt_size p hp
    · rw [List.mem_singleton.mp hp]
      exact hpos
  · intro p hp
    change Function.update s.place pos b p = hashToBucketPos s
      (hash (Function.update s.item pos ⟨key,value,expire now lifetime⟩ p).key).toNat
    rcases List.mem_append.mp hp with hp | hp
    · rw [hkeep p hp,Function.update_of_ne (ne_of_mem_of_not_mem hp hfree)]
      exact h.hashed p hp
    · rw [List.mem_singleton.mp hp,Function.update_self,Function.update_self]
      exact hb
  · have hkeys := congrArg (List.map Item.key) hitems
    rw [List.map_map,List.map_append (f := Item.key),List.map_map] at hkeys
    refine (congrArg List.Nodup hkeys).mpr (List.nodup_append.mpr ⟨h.keys,by simp,?_⟩)
    intro k hk k' hk'
    obtain ⟨p,hp,rfl⟩ := List.mem_map.mp hk
    rw [List.map_singleton,List.mem_singleton] at hk'
    exact hk' ▸ hkey p hp

/-- What is left of the elements when one more has to find room. -/
def kept (s : LRU K V) (ages : List ℕ) : List ℕ := if s.len = s.cap then ages.tail else ages

/-- A free position, and the state once there is room for one more element. -/
structure Room (hash : K → UInt32) (s : LRU K V) (ages : List ℕ) (pos : ℕ) (s' : LRU K V)
    (chains' : ℕ → List ℕ) : Prop where
  holds : Holds hash s' (kept s ages) chains'
  free : pos ∉ kept s ages
  pos_lt : pos < s'.size
  len_lt : s'.len < s'.cap
  compact : ∀ p ∈ kept s ages++[pos], p < s'.len+1
  shape : SameShape s s'
  item : s'.item = s.item

/-- A bucket that becomes empty has lost its last element, which is the free position now. -/
theorem freePos_spec (h : Holds hash s ages chains) (hc : Compact s ages) :
    ∃ pos s' chains', freePos s = some ((pos,decide (s.len = s.cap)),s') ∧
      Room hash s ages pos s' chains' ∧ (∀ b < s.size, chains b = [] → chains' b = []) ∧
      (∀ b < s.size, chains b ≠ [] → chains' b = [] → s'.chain.prev pos = pos) ∧
      (s.len ≠ s.cap → chains' = chains) := by
  have hmem := hc.mem_iff h
  by_cases hfull : s.len = s.cap
  · have hne : ages ≠ [] := fun he => by
      have hpos := h.shape.cap_pos
      rw [← hfull,h.len_eq,he] at hpos
      exact Nat.lt_irrefl _ hpos
    obtain ⟨old,rest,rfl⟩ := List.exists_cons_of_ne_nil hne
    have hhead := h.head_mem hne
    have hold : s.time.next s.head = old := (h.order.ring.adjacent_last (h.order.head_mem hne)).1
    obtain ⟨s',chains',hrun,h',hitem,hshape,hself,hothers⟩ := evict_spec (u := []) h
    have hlen : s'.len+1 = s.len := by
      rw [h'.len_eq,h.len_eq]
      rfl
    have hplace : s.place old < s.size := h.place_lt List.mem_cons_self
    have hin : old ∈ chains (s.place old) :=
      (h.buckets.mem_iff _ hplace old).mpr ⟨List.mem_cons_self,rfl⟩
    have hkept : kept s (old::rest) = rest := if_pos hfull
    refine ⟨old,s',chains',?_,⟨hkept.symm ▸ h',?_,?_,?_,?_,hshape,hitem⟩,?_,?_,
      fun hn => absurd hfull hn⟩
    · simp [freePos,hfull,element_run (h.lt_size _ hhead),hold,hrun]
    · rw [hkept]
      exact (List.nodup_cons.mp h.nodup).1
    · exact hshape.size ▸ h.lt_size old List.mem_cons_self
    · rw [hshape.cap]
      omega
    · intro p hp
      rw [hlen]
      apply hc
      rw [hkept] at hp
      simp only [List.mem_append,List.mem_cons,List.not_mem_nil,or_false] at hp ⊢
      tauto
    · intro b _ hempty
      have hb : b ≠ s.place old := fun he => by
        rw [← he,hempty] at hin
        cases hin
      rw [hothers b hb,hempty]
    · intro b _ hne' hempty
      have hb : b = s.place old := by
        by_contra hb
        rw [hothers b hb] at hempty
        exact hne' hempty
      exact hself (hb ▸ hempty)
  · have hkept : kept s ages = ages := if_neg hfull
    have hlt : s.len < s.cap := Nat.lt_of_le_of_ne h.len_le hfull
    refine ⟨s.len,s,chains,by simp [freePos,hfull],⟨hkept.symm ▸ h,?_,?_,hlt,?_,⟨rfl,rfl,rfl⟩,rfl⟩,
      fun _ _ he => he,fun _ _ hn he => absurd he hn,fun _ => rfl⟩
    · rw [hkept,hmem]
      exact Nat.lt_irrefl _
    · exact hlt.trans_le h.shape.cap_le
    · intro p hp
      rw [hkept] at hp
      rcases List.mem_append.mp hp with hp | hp
      · exact (hc p hp).trans (Nat.lt_succ_self _)
      · rw [List.mem_singleton.mp hp]
        exact Nat.lt_succ_self _

theorem insert_self (L : Links ℕ) (p : ℕ) : L.insert p p p = L.loop p := by
  simp [Links.insert,Links.loop]

/-- The free position is filed in a bucket that may have lost its last element. -/
theorem fileBefore_spec (h : Room hash s ages pos s' chains') (hb : b < s'.size) {start : ℕ}
    (hstart : (chains' b).headD pos = start)
    (hself : chains' b = [] → s'.chain.prev pos = pos) : ∃ L,
      fileBefore b pos start s' = some ((),s'.filed b pos L) ∧
      Bucketed L (Function.update s'.buckets b pos) (Function.update s'.place pos b) s'.size
        (kept s ages++[pos]) (Function.update chains' b (pos::chains' b)) := by
  cases hchain : chains' b with
  | nil =>
    rw [hchain] at hstart
    obtain rfl : pos = start := hstart
    have hprev := hself hchain
    have hrun := fileBefore_run hb h.pos_lt h.pos_lt (hprev.symm ▸ h.pos_lt)
    rw [hprev,insert_self] at hrun
    exact ⟨_,hrun,h.holds.buckets.add_first hb h.free hchain⟩
  | cons a t =>
    rw [hchain] at hstart
    obtain rfl : a = start := hstart
    have hring := h.holds.buckets.ring b hb
    have hlt : ∀ p ∈ chains' b, p < s'.size := fun p hp =>
      h.holds.lt_size p ((h.holds.buckets.mem_iff b hb p).mp hp).1
    have ha : a ∈ chains' b := hchain ▸ List.mem_cons_self
    rw [← hchain]
    exact ⟨_,fileBefore_run hb h.pos_lt (hlt a ha) (hlt _ (hring.prev_mem ha)),
      h.holds.buckets.add hb h.free hchain⟩

theorem restart_run (h : Holds hash s ages chains) (hb : b < s.size) (pos : ℕ) :
    restart b pos s = some ((chains b).headD pos,s) := by
  have hstart := h.buckets.start b hb
  cases hchain : chains b with
  | nil =>
    rw [hchain] at hstart
    simp [restart,bucket_run hb,hstart]
  | cons a t =>
    have ha : a ∈ chains b := hchain ▸ List.mem_cons_self
    have hlt := h.lt_size a ((h.buckets.mem_iff b hb a).mp ha).1
    rw [hchain,List.headD_cons] at hstart
    have hne : a ≠ emptyBucket := Nat.ne_of_lt (hlt.trans h.shape.size_lt)
    simp [restart,bucket_run hb,hstart,hne]

/-- What remains to be done for a new key that has been filed in its bucket. -/
theorem Room.insert {c : ℕ → List ℕ} (h : Room hash s ages pos s' chains')
    (hkey : ∀ p ∈ ages, (s.item p).key ≠ key) (hb : b = hashToBucketPos s (hash key).toNat)
    (hbuckets : Bucketed L (Function.update s'.buckets b pos) (Function.update s'.place pos b)
      s'.size (kept s ages++[pos]) c) (now : ℤ) (value : V) (lifetime : ℤ) :
    ∃ s₁, FreeLRU.insert now pos key value lifetime (s'.filed b pos L) = some ((),s₁) ∧
      Represents hash s₁ ((kept s ages).map (fun p => entry (s.item p))++
        [entry ⟨key,value,expire now lifetime⟩]) ∧ SameShape s s₁ := by
  have hsub : ∀ p ∈ kept s ages, p ∈ ages := fun p hp => by
    rw [kept] at hp
    split at hp
    · exact List.mem_of_mem_tail hp
    · exact hp
  have hkeys : ∀ p ∈ kept s ages, (s'.item p).key ≠ key := fun p hp => by
    rw [h.item]
    exact hkey p (hsub p hp)
  obtain ⟨s₁,hrun,h₁,hshape,hlen,hitems⟩ := insert_spec h.holds h.free h.pos_lt h.len_lt hkeys
    (hb.trans (h.shape.hashToBucketPos _).symm) hbuckets
  refine ⟨s₁,hrun,⟨_,_,h₁,fun p hp => hlen ▸ h.compact p hp,?_⟩,h.shape.trans hshape⟩
  have hmap := congrArg (List.map entry) hitems
  rw [List.map_map,List.map_append (f := entry),List.map_map,h.item] at hmap
  exact hmap

end Insert

section Lookup

variable [DecidableEq K] {key : K}

/-- The loop from an element of a bucket onwards. -/
theorem walk_chain {start fuel : ℕ} {r : List ℕ} (hchain : (pos::(r++[start])).IsChain s.chain.Adjacent)
    (hlt : ∀ p ∈ pos::r, p < s.size) (hstart : start ∉ r) (hfuel : r.length < fuel) :
    walk key start fuel pos s = some ((pos::r).find? fun p => (s.item p).key = key,s) := by
  induction r generalizing pos fuel with
  | nil =>
    obtain ⟨fuel,rfl⟩ := Nat.exists_eq_succ_of_ne_zero (Nat.ne_of_gt hfuel)
    have hnext : s.chain.next pos = start := (List.isChain_pair.mp hchain).1
    by_cases hkey : (s.item pos).key = key
    · simp [walk,element_run (hlt pos List.mem_cons_self),hkey]
    · simp [walk,element_run (hlt pos List.mem_cons_self),hkey,hnext]
  | cons c r ih =>
    obtain ⟨fuel,rfl⟩ := Nat.exists_eq_succ_of_ne_zero (Nat.ne_of_gt (Nat.zero_lt_of_lt hfuel))
    obtain ⟨⟨hnext,-⟩,hrest⟩ := List.isChain_cons_cons.mp hchain
    have hne : c ≠ start := fun he => hstart (he ▸ List.mem_cons_self)
    by_cases hkey : (s.item pos).key = key
    · simp [walk,element_run (hlt pos List.mem_cons_self),hkey]
    · have hih := ih hrest (fun p hp => hlt p (List.mem_cons_of_mem pos hp))
        (fun hm => hstart (List.mem_cons_of_mem c hm)) (Nat.lt_of_succ_lt_succ hfuel)
      simp [walk,element_run (hlt pos List.mem_cons_self),hkey,hnext,hne,hih,
        List.find?_cons_of_neg (p := fun p => decide ((s.item p).key = key)) (a := pos)]

theorem walk_run {t : List ℕ} (hring : IsRing s.chain (pos::t)) (hlt : ∀ p ∈ pos::t, p < s.size) :
    walk key pos s.size pos s = some ((pos::t).find? fun p => (s.item p).key = key,s) := by
  have hlen : (pos::t).length ≤ s.size := by
    have hsub : (pos::t) ⊆ List.range s.size := fun p hp => List.mem_range.mpr (hlt p hp)
    simpa using (hring.nodup.subperm hsub).length_le
  exact walk_chain ((Cycle.chain_coe_cons _ _ _).mp hring.chain) hlt
    (List.nodup_cons.mp hring.nodup).1 hlen

/-- The element of a key lies in the bucket of the key. -/
theorem Holds.find_chain (h : Holds hash s ages chains) (key : K) :
    (chains (hashToBucketPos s (hash key).toNat)).find? (fun p => (s.item p).key = key) =
      ages.find? fun p => (s.item p).key = key := by
  have hb := hashToBucketPos_lt h.shape (hash key)
  have hmem (p : ℕ) (hkey : (s.item p).key = key) :
      p ∈ chains (hashToBucketPos s (hash key).toNat) ↔ p ∈ ages := by
    rw [h.buckets.mem_iff _ hb]
    refine ⟨And.left,fun hp => ⟨hp,?_⟩⟩
    rw [h.hashed p hp,hkey]
  cases hfind : ages.find? fun p => (s.item p).key = key with
  | none =>
    rw [List.find?_eq_none] at hfind ⊢
    intro p hp hkey
    exact hfind p ((hmem p (of_decide_eq_true hkey)).mp hp) hkey
  | some p =>
    have hp := List.mem_of_find?_eq_some hfind
    have hkey : (s.item p).key = key := by simpa using List.find?_some hfind
    cases hchain : (chains (hashToBucketPos s (hash key).toNat)).find?
        fun p => (s.item p).key = key with
    | none =>
      rw [List.find?_eq_none] at hchain
      exact absurd (decide_eq_true hkey) (hchain p ((hmem p hkey).mpr hp))
    | some q =>
      have hkey' : (s.item q).key = key := by simpa using List.find?_some hchain
      have hq := (hmem q hkey').mp (List.mem_of_find?_eq_some hchain)
      rw [List.inj_on_of_nodup_map h.keys hq hp (hkey'.trans hkey.symm)]

/-- An empty bucket, or a loop that finds the element of the key. -/
theorem Holds.lookup (h : Holds hash s ages chains) (key : K) :
    (s.buckets (hashToBucketPos s (hash key).toNat) = emptyBucket ∧
      chains (hashToBucketPos s (hash key).toNat) = [] ∧
      ages.find? (fun p => (s.item p).key = key) = none) ∨
    ∃ start t, s.buckets (hashToBucketPos s (hash key).toNat) = start ∧ start ≠ emptyBucket ∧
      chains (hashToBucketPos s (hash key).toNat) = start::t ∧
      walk key start s.size start s = some (ages.find? fun p => (s.item p).key = key,s) := by
  have hb := hashToBucketPos_lt h.shape (hash key)
  have hstart := h.buckets.start _ hb
  have hring := h.buckets.ring _ hb
  have hfind := h.find_chain key
  cases hchain : chains (hashToBucketPos s (hash key).toNat) with
  | nil =>
    rw [hchain] at hstart hfind
    exact .inl ⟨hstart,rfl,hfind.symm⟩
  | cons start t =>
    have hlt : ∀ p ∈ start::t, p < s.size := fun p hp =>
      h.lt_size p ((h.buckets.mem_iff _ hb p).mp (hchain ▸ hp)).1
    rw [hchain] at hstart hring hfind
    refine .inr ⟨start,t,hstart,?_,rfl,?_⟩
    · exact Nat.ne_of_lt ((hlt start List.mem_cons_self).trans h.shape.size_lt)
    · rw [walk_run hring hlt,hfind]

theorem find_map (s : LRU K V) (ages : List ℕ) (key : K) :
    Recency.find key (ages.map fun p => entry (s.item p)) =
      (ages.find? fun p => (s.item p).key = key).map fun p => entry (s.item p) := by
  rw [Recency.find,List.find?_map]
  rfl

theorem get_spec [Inhabited K] [Inhabited V] {l : List (Recency.Entry K V)}
    (h : Represents hash s l) (now : ℤ) (key : K) : ∃ s',
      get now (hash key).toNat key s = some ((Recency.get now key l).1,s') ∧
      Represents hash s' (Recency.get now key l).2 ∧ SameShape s s' := by
  obtain ⟨ages,chains,h,hc,rfl⟩ := h
  have hhash := hashToPos_run h key
  have habs := find_map s ages key
  rcases h.lookup key with ⟨hstart,-,hfind⟩ | ⟨start,t,hstart,hne,-,hwalk⟩
  · rw [hfind] at habs
    rw [Recency.get_of_find_none habs]
    exact ⟨s,by simp [get,findKey,hhash,hstart],⟨ages,chains,h,hc,rfl⟩,⟨rfl,rfl,rfl⟩⟩
  cases hfind : ages.find? fun p => (s.item p).key = key with
  | none =>
    rw [hfind] at habs hwalk
    rw [Recency.get_of_find_none habs]
    exact ⟨s,by simp [get,findKey,hhash,hstart,hne,hwalk],⟨ages,chains,h,hc,rfl⟩,⟨rfl,rfl,rfl⟩⟩
  | some pos =>
    have hkey : (s.item pos).key = key := by simpa using List.find?_some hfind
    have hpos := h.lt_size pos (List.mem_of_find?_eq_some hfind)
    obtain ⟨u,v,rfl⟩ := List.append_of_mem (List.mem_of_find?_eq_some hfind)
    rw [hfind] at hwalk
    have hget := Recency.get_split h.split_keys now
    rw [show (entry (s.item pos)).key = key from hkey,← List.map_cons (f := fun p => entry (s.item p)),← List.map_append] at hget
    rw [hget]
    have hlive_iff := live_iff (s.item pos) now
    by_cases hlive : (entry (s.item pos)).Live now
    · obtain ⟨s',hrun,h',hitem,hshape⟩ := touch_spec h
      have hpos' : pos < s'.size := hshape.size ▸ hpos
      rw [if_pos hlive]
      refine ⟨s',?_,⟨_,_,h',hc.permuted h h' perm_touched,?_⟩,hshape⟩
      · simp [get,findKey,hhash,hstart,hne,hwalk,element_run hpos,hlive_iff.mp hlive,hrun,
          element_run hpos',hitem,entry]
      · simp [hitem]
    · obtain ⟨s',ages',chains',hrun,h',hc',hshape,hitems⟩ := removeAt_spec h hc
      have hdead : (s.item pos).expire ≠ 0 ∧ (s.item pos).expire ≤ now := by
        by_contra hn
        exact hlive (hlive_iff.mpr hn)
      rw [if_neg hlive]
      refine ⟨s',?_,⟨ages',chains',h',hc',?_⟩,hshape⟩
      · simp [get,findKey,hhash,hstart,hne,hwalk,element_run hpos,hdead,hrun]
      · rw [map_items hitems,List.map_append]

theorem add_kept (h : Holds hash s ages chains) {e : Recency.Entry K V}
    (hfind : ages.find? (fun p => (s.item p).key = e.key) = none) :
    Recency.add s.cap e (ages.map fun p => entry (s.item p)) =
      (decide (s.len = s.cap),(kept s ages).map (fun p => entry (s.item p))++[e]) := by
  have habs := find_map s ages e.key
  rw [hfind] at habs
  rw [Recency.add_of_find_none habs,List.length_map,← h.len_eq,kept]
  by_cases hfull : s.len = s.cap
  · simp [hfull,List.map_tail]
  · simp [hfull]

theorem add_spec {l : List (Recency.Entry K V)} (h : Represents hash s l) (now : ℤ) (key : K)
    (value : V) (lifetime : ℤ) : ∃ s',
      addWithLifetime now (hash key).toNat key value lifetime s =
        some ((Recency.add s.cap (entry ⟨key,value,expire now lifetime⟩) l).1,s') ∧
      Represents hash s' (Recency.add s.cap (entry ⟨key,value,expire now lifetime⟩) l).2 ∧
      SameShape s s' := by
  obtain ⟨ages,chains,h,hc,rfl⟩ := h
  have hhash := hashToPos_run h key
  have hb := hashToBucketPos_lt h.shape (hash key)
  have hnew (hfind : ages.find? (fun p => (s.item p).key = key) = none) :
      ∀ p ∈ ages, (s.item p).key ≠ key := fun p hp => by
    simpa using List.find?_eq_none.mp hfind p hp
  rcases h.lookup key with ⟨hstart,hempty,hfind⟩ | ⟨start,t,hstart,hne,hchain,hwalk⟩
  · rw [add_kept h hfind]
    obtain ⟨pos,s₁,chains₁,hfree,hroom,hstill,-,-⟩ := freePos_spec h hc
    have hb₁ : hashToBucketPos s (hash key).toNat < s₁.size := hroom.shape.size ▸ hb
    obtain ⟨s₂,hins,hrep,hshape⟩ := hroom.insert (hnew hfind) rfl
      (hroom.holds.buckets.add_first hb₁ hroom.free (hstill _ hb hempty)) now value lifetime
    refine ⟨s₂,?_,hrep,hshape⟩
    simp [addWithLifetime,hhash,hstart,hfree,fileFirst_run hb₁ hroom.pos_lt,hins]
  cases hfind : ages.find? fun p => (s.item p).key = key with
  | none =>
    rw [add_kept h hfind]
    rw [hfind] at hwalk
    obtain ⟨pos,s₁,chains₁,hfree,hroom,-,hself,hsame⟩ := freePos_spec h hc
    have hb₁ : hashToBucketPos s (hash key).toNat < s₁.size := hroom.shape.size ▸ hb
    have hne' : chains (hashToBucketPos s (hash key).toNat) ≠ [] := by
      rw [hchain]
      exact List.cons_ne_nil start t
    obtain ⟨L,hfile,hbuckets⟩ := fileBefore_spec hroom hb₁ rfl (hself _ hb hne')
    obtain ⟨s₂,hins,hrep,hshape⟩ := hroom.insert (hnew hfind) rfl hbuckets now value lifetime
    refine ⟨s₂,?_,hrep,hshape⟩
    by_cases hfull : s.len = s.cap
    · have hrestart := restart_run hroom.holds hb₁ pos
      generalize (chains₁ (hashToBucketPos s (hash key).toNat)).headD pos = start' at hfile hrestart
      simp [addWithLifetime,hhash,hstart,hne,hwalk,hfree,hfull,hrestart,hfile,hins]
    · rw [hsame hfull,hchain,List.headD_cons] at hfile
      simp [addWithLifetime,hhash,hstart,hne,hwalk,hfree,hfull,hfile,hins]
  | some pos =>
    have hkey : (s.item pos).key = key := by simpa using List.find?_some hfind
    have hpos := h.lt_size pos (List.mem_of_find?_eq_some hfind)
    obtain ⟨u,v,rfl⟩ := List.append_of_mem (List.mem_of_find?_eq_some hfind)
    rw [hfind] at hwalk
    have hadd := Recency.add_split h.split_keys (entry ⟨key,value,expire now lifetime⟩)
      hkey.symm s.cap
    rw [← List.map_cons (f := fun p => entry (s.item p)),← List.map_append] at hadd
    rw [hadd]
    have hfree : pos ∉ u++v := (List.nodup_cons.mp (List.nodup_middle.mp h.nodup)).1
    have hkeep : ∀ p ∈ u++v, Function.update s.item pos ⟨key,value,expire now lifetime⟩ p =
        s.item p := fun p hp => Function.update_of_ne (ne_of_mem_of_not_mem hp hfree) ..
    have hitem := h.withItem (g := Function.update s.item pos ⟨key,value,expire now lifetime⟩) ?_
    · obtain ⟨s',hrun,h',hsame,hshape⟩ := touch_spec hitem
      refine ⟨s',?_,⟨_,_,h',hc.permuted h h' perm_touched,?_⟩,⟨hshape.cap,hshape.size,hshape.mask⟩⟩
      · simp [addWithLifetime,hhash,hstart,hne,hwalk,setValue_run,setExpire_run,hpos,hkey,hrun]
      · have hmap (w : List ℕ) (hw : ∀ p ∈ w, p ∈ u++v) :
            w.map (fun p => entry (s'.item p)) = w.map fun p => entry (s.item p) := by
          refine List.map_congr_left fun p hp => ?_
          rw [hsame,LRU.item_withItem,hkeep p (hw p hp)]
        rw [List.map_append,List.map_append,hmap u fun p hp => List.mem_append_left v hp,
          hmap v fun p hp => List.mem_append_right u hp,hsame]
        simp
    · intro p hp
      by_cases he : p = pos
      · rw [he,Function.update_self,hkey]
      · rw [Function.update_of_ne he]

end Lookup

end FreeLRU
end Enimul
