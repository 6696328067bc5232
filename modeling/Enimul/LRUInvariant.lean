import Enimul.LRULayout

/-! The two rings of the cache, and what the functions of the cache make of them.
`ages` are the positions in use from the oldest to the newest, `chains` those of each bucket. -/
namespace Enimul
namespace FreeLRU

open LinkedRing

/-- The ring of all elements, and its newest one. -/
structure InOrder (L : Links ℕ) (head : ℕ) (ages : List ℕ) : Prop where
  ring : IsRing L ages
  newest : ∀ p ∈ ages.getLast?, head = p

/-- The rings of the buckets. `place` is the bucket of an element. -/
structure Bucketed (L : Links ℕ) (buckets place : ℕ → ℕ) (size : ℕ) (ages : List ℕ)
    (chains : ℕ → List ℕ) : Prop where
  ring : ∀ b < size, IsRing L (chains b)
  start : ∀ b < size, buckets b = (chains b).headD emptyBucket
  mem_iff : ∀ b < size, ∀ p, p ∈ chains b ↔ p ∈ ages ∧ place p = b

namespace InOrder

variable {L : Links ℕ} {head p q : ℕ} {ages u v : List ℕ}

theorem head_mem (h : InOrder L head ages) (hne : ages ≠ []) : ages.getLast? = some head := by
  obtain ⟨p,hp⟩ := Option.isSome_iff_exists.mp (List.getLast?_isSome.mpr hne)
  rw [hp,h.newest p hp]

theorem first (L : Links ℕ) (p : ℕ) : InOrder (L.loop p) p [p] :=
  ⟨isRing_loop L p,fun q hq => by simpa using hq⟩

theorem push (h : InOrder L head ages) (hne : ages ≠ []) (hp : p ∉ ages) :
    InOrder (L.insert p head (L.next head)) p (ages++[p]) :=
  ⟨h.ring.push (h.head_mem hne) hp,fun q hq => by simpa using hq⟩

/-- Whether an element of the ring is the newest one. -/
theorem newest_cases (h : InOrder L head (u++p::v)) :
    (v = [] ∧ p = head) ∨ (p ≠ head ∧ v.getLast? = some head) := by
  have hlast := h.head_mem (by simp)
  rw [List.getLast?_append_of_ne_nil _ (List.cons_ne_nil p v)] at hlast
  cases v with
  | nil => exact .inl ⟨rfl,by simpa using hlast⟩
  | cons c v =>
    rw [List.getLast?_cons_cons] at hlast
    refine .inr ⟨?_,hlast⟩
    rintro rfl
    have hnodup := (List.nodup_append.mp h.ring.nodup).2.1
    exact (List.nodup_cons.mp hnodup).1 (List.mem_of_getLast? hlast)

theorem remove (h : InOrder L head (u++p::v)) :
    InOrder (L.unlink p) (if p = head then L.prev p else head) (u++v) := by
  refine ⟨h.ring.remove,fun q hq => ?_⟩
  rcases h.newest_cases with ⟨rfl,hhead⟩ | ⟨hne,hlast⟩
  · have hring : IsRing L (p::u) := h.ring.rotate List.isRotated_append
    rw [List.append_nil] at hq
    rw [if_pos hhead,hring.prev_eq_last,Option.mem_def.mp hq,Option.getD_some]
  · rw [List.getLast?_append,hlast] at hq
    rw [if_neg hne]
    simpa using hq

theorem replace (h : InOrder L head (u++p::v)) (hq : q ∉ u++p::v) :
    InOrder (L.replace p q) (if p = head then q else head) (u++q::v) := by
  refine ⟨h.ring.replace_mid hq,fun r hr => ?_⟩
  rcases h.newest_cases with ⟨rfl,hhead⟩ | ⟨hne,hlast⟩
  · rw [if_pos hhead]
    simpa using hr
  · rw [List.getLast?_append,List.getLast?_cons,hlast] at hr
    rw [if_neg hne]
    simpa using hr

end InOrder

namespace Bucketed

variable {L L' : Links ℕ} {buckets place place' : ℕ → ℕ} {size b p q : ℕ} {ages ages' u v : List ℕ}
  {chains : ℕ → List ℕ} {c : List ℕ}

theorem disjoint (h : Bucketed L buckets place size ages chains) {b b' : ℕ} (hb : b < size)
    (hb' : b' < size) (hne : b ≠ b') : (chains b).Disjoint (chains b') := by
  intro p hp hp'
  exact hne (((h.mem_iff b hb p).mp hp).2.symm.trans ((h.mem_iff b' hb' p).mp hp').2)

/-- Give one bucket a new ring. -/
theorem update (h : Bucketed L buckets place size ages chains) (hring : IsRing L' c)
    (hrings : ∀ b' < size, b' ≠ b → IsRing L' (chains b'))
    (hmem : ∀ p, p ∈ c ↔ p ∈ ages' ∧ place' p = b)
    (hmems : ∀ b' ≠ b, ∀ p, (p ∈ ages' ∧ place' p = b') ↔ (p ∈ ages ∧ place p = b')) :
    Bucketed L' (Function.update buckets b (c.headD emptyBucket)) place' size ages'
      (Function.update chains b c) := by
  refine ⟨fun b' hb' => ?_,fun b' hb' => ?_,fun b' hb' p => ?_⟩ <;> by_cases hb : b' = b
  · rw [hb,Function.update_self]
    exact hring
  · rw [Function.update_of_ne hb]
    exact hrings b' hb' hb
  · rw [hb,Function.update_self,Function.update_self]
  · rw [Function.update_of_ne hb,Function.update_of_ne hb]
    exact h.start b' hb'
  · rw [hb,Function.update_self]
    exact hmem p
  · rw [Function.update_of_ne hb,hmems b' hb]
    exact h.mem_iff b' hb' p

/-- The bucket of an element, listed from that element. -/
theorem chain_of_mem (h : Bucketed L buckets place size ages chains) (hp : p ∈ ages)
    (hb : place p < size) : ∃ t, (chains (place p)).IsRotated (p::t) ∧ IsRing L (p::t) :=
  (h.ring _ hb).from_mem ((h.mem_iff _ hb p).mpr ⟨hp,rfl⟩)

theorem mem_rest {t : List ℕ} (h : Bucketed L buckets place size (u++p::v) chains)
    (hnodup : (u++p::v).Nodup) (hb : place p < size)
    (hr : (chains (place p)).IsRotated (p::t)) (q : ℕ) :
    q ∈ t ↔ q ∈ u++v ∧ place q = place p := by
  have hring := (h.ring _ hb).rotate hr
  have hpt := (List.nodup_cons.mp hring.nodup).1
  have hpuv := (List.nodup_middle.mp hnodup)
  have hpuv' := (List.nodup_cons.mp hpuv).1
  have hq := h.mem_iff _ hb q
  rw [hr.mem_iff,List.mem_cons] at hq
  have hcase : q ∈ u++p::v ↔ q = p ∨ q ∈ u++v := by
    simp only [List.mem_append,List.mem_cons]
    tauto
  rw [hcase] at hq
  by_cases hqp : q = p
  · subst hqp
    exact ⟨fun ht => absurd ht hpt,fun hm => absurd hm.1 hpuv'⟩
  · tauto

theorem others_remove (hne : b ≠ place p) (q : ℕ) :
    (q ∈ u++v ∧ place q = b) ↔ (q ∈ u++p::v ∧ place q = b) := by
  simp only [List.mem_append,List.mem_cons]
  constructor
  · rintro ⟨hq,rfl⟩
    tauto
  · rintro ⟨hq,rfl⟩
    have hqp : q ≠ p := fun he => hne (by rw [he])
    tauto

/-- The last element of a bucket is taken out. -/
theorem remove_single (h : Bucketed L buckets place size (u++p::v) chains)
    (hnodup : (u++p::v).Nodup) (hb : place p < size)
    (hr : (chains (place p)).IsRotated [p]) :
    Bucketed L (Function.update buckets (place p) emptyBucket) place size (u++v)
      (Function.update chains (place p) []) :=
  h.update (isRing_nil L) (fun b' hb' _ => h.ring b' hb') (h.mem_rest hnodup hb hr)
    fun _ hne => others_remove hne

theorem remove {t : List ℕ} (h : Bucketed L buckets place size (u++p::v) chains)
    (hnodup : (u++p::v).Nodup) (hb : place p < size)
    (hr : (chains (place p)).IsRotated (p::t)) :
    Bucketed (L.unlink p) (Function.update buckets (place p) (t.headD emptyBucket)) place size
      (u++v) (Function.update chains (place p) t) := by
  have hp : p ∈ chains (place p) := hr.mem_iff.mpr List.mem_cons_self
  refine h.update ((h.ring _ hb).rotate hr).unlink (fun b' hb' hne => ?_)
    (h.mem_rest hnodup hb hr) fun _ hne => others_remove hne
  exact (h.ring _ hb).unlink_of_disjoint hp (h.ring b' hb') (h.disjoint hb hb' hne.symm)

theorem mem_add (h : Bucketed L buckets place size ages chains) (hb : b < size) (p q : ℕ) :
    q ∈ p::chains b ↔ q ∈ ages++[p] ∧ Function.update place p b q = b := by
  rw [List.mem_cons,h.mem_iff b hb,List.mem_append,List.mem_singleton]
  by_cases hqp : q = p
  · simp [hqp]
  · rw [Function.update_of_ne hqp]
    tauto

theorem others_add (hp : p ∉ ages) {b' : ℕ} (hne : b' ≠ b) (q : ℕ) :
    (q ∈ ages++[p] ∧ Function.update place p b q = b') ↔ (q ∈ ages ∧ place q = b') := by
  rw [List.mem_append,List.mem_singleton]
  by_cases hqp : q = p
  · subst hqp
    rw [Function.update_self]
    exact ⟨fun hm => absurd hm.2.symm hne,fun hm => absurd hm.1 hp⟩
  · rw [Function.update_of_ne hqp]
    tauto

theorem notMem_chain (h : Bucketed L buckets place size ages chains) (hp : p ∉ ages) (hb : b < size) :
    p ∉ chains b := fun hm => hp ((h.mem_iff b hb p).mp hm).1

/-- The first element of a bucket is put in. -/
theorem add_first (h : Bucketed L buckets place size ages chains) (hb : b < size) (hp : p ∉ ages)
    (hempty : chains b = []) :
    Bucketed (L.loop p) (Function.update buckets b p) (Function.update place p b) size (ages++[p])
      (Function.update chains b [p]) := by
  have hmem := h.mem_add hb p
  rw [hempty] at hmem
  exact h.update (isRing_loop L p)
    (fun b' hb' _ => (h.ring b' hb').loop_of_notMem (h.notMem_chain hp hb')) hmem
    fun _ hne => others_add hp hne

/-- An element is put in front of the one at the start of its bucket. -/
theorem add {start : ℕ} {t : List ℕ} (h : Bucketed L buckets place size ages chains) (hb : b < size)
    (hp : p ∉ ages) (hstart : chains b = start::t) :
    Bucketed (L.insert p (L.prev start) start) (Function.update buckets b p)
      (Function.update place p b) size (ages++[p]) (Function.update chains b (p::chains b)) := by
  have hring := h.ring b hb
  have hmem : start ∈ chains b := hstart ▸ List.mem_cons_self
  have hout (b' : ℕ) (hb' : b' < size) (hne : b' ≠ b) (q : ℕ) (hq : q ∈ chains b) :
      q ∉ chains b' := h.disjoint hb hb' hne.symm hq
  have hnew : IsRing (L.insert p (L.prev start) start) (p::chains b) := by
    rw [hstart] at hring ⊢
    exact hring.insert (hstart ▸ h.notMem_chain hp hb)
  refine h.update hnew (fun b' hb' hne => ?_) (h.mem_add hb p) fun _ hne => others_add hp hne
  exact (h.ring b' hb').insert_of_notMem (h.notMem_chain hp hb')
    (hout b' hb' hne _ (hring.prev_mem hmem)) (hout b' hb' hne _ hmem)

/-- An element is moved to a free position. -/
theorem replace (h : Bucketed L buckets place size (u++p::v) chains) (hnodup : (u++p::v).Nodup)
    (hb : place p < size) (hq : q ∉ u++p::v) : ∃ c,
    Bucketed (L.replace p q)
      (if buckets (place p) = p then Function.update buckets (place p) q else buckets)
      (Function.update place q (place p)) size (u++q::v) (Function.update chains (place p) c) := by
  have hp : p ∈ chains (place p) := (h.mem_iff _ hb p).mpr ⟨by simp,rfl⟩
  obtain ⟨x,y,hxy⟩ := List.append_of_mem hp
  have hring := h.ring _ hb
  have hqc : q ∉ chains (place p) := h.notMem_chain hq hb
  have hrest := h.mem_rest (t := y++x) hnodup hb (hxy ▸ List.isRotated_append)
  have hqrest : q ∉ u++v := fun hm => hq (by
    simp only [List.mem_append,List.mem_cons] at hm ⊢
    tauto)
  have hmem (r : ℕ) : r ∈ x++q::y ↔
      r ∈ u++q::v ∧ Function.update place q (place p) r = place p := by
    have hr := hrest r
    simp only [List.mem_append,List.mem_cons] at hr ⊢
    by_cases hrq : r = q
    · simp [hrq]
    · rw [Function.update_of_ne hrq]
      tauto
  have hothers (b' : ℕ) (hne : b' ≠ place p) (r : ℕ) :
      (r ∈ u++q::v ∧ Function.update place q (place p) r = b') ↔ (r ∈ u++p::v ∧ place r = b') := by
    rw [← others_remove hne]
    by_cases hrq : r = q
    · subst hrq
      rw [Function.update_self]
      exact ⟨fun hm => absurd hm.2.symm hne,fun hm => absurd hm.1 hqrest⟩
    · rw [Function.update_of_ne hrq]
      simp only [List.mem_append,List.mem_cons]
      tauto
  have hstart : (if buckets (place p) = p then Function.update buckets (place p) q else buckets) =
      Function.update buckets (place p) ((x++q::y).headD emptyBucket) := by
    have hs := h.start _ hb
    rw [hxy] at hs hring
    cases x with
    | nil =>
      have hp₀ : buckets (place p) = p := hs
      rw [if_pos hp₀]
      rfl
    | cons a x =>
      have hne : a ≠ p := fun he => by
        have := hring.nodup
        simp [he] at this
      rw [List.cons_append,List.headD_cons] at hs
      rw [if_neg (hs.trans_ne hne),List.cons_append,List.headD_cons,← hs,Function.update_eq_self]
  refine ⟨x++q::y,?_⟩
  rw [hstart]
  refine h.update ?_ (fun b' hb' hne => ?_) hmem hothers
  · rw [hxy] at hring hqc
    exact hring.replace_mid hqc
  · exact hring.replace_of_disjoint hp (h.ring b' hb') (h.disjoint hb hb' hne.symm)
      (h.notMem_chain hq hb')

end Bucketed

end FreeLRU
end Enimul
