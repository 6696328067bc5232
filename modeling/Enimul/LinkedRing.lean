import Mathlib.Data.List.Cycle

/-! Rings of elements that are linked in both directions.
The links of all elements are two functions. A ring is a list of distinct elements in which
each one is linked to the element after it and the last one to the first; where the list
starts does not matter. -/
namespace Enimul
namespace LinkedRing

variable {ι : Type*}

structure Links (ι : Type*) where
  next : ι → ι
  prev : ι → ι

/-- `b` comes right after `a`. -/
def Links.Adjacent (L : Links ι) (a b : ι) : Prop := L.next a = b ∧ L.prev b = a

structure IsRing (L : Links ι) (l : List ι) : Prop where
  nodup : l.Nodup
  chain : (l : Cycle ι).Chain L.Adjacent

variable {L L' : Links ι} {l l' t : List ι} {a b p : ι}

theorem isRing_nil (L : Links ι) : IsRing L [] := ⟨List.nodup_nil,trivial⟩

theorem isRing_singleton (hnext : L.next a = a) (hprev : L.prev a = a) : IsRing L [a] :=
  ⟨List.nodup_singleton a,(Cycle.chain_singleton _ _).mpr ⟨hnext,hprev⟩⟩

theorem IsRing.rotate (h : IsRing L l) (hr : l.IsRotated l') : IsRing L l' := by
  refine ⟨hr.nodup_iff.mp h.nodup,?_⟩
  have he : (l : Cycle ι) = l' := Cycle.coe_eq_coe.mpr hr
  exact he ▸ h.chain

/-- A ring can be listed from any of its elements. -/
theorem IsRing.from_mem (h : IsRing L l) (hp : p ∈ l) :
    ∃ t, l.IsRotated (p::t) ∧ IsRing L (p::t) := by
  obtain ⟨u,v,rfl⟩ := List.append_of_mem hp
  have hr : (u++p::v).IsRotated (p::(v++u)) := List.isRotated_append
  exact ⟨v++u,hr,h.rotate hr⟩

theorem IsRing.isChain (h : IsRing L (a::t)) : (a::t).IsChain L.Adjacent := by
  have hc := (Cycle.chain_coe_cons _ _ _).mp h.chain
  exact hc.prefix ⟨[a],by simp⟩

/-- The last element of a list is linked to the first. -/
theorem IsRing.adjacent_last (h : IsRing L (a::t)) (hlast : (a::t).getLast? = some b) :
    L.Adjacent b a := by
  have hc := (Cycle.chain_coe_cons _ _ _).mp h.chain
  rw [← List.cons_append] at hc
  exact (List.isChain_append.mp hc).2.2 b hlast a rfl

/-- The parts of a ring: a chain, and the link that closes it. -/
theorem isRing_cons_iff : IsRing L (a::t) ↔ (a::t).Nodup ∧ (a::t).IsChain L.Adjacent ∧
    ∀ b ∈ (a::t).getLast?, L.Adjacent b a := by
  constructor
  · exact fun h => ⟨h.nodup,h.isChain,fun b hb => h.adjacent_last hb⟩
  · rintro ⟨hnodup,hchain,hlast⟩
    refine ⟨hnodup,(Cycle.chain_coe_cons _ _ _).mpr ?_⟩
    rw [← List.cons_append]
    exact hchain.append (List.isChain_singleton a) fun b hb c hc => by
      obtain rfl : a = c := by simpa using hc
      exact hlast b hb

theorem IsRing.next_eq_head (h : IsRing L (p::t)) : L.next p = (t.head?).getD p := by
  have hc := (Cycle.chain_coe_cons _ _ _).mp h.chain
  cases t with
  | nil => exact (List.isChain_pair.mp hc).1
  | cons b t => exact (List.isChain_cons_cons.mp hc).1.1

theorem IsRing.prev_eq_last (h : IsRing L (p::t)) : L.prev p = (t.getLast?).getD p := by
  cases hl : (p::t).getLast? with
  | none => simp at hl
  | some b =>
    rw [(h.adjacent_last hl).2]
    rw [List.getLast?_cons] at hl
    exact (Option.some.inj hl).symm

theorem IsRing.next_mem (h : IsRing L l) (hp : p ∈ l) : L.next p ∈ l := by
  obtain ⟨t,hr,hring⟩ := h.from_mem hp
  rw [hr.mem_iff,hring.next_eq_head]
  cases t <;> simp

theorem IsRing.prev_mem (h : IsRing L l) (hp : p ∈ l) : L.prev p ∈ l := by
  obtain ⟨t,hr,hring⟩ := h.from_mem hp
  rw [hr.mem_iff,hring.prev_eq_last]
  cases hl : t.getLast? with
  | none => simp
  | some b => exact List.mem_cons_of_mem p (List.mem_of_getLast? hl)

theorem IsRing.prev_next (h : IsRing L l) (hp : p ∈ l) : L.prev (L.next p) = p := by
  obtain ⟨t,-,hring⟩ := h.from_mem hp
  have hc := (Cycle.chain_coe_cons _ _ _).mp hring.chain
  cases t with
  | nil =>
    obtain ⟨hnext,hprev⟩ := List.isChain_pair.mp hc
    rw [hnext,hprev]
  | cons b t =>
    obtain ⟨hnext,hprev⟩ := (List.isChain_cons_cons.mp hc).1
    rw [hnext,hprev]

theorem IsRing.next_prev (h : IsRing L l) (hp : p ∈ l) : L.next (L.prev p) = p := by
  obtain ⟨t,-,hring⟩ := h.from_mem hp
  cases hl : (p::t).getLast? with
  | none => simp at hl
  | some b =>
    obtain ⟨hnext,hprev⟩ := hring.adjacent_last hl
    rw [hprev,hnext]

/-- Only the links of its elements matter to a ring. -/
theorem IsRing.congr (h : IsRing L l) (hnext : ∀ i ∈ l, L'.next i = L.next i)
    (hprev : ∀ i ∈ l, L'.prev i = L.prev i) : IsRing L' l := by
  cases l with
  | nil => exact isRing_nil L'
  | cons a t =>
    rw [isRing_cons_iff] at h ⊢
    obtain ⟨hnodup,hchain,hlast⟩ := h
    refine ⟨hnodup,hchain.imp_of_mem_imp ?_,?_⟩
    · rintro x y hx hy ⟨hxy,hyx⟩
      exact ⟨(hnext x hx).trans hxy,(hprev y hy).trans hyx⟩
    · intro b hb
      obtain ⟨hba,hab⟩ := hlast b hb
      exact ⟨(hnext b (List.mem_of_getLast? hb)).trans hba,
        (hprev a List.mem_cons_self).trans hab⟩

variable [DecidableEq ι]

namespace Links

/-- Take `p` out. -/
def unlink (L : Links ι) (p : ι) : Links ι where
  next := Function.update L.next (L.prev p) (L.next p)
  prev := Function.update L.prev (L.next p) (L.prev p)

/-- Put `p` between `a` and `b`. -/
def insert (L : Links ι) (p a b : ι) : Links ι where
  next := Function.update (Function.update L.next p b) a p
  prev := Function.update (Function.update L.prev p a) b p

/-- Make `p` a ring of its own. -/
def loop (L : Links ι) (p : ι) : Links ι where
  next := Function.update L.next p p
  prev := Function.update L.prev p p

/-- Put `q` in the place of `p`. The links of `p` are copied after its neighbours have been
linked to `q`. -/
def replace (L : Links ι) (p q : ι) : Links ι where
  next := Function.update (Function.update L.next (L.prev p) q) q
    (Function.update L.next (L.prev p) q p)
  prev := Function.update (Function.update L.prev (L.next p) q) q
    (Function.update L.prev (L.next p) q p)

end Links

theorem isRing_loop (L : Links ι) (p : ι) : IsRing (L.loop p) [p] :=
  isRing_singleton (Function.update_self ..) (Function.update_self ..)

theorem IsRing.unlink (h : IsRing L (p::t)) : IsRing (L.unlink p) t := by
  cases t with
  | nil => exact isRing_nil _
  | cons b t =>
    have hnodup := List.nodup_cons.mp h.nodup
    have hnext : L.next p = b := h.next_eq_head
    have hprev := h.prev_eq_last
    have hchain := (List.isChain_cons_cons.mp h.isChain).2
    rw [isRing_cons_iff]
    refine ⟨hnodup.2,hchain.imp_of_mem_imp ?_,?_⟩
    · -- neither of two neighbours in the rest is next to p
      rintro x y hx hy ⟨hxy,hyx⟩
      have hxne : x ≠ L.prev p := by
        rintro rfl
        rw [h.next_prev List.mem_cons_self] at hxy
        exact hnodup.1 (hxy ▸ hy)
      have hyne : y ≠ L.next p := by
        rintro rfl
        rw [h.prev_next List.mem_cons_self] at hyx
        exact hnodup.1 (hyx ▸ hx)
      exact ⟨(Function.update_of_ne hxne ..).trans hxy,(Function.update_of_ne hyne ..).trans hyx⟩
    · intro c hc
      rw [Option.mem_def.mp hc,Option.getD_some] at hprev
      subst hprev hnext
      exact ⟨Function.update_self ..,Function.update_self ..⟩

theorem IsRing.insert (h : IsRing L (b::t)) (hp : p ∉ b::t) :
    IsRing (L.insert p (L.prev b) b) (p::b::t) := by
  have hnodup := List.nodup_cons.mp h.nodup
  have hne : ∀ x ∈ b::t, x ≠ p := fun x hx hxp => hp (hxp ▸ hx)
  have hlast := h.prev_mem List.mem_cons_self
  have hpb : (L.insert p (L.prev b) b).Adjacent p b :=
    ⟨(Function.update_of_ne (hne _ hlast).symm ..).trans (Function.update_self ..),
      Function.update_self ..⟩
  rw [isRing_cons_iff]
  refine ⟨List.nodup_cons.mpr ⟨hp,h.nodup⟩,List.isChain_cons_cons.mpr ⟨hpb,?_⟩,?_⟩
  · refine h.isChain.imp_of_mem_tail_imp ?_
    rintro x y hx hy ⟨hxy,hyx⟩
    have hyt : y ∈ t := hy
    have hyb : y ≠ b := fun he => hnodup.1 (he ▸ hyt)
    have hxa : x ≠ L.prev b := by
      rintro rfl
      rw [h.next_prev List.mem_cons_self] at hxy
      exact hyb hxy.symm
    have hyp : y ≠ p := hne y (List.mem_cons_of_mem b hyt)
    constructor
    · exact (Function.update_of_ne hxa ..).trans ((Function.update_of_ne (hne x hx) ..).trans hxy)
    · exact (Function.update_of_ne hyb ..).trans ((Function.update_of_ne hyp ..).trans hyx)
  · intro c hc
    rw [List.getLast?_cons_cons] at hc
    obtain rfl : L.prev b = c := (h.adjacent_last hc).2
    exact ⟨Function.update_self ..,
      (Function.update_of_ne (hne b List.mem_cons_self).symm ..).trans (Function.update_self ..)⟩

theorem IsRing.replace {q : ι} (h : IsRing L (p::t)) (hq : q ∉ p::t) :
    IsRing (L.replace p q) (q::t) := by
  have hne : ∀ x ∈ p::t, x ≠ q := fun x hx hxq => hq (hxq ▸ hx)
  have hnodup := List.nodup_cons.mp h.nodup
  cases t with
  | nil =>
    have hnext : L.next p = p := h.next_eq_head
    have hprev : L.prev p = p := h.prev_eq_last
    apply isRing_singleton <;> simp [Links.replace,hnext,hprev]
  | cons b t =>
    have hnext : L.next p = b := h.next_eq_head
    have hprev := h.prev_eq_last
    have hchain := (List.isChain_cons_cons.mp h.isChain).2
    have hlast : L.prev p ∈ b::t := by
      rw [hprev]
      cases hl : (b::t).getLast? with
      | none => simp at hl
      | some c => exact List.mem_of_getLast? hl
    have hbt : ∀ x ∈ b::t, x ≠ q := fun x hx => hne x (List.mem_cons_of_mem p hx)
    have hpb : p ≠ b := fun he => hnodup.1 (he ▸ List.mem_cons_self)
    have hpa : p ≠ L.prev p := fun he => hnodup.1 (he ▸ hlast)
    rw [isRing_cons_iff]
    refine ⟨List.nodup_cons.mpr ⟨fun hm => hq (List.mem_cons_of_mem p hm),hnodup.2⟩,
      List.isChain_cons_cons.mpr ⟨⟨?_,?_⟩,?_⟩,?_⟩
    · simp [Links.replace,Function.update_of_ne hpa,hnext]
    · simp [Links.replace,hnext,Function.update_of_ne (hbt b List.mem_cons_self)]
    · refine hchain.imp_of_mem_imp ?_
      rintro x y hx hy ⟨hxy,hyx⟩
      have hxne : x ≠ L.prev p := by
        rintro rfl
        rw [h.next_prev List.mem_cons_self] at hxy
        exact hnodup.1 (hxy ▸ hy)
      have hyne : y ≠ L.next p := by
        rintro rfl
        rw [h.prev_next List.mem_cons_self] at hyx
        exact hnodup.1 (hyx ▸ hx)
      simp [Links.replace,Links.Adjacent,Function.update_of_ne (hbt x hx),
        Function.update_of_ne (hbt y hy),Function.update_of_ne hxne,Function.update_of_ne hyne,hxy,hyx]
    · intro c hc
      rw [List.getLast?_cons_cons] at hc
      rw [Option.mem_def.mp hc,Option.getD_some] at hprev
      subst hprev
      constructor
      · simp [Links.replace,Function.update_of_ne (hbt _ hlast)]
      · have hpn : p ≠ L.next p := hnext ▸ hpb
        simp [Links.replace,Function.update_of_ne hpn]

/-- Take an element out of the middle of a list. -/
theorem IsRing.remove {u v : List ι} (h : IsRing L (u++p::v)) : IsRing (L.unlink p) (u++v) :=
  (h.rotate (List.isRotated_append : (u++p::v).IsRotated (p::(v++u)))).unlink.rotate
    List.isRotated_append

/-- Put an element after the last one. -/
theorem IsRing.push (h : IsRing L l) (hlast : l.getLast? = some a) (hp : p ∉ l) :
    IsRing (L.insert p a (L.next a)) (l++[p]) := by
  cases l with
  | nil => simp at hlast
  | cons b t =>
    obtain ⟨hnext,hprev⟩ := h.adjacent_last hlast
    rw [hnext]
    exact (hprev ▸ h.insert hp).rotate (List.isRotated_append : ([p]++b::t).IsRotated _)

theorem IsRing.replace_mid {q : ι} {u v : List ι} (h : IsRing L (u++p::v)) (hq : q ∉ u++p::v) :
    IsRing (L.replace p q) (u++q::v) := by
  have hr : (u++p::v).IsRotated (p::(v++u)) := List.isRotated_append
  have hring := (h.rotate hr).replace fun hm => hq (hr.mem_iff.mpr hm)
  exact hring.rotate (List.isRotated_append : ((q::v)++u).IsRotated _)

section Frame

variable {u : List ι}

/-- What is not in the ring keeps its place when an element of the ring is taken out. -/
theorem IsRing.unlink_of_disjoint (h : IsRing L l) (hp : p ∈ l) (hu : IsRing L u)
    (hd : l.Disjoint u) : IsRing (L.unlink p) u := by
  apply hu.congr
  · exact fun i hi => Function.update_of_ne (fun he => hd (he ▸ h.prev_mem hp) hi) ..
  · exact fun i hi => Function.update_of_ne (fun he => hd (he ▸ h.next_mem hp) hi) ..

theorem IsRing.insert_of_notMem (hu : IsRing L u) (hp : p ∉ u) (ha : a ∉ u) (hb : b ∉ u) :
    IsRing (L.insert p a b) u := by
  apply hu.congr <;> intro i hi
  · exact (Function.update_of_ne (ne_of_mem_of_not_mem hi ha) ..).trans
      (Function.update_of_ne (ne_of_mem_of_not_mem hi hp) ..)
  · exact (Function.update_of_ne (ne_of_mem_of_not_mem hi hb) ..).trans
      (Function.update_of_ne (ne_of_mem_of_not_mem hi hp) ..)

theorem IsRing.loop_of_notMem (hu : IsRing L u) (hp : p ∉ u) : IsRing (L.loop p) u := by
  apply hu.congr <;> intro i hi
  · exact Function.update_of_ne (ne_of_mem_of_not_mem hi hp) ..
  · exact Function.update_of_ne (ne_of_mem_of_not_mem hi hp) ..

theorem IsRing.replace_of_disjoint {q : ι} (h : IsRing L l) (hp : p ∈ l) (hu : IsRing L u)
    (hd : l.Disjoint u) (hq : q ∉ u) : IsRing (L.replace p q) u := by
  apply hu.congr <;> intro i hi
  · exact (Function.update_of_ne (ne_of_mem_of_not_mem hi hq) ..).trans
      (Function.update_of_ne (fun he => hd (he ▸ h.prev_mem hp) hi) ..)
  · exact (Function.update_of_ne (ne_of_mem_of_not_mem hi hq) ..).trans
      (Function.update_of_ne (fun he => hd (he ▸ h.next_mem hp) hi) ..)

end Frame

end LinkedRing
end Enimul
