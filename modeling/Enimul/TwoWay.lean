import Mathlib.Data.List.AList

/-! Tables with two keys.
An entry is filed under its left key in one map and under its right key in another. As
long as the two maps hold the same entries the table is `Linked`. Taking entries out is
described by the entries that stay. -/
namespace Enimul
namespace TwoWay

structure Table (ε α β : Type) where
  byLeft : AList fun _ : α => ε
  byRight : AList fun _ : β => ε

def empty {ε α β : Type} : Table ε α β := ⟨∅,∅⟩

section Operations

variable {ε α β : Type} [DecidableEq α] [DecidableEq β] (left : ε → α) (right : ε → β)

/-- File an entry under both of its keys. -/
def put (e : ε) (t : Table ε α β) : Table ε α β :=
  ⟨t.byLeft.insert (left e) e,t.byRight.insert (right e) e⟩

/-- Under each key, take out what is filed there if its other key is that of `e`. -/
def discard (e : ε) (t : Table ε α β) : Table ε α β where
  byLeft := if (t.byLeft.lookup (left e)).any fun c => right c = right e
    then t.byLeft.erase (left e) else t.byLeft
  byRight := if (t.byRight.lookup (right e)).any fun c => left c = left e
    then t.byRight.erase (right e) else t.byRight

def discardAll (es : List ε) (t : Table ε α β) : Table ε α β :=
  es.foldl (fun u e => discard left right e u) t

/-- Take out the stale entries, one after the other. -/
def sweep (stale : ε → Bool) (t : Table ε α β) : Table ε α β :=
  discardAll left right ((t.byLeft.entries.map Sigma.snd).filter stale) t

end Operations

variable {ε α β : Type} [DecidableEq α] [DecidableEq β] {left : ε → α} {right : ε → β}
variable {t u v : Table ε α β} {e : ε}

/-- What is filed under one key is filed under the other. -/
structure Linked (left : ε → α) (right : ε → β) (t : Table ε α β) : Prop where
  filed_left : ∀ a c, t.byLeft.lookup a = some c → left c = a ∧ t.byRight.lookup (right c) = some c
  filed_right : ∀ b c, t.byRight.lookup b = some c → right c = b ∧ t.byLeft.lookup (left c) = some c

/-- `u` holds the entries of `t` that are kept. -/
structure Keeps (keep : ε → Bool) (t u : Table ε α β) : Prop where
  lookup_left : ∀ a, u.byLeft.lookup a = (t.byLeft.lookup a).filter keep
  lookup_right : ∀ b, u.byRight.lookup b = (t.byRight.lookup b).filter keep

theorem Keeps.refl : Keeps (fun _ => true) t t :=
  ⟨fun a => by cases t.byLeft.lookup a <;> rfl,fun b => by cases t.byRight.lookup b <;> rfl⟩

theorem Keeps.trans {keep keep' : ε → Bool} (h : Keeps keep t u) (h' : Keeps keep' u v) :
    Keeps (fun c => keep c && keep' c) t v := by
  constructor
  · intro a
    rw [h'.lookup_left,h.lookup_left,Option.filter_filter]
  · intro b
    rw [h'.lookup_right,h.lookup_right,Option.filter_filter]

theorem linked_empty : Linked left right (empty : Table ε α β) := by
  constructor
  · intro a c h
    simp [empty] at h
  · intro b c h
    simp [empty] at h

theorem Linked.keeps {keep : ε → Bool} (h : Linked left right t) (hk : Keeps keep t u) :
    Linked left right u := by
  constructor
  · intro a c hc
    rw [hk.lookup_left,Option.filter_eq_some_iff] at hc
    obtain ⟨hl,hr⟩ := h.filed_left a c hc.1
    exact ⟨hl,by rw [hk.lookup_right,hr,Option.filter_some,if_pos hc.2]⟩
  · intro b c hc
    rw [hk.lookup_right,Option.filter_eq_some_iff] at hc
    obtain ⟨hr,hl⟩ := h.filed_right b c hc.1
    exact ⟨hr,by rw [hk.lookup_left,hl,Option.filter_some,if_pos hc.2]⟩

theorem Keeps.congr {keep keep' : ε → Bool} (h : Linked left right t) (hk : Keeps keep t u)
    (he : ∀ c, t.byLeft.lookup (left c) = some c → keep c = keep' c) : Keeps keep' t u := by
  constructor
  · intro a
    rw [hk.lookup_left]
    cases hc : t.byLeft.lookup a with
    | none => rfl
    | some c =>
      have ha := (h.filed_left a c hc).1
      simp only [Option.filter_some,he c (ha ▸ hc)]
  · intro b
    rw [hk.lookup_right]
    cases hc : t.byRight.lookup b with
    | none => rfl
    | some c => simp only [Option.filter_some,he c (h.filed_right b c hc).2]

/-- An entry may be filed when its keys are free or belong to each other. -/
theorem Linked.put (h : Linked left right t)
    (hl : ∀ c, t.byLeft.lookup (left e) = some c → right c = right e)
    (hr : ∀ c, t.byRight.lookup (right e) = some c → left c = left e) :
    Linked left right (put left right e t) := by
  constructor
  · intro a c hc
    by_cases ha : a = left e
    · subst ha
      simp only [TwoWay.put,AList.lookup_insert,Option.some.injEq] at hc
      subst hc
      exact ⟨rfl,by simp [TwoWay.put]⟩
    · simp only [TwoWay.put,AList.lookup_insert_ne ha] at hc ⊢
      obtain ⟨rfl,hright⟩ := h.filed_left a c hc
      refine ⟨rfl,?_⟩
      rw [AList.lookup_insert_ne,hright]
      intro heq
      exact ha (hr c (heq ▸ hright))
  · intro b c hc
    by_cases hb : b = right e
    · subst hb
      simp only [TwoWay.put,AList.lookup_insert,Option.some.injEq] at hc
      subst hc
      exact ⟨rfl,by simp [TwoWay.put]⟩
    · simp only [TwoWay.put,AList.lookup_insert_ne hb] at hc ⊢
      obtain ⟨rfl,hleft⟩ := h.filed_right b c hc
      refine ⟨rfl,?_⟩
      rw [AList.lookup_insert_ne,hleft]
      intro heq
      exact hb (hl c (heq ▸ hleft))

/-- The entry `c` has both keys of `e`. -/
def sameKeys (left : ε → α) (right : ε → β) (e c : ε) : Bool := left c = left e ∧ right c = right e

/-- One of the two maps after an entry was taken out. -/
theorem lookup_erase_sameKeys {κ κ' : Type} [DecidableEq κ] [DecidableEq κ'] {key : ε → κ}
    {other : ε → κ'} {m : AList fun _ : κ => ε} (hm : ∀ a c, m.lookup a = some c → key c = a)
    (e : ε) (a : κ) :
    (if (m.lookup (key e)).any fun c => other c = other e then m.erase (key e) else m).lookup a =
      (m.lookup a).filter fun c => !sameKeys key other e c := by
  by_cases ha : a = key e
  · subst ha
    cases hc : m.lookup (key e) with
    | none => simp [hc]
    | some c =>
      have hkey := hm _ c hc
      by_cases ho : other c = other e <;> simp [sameKeys,hc,hkey,ho,Option.filter_some]
  · have hkeep : (m.lookup a).filter (fun c => !sameKeys key other e c) = m.lookup a := by
      cases hc : m.lookup a with
      | none => rfl
      | some c => simp [sameKeys,hm a c hc,ha,Option.filter_some]
    rw [hkeep]
    split
    · rw [AList.lookup_erase_ne ha]
    · rfl

/-- Taking out `e` keeps every entry that does not have both of its keys. -/
theorem Linked.discard (h : Linked left right t) (e : ε) :
    Keeps (fun c => !sameKeys left right e c) t (discard left right e t) := by
  constructor
  · intro a
    exact lookup_erase_sameKeys (fun a c hc => (h.filed_left a c hc).1) e a
  · intro b
    rw [TwoWay.discard,lookup_erase_sameKeys (fun b c hc => (h.filed_right b c hc).1) e b]
    simp only [sameKeys,and_comm]

theorem Linked.discardAll (h : Linked left right t) (es : List ε) :
    Keeps (fun c => !es.any fun e => sameKeys left right e c) t (discardAll left right es t) := by
  induction es generalizing t with
  | nil => exact Keeps.refl
  | cons e es ih =>
    have hd := h.discard e
    have hk := hd.trans (ih (h.keeps hd))
    simp only [List.any_cons,Bool.not_or]
    exact hk

/-- An entry goes only if it is stale itself. -/
theorem Linked.sweep (h : Linked left right t) (stale : ε → Bool) :
    Keeps (fun c => !stale c) t (sweep left right stale t) := by
  have hall := h.discardAll ((t.byLeft.entries.map Sigma.snd).filter stale)
  refine hall.congr h fun c hc => ?_
  congr 1
  rw [Bool.eq_iff_iff,List.any_eq_true]
  constructor
  · rintro ⟨x,hx,hsame⟩
    obtain ⟨hmem,hx⟩ := List.mem_filter.mp hx
    obtain ⟨⟨a,y⟩,hy,rfl⟩ := List.mem_map.mp hmem
    have hlookup : t.byLeft.lookup a = some y := AList.mem_lookup_iff.mpr hy
    have hkeys : left c = left y ∧ right c = right y := of_decide_eq_true hsame
    -- the same left key, so the same entry
    rw [hkeys.1,(h.filed_left a y hlookup).1,hlookup] at hc
    exact Option.some.inj hc ▸ hx
  · intro hstale
    have hmem : Sigma.mk (left c) c ∈ t.byLeft.entries := AList.mem_lookup_iff.mp hc
    exact ⟨c,List.mem_filter.mpr ⟨List.mem_map_of_mem hmem,hstale⟩,by simp [sameKeys]⟩

end TwoWay
end Enimul
