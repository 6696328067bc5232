import Mathlib.Data.Finset.Card
import Mathlib.Data.Int.Notation

/-! A cache of bounded size that gives up the entry that was used least recently.
It is the list of its entries from the oldest to the newest use. An entry may have a deadline
from which on it counts as gone. -/
namespace Enimul
namespace Recency

variable {K V : Type}

structure Entry (K V : Type) where
  key : K
  value : V
  deadline : Option ℤ
  deriving DecidableEq

def Entry.Live (now : ℤ) (e : Entry K V) : Prop := ∀ d ∈ e.deadline, now < d

instance Entry.decidableLive (now : ℤ) (e : Entry K V) : Decidable (e.Live now) := by
  unfold Entry.Live
  infer_instance

theorem nodup_snoc {l l' : List (Entry K V)} {e : Entry K V}
    (hkeys : (l.map Entry.key).Nodup) (hsub : l'.Sublist l)
    (hnew : ∀ e' ∈ l', e'.key ≠ e.key) : ((l'++[e]).map Entry.key).Nodup := by
  rw [List.map_append,List.nodup_append]
  refine ⟨hkeys.sublist (hsub.map _),List.nodup_singleton _,?_⟩
  rintro k hk k' hk' rfl
  obtain ⟨e',he',rfl⟩ := List.mem_map.1 hk
  exact hnew e' he' (by simpa using hk')

variable [DecidableEq K]

def find (key : K) (l : List (Entry K V)) : Option (Entry K V) := l.find? fun e => e.key = key

def without (key : K) (l : List (Entry K V)) : List (Entry K V) := l.filter fun e => e.key ≠ key

/-- A lookup at the time `now`. A hit becomes the newest entry, a dead entry is dropped. -/
def get (now : ℤ) (key : K) (l : List (Entry K V)) : Option V × List (Entry K V) :=
  match find key l with
  | none => (none,l)
  | some e => if e.Live now then (some e.value,without key l++[e]) else (none,without key l)

/-- An entry takes the place of the one with its key, or that of the oldest one when the cache
is full; whether it is the latter. -/
def add (cap : ℕ) (e : Entry K V) (l : List (Entry K V)) : Bool × List (Entry K V) :=
  if (find e.key l).isSome then (false,without e.key l++[e])
  else if l.length = cap then (true,l.tail++[e])
  else (false,l++[e])

section Split

variable {l u v : List (Entry K V)} {e : Entry K V} {key : K}

theorem find_split (hkeys : ((u++e::v).map Entry.key).Nodup) : find e.key (u++e::v) = some e := by
  rw [find,List.find?_append]
  have hu : u.find? (fun e' => e'.key = e.key) = none := by
    rw [List.find?_eq_none]
    intro e' he'
    rw [List.map_append,List.nodup_append] at hkeys
    simpa using hkeys.2.2 e'.key (List.mem_map_of_mem he') e.key (by simp)
  rw [hu]
  simp

theorem without_split (hkeys : ((u++e::v).map Entry.key).Nodup) : without e.key (u++e::v) = u++v := by
  have hnodup := hkeys
  rw [List.map_append,List.map_cons,List.nodup_middle,List.nodup_cons] at hnodup
  have hkeep : ∀ e' ∈ u++v, e'.key ≠ e.key := by
    intro e' he' heq
    rw [← List.map_append,← heq] at hnodup
    exact hnodup.1 (List.mem_map_of_mem he')
  rw [without,List.filter_append,List.filter_cons_of_neg (by simp),← List.filter_append,
    List.filter_eq_self]
  exact fun e' he' => decide_eq_true (hkeep e' he')

theorem find_eq_none : find key l = none ↔ key ∉ l.map Entry.key := by
  simp [find,List.find?_eq_none]

theorem ne_of_find_none (h : find key l = none) (he : e ∈ l) : e.key ≠ key := by
  rintro rfl
  exact find_eq_none.1 h (List.mem_map_of_mem he)

theorem exists_split (h : find key l = some e) : e.key = key ∧ ∃ u v, l = u++e::v :=
  ⟨by simpa using List.find?_some h,List.append_of_mem (List.mem_of_find?_eq_some h)⟩

theorem get_split (hkeys : ((u++e::v).map Entry.key).Nodup) (now : ℤ) :
    get now e.key (u++e::v) = if e.Live now then (some e.value,u++v++[e]) else (none,u++v) := by
  simp only [get,find_split hkeys,without_split hkeys]

theorem get_of_find_none (h : find key l = none) (now : ℤ) : get now key l = (none,l) := by
  rw [get,h]

/-- A lookup finds the live entry of its key. -/
theorem get_eq_some {now : ℤ} {value : V} :
    (get now key l).1 = some value ↔ ∃ e, find key l = some e ∧ e.Live now ∧ e.value = value := by
  cases hfind : find key l with
  | none => simp [get_of_find_none hfind]
  | some e => by_cases hlive : e.Live now <;> simp [get,hfind,hlive]

theorem get_congr {l' : List (Entry K V)} (h : find key l = find key l') (now : ℤ) :
    (get now key l).1 = (get now key l').1 := by
  cases hfind : find key l with
  | none => rw [get_of_find_none hfind,get_of_find_none (h ▸ hfind)]
  | some e => by_cases hlive : e.Live now <;> simp [get,← h,hfind,hlive]

theorem add_split (hkeys : ((u++e::v).map Entry.key).Nodup) (e' : Entry K V) (he : e'.key = e.key)
    (cap : ℕ) : add cap e' (u++e::v) = (false,u++v++[e']) := by
  simp only [add,he,find_split hkeys,without_split hkeys,Option.isSome_some,if_true]

theorem add_of_find_none (h : find e.key l = none) (cap : ℕ) :
    add cap e l = if l.length = cap then (true,l.tail++[e]) else (false,l++[e]) := by
  simp only [add,h,Option.isSome_none,Bool.false_eq_true,if_false]

end Split

/-- A call of the cache. -/
inductive Op (K V : Type)
  | add (e : Entry K V)
  | get (now : ℤ) (key : K)

def Op.key : Op K V → K
  | add e => e.key
  | get _ key => key

def Op.apply (cap : ℕ) : Op K V → List (Entry K V) → List (Entry K V)
  | add e, l => (Recency.add cap e l).2
  | get now key, l => (Recency.get now key l).2

def run (cap : ℕ) (ops : List (Op K V)) (l : List (Entry K V)) : List (Entry K V) :=
  ops.foldl (fun l op => op.apply cap l) l

section Step

variable {cap : ℕ} {op : Op K V} {l : List (Entry K V)} {e : Entry K V} {key : K}

theorem mem_without : e ∈ without key l ↔ e ∈ l ∧ e.key ≠ key := by
  simp [without]

/-- Everything a call can do to the entries: nothing, drop or use the entry of its key, or put
in a new one, for which the oldest has to go when the cache is full. -/
theorem apply_cases (cap : ℕ) (op : Op K V) (l : List (Entry K V)) :
    (op.apply cap l = l ∧ find op.key l = none) ∨
    op.apply cap l = without op.key l ∨
    (∃ e, e.key = op.key ∧ (op = .add e ∨ e ∈ l ∧ ∀ e', op ≠ .add e') ∧
      op.apply cap l = without op.key l++[e]) ∨
    (∃ e, op = .add e ∧ find op.key l = none ∧
      op.apply cap l = (if l.length = cap then l.tail else l)++[e]) := by
  cases op with
  | add e =>
    cases hfind : find e.key l with
    | none =>
      refine .inr (.inr (.inr ⟨e,rfl,hfind,?_⟩))
      rw [Op.apply,add_of_find_none hfind]
      split <;> rfl
    | some e₀ =>
      refine .inr (.inr (.inl ⟨e,rfl,.inl rfl,?_⟩))
      simp [Op.apply,Op.key,add,hfind]
  | get now k =>
    cases hfind : find k l with
    | none => exact .inl ⟨by rw [Op.apply,get_of_find_none hfind],hfind⟩
    | some e =>
      obtain ⟨hkey,u,v,hl⟩ := exists_split hfind
      by_cases hlive : e.Live now
      · refine .inr (.inr (.inl ⟨e,hkey,.inr ⟨by simp [hl],by simp⟩,?_⟩))
        simp [Op.apply,Op.key,get,hfind,hlive]
      · refine .inr (.inl ?_)
        simp [Op.apply,Op.key,get,hfind,hlive]

theorem nodup_apply (hkeys : (l.map Entry.key).Nodup) (cap : ℕ) (op : Op K V) :
    ((op.apply cap l).map Entry.key).Nodup := by
  have hsub : (without op.key l).Sublist l := List.filter_sublist
  rcases apply_cases cap op l with ⟨h,-⟩ | h | ⟨e,hkey,-,h⟩ | ⟨e,rfl,hfind,h⟩
  · rwa [h]
  · rw [h]
    exact hkeys.sublist (hsub.map _)
  · rw [h]
    exact nodup_snoc hkeys hsub fun e' he' => hkey ▸ (mem_without.1 he').2
  · have hsub : (if l.length = cap then l.tail else l).Sublist l := by
      split
      · exact List.tail_sublist l
      · exact List.Sublist.refl l
    rw [h]
    exact nodup_snoc hkeys hsub fun e' he' => ne_of_find_none hfind (hsub.subset he')

/-- An entry after a call was there before it, or the call has just added it. -/
theorem mem_apply (h : e ∈ op.apply cap l) :
    op = .add e ∨ (e ∈ l ∧ ∀ e', op = .add e' → e'.key ≠ e.key) := by
  have habsent : find op.key l = none → e ∈ l → ∀ e', op = .add e' → e'.key ≠ e.key := by
    rintro hfind hmem e' rfl
    exact (ne_of_find_none hfind hmem).symm
  have hother : e ∈ without op.key l → e ∈ l ∧ ∀ e', op = .add e' → e'.key ≠ e.key := by
    intro hmem
    obtain ⟨hl,hkey⟩ := mem_without.1 hmem
    refine ⟨hl,?_⟩
    rintro e' rfl
    exact hkey.symm
  rcases apply_cases cap op l with ⟨heq,hfind⟩ | heq | ⟨e₀,-,hop,heq⟩ | ⟨e₀,rfl,hfind,heq⟩
  · rw [heq] at h
    exact .inr ⟨h,habsent hfind h⟩
  · rw [heq] at h
    exact .inr (hother h)
  · rw [heq,List.mem_append,List.mem_singleton] at h
    rcases h with h | rfl
    · exact .inr (hother h)
    · exact hop.imp_right fun hget => ⟨hget.1,fun e' he' => (hget.2 e' he').elim⟩
  · rw [heq,List.mem_append,List.mem_singleton] at h
    rcases h with h | rfl
    · have hmem : e ∈ l := by
        split at h
        · exact List.mem_of_mem_tail h
        · exact h
      exact .inr ⟨hmem,habsent hfind hmem⟩
    · exact .inl rfl

/-- The entries newer than this one have their keys in `others`. -/
def Recent (others : Finset K) (e : Entry K V) (l : List (Entry K V)) : Prop :=
  ∃ u v, l = u++e::v ∧ ∀ e' ∈ v, e'.key ∈ others

/-- Calls of fewer other keys than the cache has room for do not drive an entry out. -/
theorem Recent.apply {others : Finset K} (hkeys : (l.map Entry.key).Nodup)
    (h : Recent others e l) (hkey : op.key ≠ e.key) (hop : op.key ∈ others)
    (hcard : others.card < cap) : Recent others e (op.apply cap l) := by
  obtain ⟨u,v,rfl,hv⟩ := h
  have hwithout : without op.key (u++e::v) = without op.key u++e::without op.key v := by
    simp [without,hkey.symm]
  have hv' : ∀ e' ∈ without op.key v, e'.key ∈ others := fun e' he' => hv e' (mem_without.1 he').1
  rcases apply_cases cap op (u++e::v) with ⟨heq,-⟩ | heq | ⟨e₀,hkey₀,-,heq⟩ | ⟨e₀,rfl,hfind,heq⟩
  · exact ⟨u,v,heq,hv⟩
  · exact ⟨_,_,heq.trans hwithout,hv'⟩
  · refine ⟨without op.key u,without op.key v++[e₀],by simp [heq,hwithout],?_⟩
    simpa [or_imp,forall_and,hkey₀,hop] using hv'
  · have hsnoc : ∀ e' ∈ v++[e₀], e'.key ∈ others := by
      simpa [or_imp,forall_and] using ⟨hv,hop⟩
    cases u with
    | cons a u =>
      rw [heq]
      split
      · exact ⟨u,v++[e₀],by simp,hsnoc⟩
      · exact ⟨a::u,v++[e₀],by simp,hsnoc⟩
    | nil =>
      have hnew : ((v++[e₀]).map Entry.key).Nodup := by
        refine nodup_snoc hkeys (List.sublist_cons_self e v) fun e' he' => ?_
        exact ne_of_find_none hfind (by simp [he'])
      have hroom : (v++[e₀]).length ≤ others.card := by
        rw [← List.length_map Entry.key,← List.toFinset_card_of_nodup hnew]
        refine Finset.card_le_card fun k hk => ?_
        obtain ⟨e',he',rfl⟩ := List.mem_map.1 (List.mem_toFinset.1 hk)
        exact hsnoc e' he'
      rw [heq,if_neg (by simp at hroom ⊢; omega)]
      exact ⟨[],v++[e₀],by simp,hsnoc⟩

end Step

section Run

variable {l : List (Entry K V)} {e : Entry K V} {key : K} {cap : ℕ}

theorem run_append (ops ops' : List (Op K V)) :
    run cap (ops++ops') l = run cap ops' (run cap ops l) := List.foldl_append

theorem nodup_run (hkeys : (l.map Entry.key).Nodup) (cap : ℕ) (ops : List (Op K V)) :
    ((run cap ops l).map Entry.key).Nodup := by
  induction ops generalizing l with
  | nil => exact hkeys
  | cons op ops ih => exact ih (nodup_apply hkeys cap op)

/-- An entry is there by the last call that added its key. -/
theorem mem_run {ops : List (Op K V)} (h : e ∈ run cap ops []) :
    ∃ pre post, ops = pre++.add e::post ∧ ∀ e', .add e' ∈ post → e'.key ≠ e.key := by
  induction ops using List.reverseRecOn with
  | nil => simp [run] at h
  | append_singleton ops op ih =>
    rw [run_append] at h
    have h : e ∈ op.apply cap (run cap ops []) := h
    rcases mem_apply h with rfl | ⟨hmem,hkey⟩
    · exact ⟨ops,[],rfl,by simp⟩
    · obtain ⟨pre,post,rfl,hpost⟩ := ih hmem
      refine ⟨pre,post++[op],by simp,fun e' he' => ?_⟩
      rcases List.mem_append.1 he' with he' | he'
      · exact hpost e' he'
      · exact hkey e' (List.mem_singleton.1 he').symm

theorem Recent.run {others : Finset K} {ops : List (Op K V)} (hkeys : (l.map Entry.key).Nodup)
    (h : Recent others e l) (hops : ∀ op ∈ ops, op.key ≠ e.key ∧ op.key ∈ others)
    (hcard : others.card < cap) : Recent others e (run cap ops l) := by
  induction ops generalizing l with
  | nil => exact h
  | cons op ops ih =>
    have hop := hops op (by simp)
    exact ih (nodup_apply hkeys cap op) (h.apply hkeys hop.1 hop.2 hcard)
      fun op' hop' => hops op' (by simp [hop'])

theorem recent_snoc (others : Finset K) (hl : ∀ e' ∈ l, e'.key ≠ key) {e₀ : Entry K V}
    (h : find key (l++[e₀]) = some e) : Recent others e (l++[e₀]) := by
  have hnone : l.find? (fun e' => e'.key = key) = none := by simpa using hl
  rw [find,List.find?_append,hnone,Option.none_or,List.find?_singleton] at h
  obtain rfl := Option.some.inj (Option.ite_none_right_eq_some.1 h).2
  exact ⟨l,[],rfl,by simp⟩

/-- After a call of its key an entry is the newest one. -/
theorem recent_of_find_apply {op : Op K V} (others : Finset K)
    (h : find op.key (op.apply cap l) = some e) : Recent others e (op.apply cap l) := by
  have hother : ∀ e' ∈ without op.key l, e'.key ≠ op.key := fun e' he' => (mem_without.1 he').2
  rcases apply_cases cap op l with ⟨heq,hfind⟩ | heq | ⟨e₀,-,-,heq⟩ | ⟨e₀,rfl,hfind,heq⟩
  · rw [heq,hfind] at h
    cases h
  · rw [heq] at h
    obtain ⟨hkey,u,v,huv⟩ := exists_split h
    exact absurd hkey (hother e (by simp [huv]))
  · rw [heq] at h ⊢
    exact recent_snoc others hother h
  · rw [heq] at h ⊢
    refine recent_snoc others (fun e' he' => ne_of_find_none hfind ?_) h
    split at he'
    · exact List.mem_of_mem_tail he'
    · exact he'

theorem find_of_recent {others : Finset K} (hkeys : (l.map Entry.key).Nodup)
    (h : Recent others e l) : find e.key l = some e := by
  obtain ⟨u,v,rfl,-⟩ := h
  exact find_split hkeys

theorem find_run_none {ops : List (Op K V)} (h : find key l = none)
    (hops : ∀ op ∈ ops, op.key ≠ key) : find key (run cap ops l) = none := by
  induction ops generalizing l with
  | nil => exact h
  | cons op ops ih =>
    refine ih ?_ fun op' hop' => hops op' (by simp [hop'])
    rw [find_eq_none,List.mem_map]
    rintro ⟨e,he,rfl⟩
    rcases mem_apply he with rfl | ⟨hmem,-⟩
    · exact hops (.add e) (by simp) rfl
    · exact ne_of_find_none h hmem rfl

/-- What is found for a key after a call of it is still found after calls of other keys, when
these are fewer than the cache has room for. -/
theorem find_run_of_few {others : Finset K} {op : Op K V} {ops : List (Op K V)}
    (hkeys : (l.map Entry.key).Nodup) (hop : op.key = key)
    (hops : ∀ op' ∈ ops, op'.key ≠ key ∧ op'.key ∈ others) (hcard : others.card < cap) :
    find key (run cap ops (op.apply cap l)) = find key (op.apply cap l) := by
  subst hop
  have hnodup := nodup_apply hkeys cap op
  cases hfind : find op.key (op.apply cap l) with
  | none => exact find_run_none hfind fun op' hop' => (hops op' hop').1
  | some e =>
    have hkey := (exists_split hfind).1
    rw [← hkey] at hops ⊢
    exact find_of_recent (nodup_run hnodup cap ops)
      ((recent_of_find_apply others hfind).run hnodup hops hcard)

end Run

end Recency
end Enimul
