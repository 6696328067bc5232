import Mathlib.Data.List.Induction
import Mathlib.Data.List.Infix

/-! Lookups along a path.
A log of entries says what was filed under each key, the last entry counts. A path is looked
up by the longest of its initial parts under which something is filed. -/
namespace Enimul
namespace PathLookup

section Latest

variable {κ α : Type} {p q : κ → Bool} {log : List (κ × α)} {v : α}

/-- The value of the last entry whose key is one of those in question. -/
def latest (p : κ → Bool) (log : List (κ × α)) : Option α :=
  log.foldl (fun found e => if p e.1 then some e.2 else found) none

theorem latest_concat (p : κ → Bool) (log : List (κ × α)) (e : κ × α) :
    latest p (log++[e]) = if p e.1 then some e.2 else latest p log := by
  rw [latest,List.foldl_append]
  rfl

theorem latest_congr (h : ∀ e ∈ log, p e.1 = q e.1) : latest p log = latest q log := by
  induction log using List.reverseRecOn with
  | nil => rfl
  | append_singleton log e ih =>
    have he := h e (by simp)
    rw [latest_concat,latest_concat,he,ih fun x hx => h x (List.mem_append_left _ hx)]

theorem latest_eq_none : latest p log = none ↔ ∀ e ∈ log, p e.1 = false := by
  induction log using List.reverseRecOn with
  | nil => simp [latest]
  | append_singleton log e ih =>
    rw [latest_concat]
    cases hp : p e.1 with
    | true =>
      simp only [if_true]
      refine ⟨fun h => by simp at h,fun h => ?_⟩
      have he := h e (by simp)
      simp [hp] at he
    | false =>
      simp only [Bool.false_eq_true,if_false,ih]
      constructor
      · intro h x hx
        rcases List.mem_append.mp hx with hx | hx
        · exact h x hx
        · exact List.mem_singleton.mp hx ▸ hp
      · exact fun h x hx => h x (List.mem_append_left _ hx)

theorem latest_eq_some : latest p log = some v ↔
    ∃ before k after, log = before++(k,v)::after ∧ p k = true ∧ ∀ e ∈ after, p e.1 = false := by
  constructor
  · intro h
    induction log using List.reverseRecOn with
    | nil => simp [latest] at h
    | append_singleton log e ih =>
      rw [latest_concat] at h
      cases hp : p e.1 with
      | true =>
        rw [hp,if_pos rfl] at h
        obtain rfl := Option.some.inj h
        exact ⟨log,e.1,[],rfl,hp,by simp⟩
      | false =>
        rw [hp,if_neg Bool.false_ne_true] at h
        obtain ⟨before,k,after,rfl,hk,hafter⟩ := ih h
        refine ⟨before,k,after++[e],by simp,hk,fun x hx => ?_⟩
        rcases List.mem_append.mp hx with hx | hx
        · exact hafter x hx
        · exact List.mem_singleton.mp hx ▸ hp
  · rintro ⟨before,k,after,rfl,hk,hafter⟩
    induction after using List.reverseRecOn with
    | nil => rw [latest_concat,if_pos hk]
    | append_singleton after e ih =>
      have he := hafter e (by simp)
      have hassoc : before++(k,v)::(after++[e]) = (before++(k,v)::after)++[e] := by simp
      rw [hassoc,latest_concat,he,if_neg Bool.false_ne_true]
      exact ih fun x hx => hafter x (List.mem_append_left _ hx)

end Latest

section Deepest

variable {κ α : Type} {f : List κ → Option α} {path : List κ} {best : Option α} {v : α}

/-- The value of the longest initial part of the path that has one, or the best so far. -/
def deepest (f : List κ → Option α) : List κ → Option α → Option α
  | [], best => (f []).or best
  | k::ks, best => deepest (fun path => f (k::path)) ks ((f []).or best)

theorem deepest_of_none (h : ∀ path, f path = none) (path : List κ) (best : Option α) :
    deepest f path best = best := by
  induction path generalizing f best with
  | nil => simp [deepest,h []]
  | cons k ks ih => rw [deepest,h [],Option.none_or,ih fun path => h (k::path)]

/-- From the far end: the whole path comes first. -/
theorem deepest_concat (f : List κ → Option α) (ks : List κ) (k : κ) (best : Option α) :
    deepest f (ks++[k]) best = (f (ks++[k])).or (deepest f ks best) := by
  induction ks generalizing f best with
  | nil => rfl
  | cons a ks ih => exact ih (fun path => f (a::path)) ((f []).or best)

theorem deepest_eq_none : deepest f path none = none ↔ ∀ p, p <+: path → f p = none := by
  induction path using List.reverseRecOn with
  | nil => simp [deepest]
  | append_singleton ks k ih =>
    rw [deepest_concat,Option.or_eq_none_iff,ih]
    constructor
    · rintro ⟨hall,hrest⟩ p hp
      rcases List.prefix_concat_iff.mp hp with rfl | hp
      · exact hall
      · exact hrest p hp
    · exact fun h => ⟨h _ (List.prefix_refl _),fun p hp => h p (hp.trans (List.prefix_append ks [k]))⟩

theorem deepest_eq_some : deepest f path none = some v ↔
    ∃ p, p <+: path ∧ f p = some v ∧ ∀ q, q <+: path → p.length < q.length → f q = none := by
  induction path using List.reverseRecOn with
  | nil =>
    simp only [deepest,Option.or_none,List.prefix_nil]
    constructor
    · exact fun h => ⟨[],rfl,h,fun q hq hlt => by simp [hq] at hlt⟩
    · rintro ⟨p,rfl,h,-⟩
      exact h
  | append_singleton ks k ih =>
    rw [deepest_concat]
    cases hf : f (ks++[k]) with
    | some w =>
      rw [Option.some_or]
      constructor
      · rintro ⟨⟩
        refine ⟨_,List.prefix_refl _,hf,fun q hq hlt => ?_⟩
        exact absurd hq.length_le (not_le.mpr hlt)
      · rintro ⟨p,hp,hv,hdeeper⟩
        rcases List.prefix_concat_iff.mp hp with rfl | hp
        · exact hf.symm.trans hv
        · have hlt : p.length < (ks++[k]).length := by
            have hle := hp.length_le
            simp only [List.length_append,List.length_singleton]
            omega
          simp [hdeeper _ (List.prefix_refl _) hlt] at hf
    | none =>
      rw [Option.none_or,ih]
      constructor
      · rintro ⟨p,hp,hv,hdeeper⟩
        refine ⟨p,hp.trans (List.prefix_append ks [k]),hv,fun q hq hlt => ?_⟩
        rcases List.prefix_concat_iff.mp hq with rfl | hq
        · exact hf
        · exact hdeeper q hq hlt
      · rintro ⟨p,hp,hv,hdeeper⟩
        rcases List.prefix_concat_iff.mp hp with rfl | hp
        · simp [hf] at hv
        · exact ⟨p,hp,hv,fun q hq hlt => hdeeper q (hq.trans (List.prefix_append ks [k])) hlt⟩

end Deepest

section Nodes

variable {ν ι κ α : Type}

/-- Nodes with further nodes under keys, and with a value of their own. -/
structure View (ν κ α : Type) where
  child : ν → κ → Option ν
  value : ν → Option α

namespace View

/-- The value of the node at the end of a path. -/
def valueAt (view : View ν κ α) : List κ → ν → Option α
  | [], n => view.value n
  | k::ks, n => (view.child n k).bind (valueAt view ks)

theorem deepest_of_no_child (view : View ν κ α) {n : ν} {k : κ} (h : view.child n k = none)
    (ks : List κ) (best : Option α) :
    deepest (fun q => view.valueAt q n) (k::ks) best = (view.value n).or best := by
  have hbelow : ∀ q, view.valueAt (k::q) n = none := by
    intro q
    rw [valueAt,h,Option.bind_none]
  exact deepest_of_none hbelow ks _

theorem deepest_of_child (view : View ν κ α) {n c : ν} {k : κ} (h : view.child n k = some c)
    (ks : List κ) (best : Option α) :
    deepest (fun q => view.valueAt q n) (k::ks) best =
      deepest (fun q => view.valueAt q c) ks ((view.value n).or best) := by
  have hbelow : (fun q => view.valueAt (k::q) n) = fun q => view.valueAt q c := by
    funext q
    rw [valueAt,h,Option.bind_some]
  rw [deepest,hbelow]
  rfl

/-- An insertion walks along the keys of a path, adds the nodes that are missing and writes at
the end. -/
structure Inserts [DecidableEq κ] (view : View ν κ α) (key : ι → κ) (empty : ν) (write : Option α)
    (insert : List ι → ν → ν) : Prop where
  value_empty : view.value empty = none
  child_empty : ∀ k, view.child empty k = none
  value_nil : ∀ n, view.value (insert [] n) = write.or (view.value n)
  child_nil : ∀ n k, view.child (insert [] n) k = view.child n k
  value_cons : ∀ i is n, view.value (insert (i::is) n) = view.value n
  child_cons : ∀ i is n k, view.child (insert (i::is) n) k =
    if k = key i then some (insert is ((view.child n (key i)).getD empty)) else view.child n k

variable [DecidableEq κ] {view : View ν κ α} {key : ι → κ} {empty : ν} {write : Option α}
variable {insert : List ι → ν → ν}

theorem Inserts.valueAt_empty (h : view.Inserts key empty write insert) (q : List κ) :
    view.valueAt q empty = none := by
  cases q with
  | nil => exact h.value_empty
  | cons k q => rw [valueAt,h.child_empty,Option.bind_none]

/-- It changes the value at the end of its own path only. -/
theorem Inserts.valueAt_insert (h : view.Inserts key empty write insert) (is : List ι) (q : List κ)
    (n : ν) : view.valueAt q (insert is n) =
      if is.map key = q then write.or (view.valueAt q n) else view.valueAt q n := by
  induction is generalizing q n with
  | nil =>
    cases q with
    | nil => exact (h.value_nil n).trans (if_pos rfl).symm
    | cons k q => rw [valueAt,h.child_nil,List.map_nil,if_neg (by simp),valueAt]
  | cons i is ih =>
    cases q with
    | nil => exact (h.value_cons i is n).trans (if_neg (by simp)).symm
    | cons k q =>
      rw [valueAt,h.child_cons,valueAt,List.map_cons]
      by_cases hk : k = key i
      · have hbelow : view.valueAt q ((view.child n (key i)).getD empty) =
            (view.child n (key i)).bind (view.valueAt q) := by
          cases view.child n (key i) with
          | none => exact h.valueAt_empty q
          | some c => rfl
        rw [if_pos hk,Option.bind_some,ih,hbelow,hk]
        simp
      · rw [if_neg hk,if_neg fun hmap => hk (List.cons.inj hmap).1.symm]

end View

end Nodes

section Log

variable {κ β α : Type} [DecidableEq β] {key : κ → Option (List β)} {log : List (κ × α)}
variable {path : List β} {v : α}

/-- What a log has filed under a path. -/
def filed (key : κ → Option (List β)) (log : List (κ × α)) (path : List β) : Option α :=
  latest (fun k => key k = some path) log

theorem filed_concat (key : κ → Option (List β)) (log : List (κ × α)) (e : κ × α) (path : List β) :
    filed key (log++[e]) path = if key e.1 = some path then some e.2 else filed key log path := by
  rw [filed,latest_concat]
  simp [filed]

theorem filed_eq_none : filed key log path = none ↔ ∀ e ∈ log, key e.1 ≠ some path := by
  simp [filed,latest_eq_none]

/-- Nothing is found exactly if no entry has a key on the path. -/
theorem deepest_filed_eq_none : deepest (filed key log) path none = none ↔
    ∀ e ∈ log, ∀ q, key e.1 = some q → ¬ q <+: path := by
  rw [deepest_eq_none]
  constructor
  · intro h e he q hq hprefix
    exact filed_eq_none.mp (h q hprefix) e he hq
  · intro h q hprefix
    exact filed_eq_none.mpr fun e he hq => h e he q hq hprefix

/-- What is found is the last entry among those with the longest key on the path. -/
theorem deepest_filed_eq_some : deepest (filed key log) path none = some v ↔
    ∃ before k after q, log = before++(k,v)::after ∧ key k = some q ∧ q <+: path ∧
      (∀ e ∈ before, ∀ q', key e.1 = some q' → q' <+: path → q'.length ≤ q.length) ∧
      ∀ e ∈ after, ∀ q', key e.1 = some q' → q' <+: path → q'.length < q.length := by
  rw [deepest_eq_some]
  constructor
  · rintro ⟨q,hq,hv,hdeeper⟩
    obtain ⟨before,k,after,rfl,hk,hafter⟩ := latest_eq_some.mp hv
    have hle : ∀ e ∈ before++(k,v)::after, ∀ q', key e.1 = some q' → q' <+: path →
        q'.length ≤ q.length := by
      intro e he q' hq' hprefix
      by_contra hlt
      exact filed_eq_none.mp (hdeeper q' hprefix (not_le.mp hlt)) e he hq'
    refine ⟨before,k,after,q,rfl,of_decide_eq_true hk,hq,fun e he => hle e (by simp [he]),?_⟩
    intro e he q' hq' hprefix
    refine lt_of_le_of_ne (hle e (by simp [he]) q' hq' hprefix) fun hlen => ?_
    -- two parts of one path with one length are the same
    have hsame : q' = q := (List.prefix_of_prefix_length_le hprefix hq hlen.le).eq_of_length hlen
    exact of_decide_eq_false (hafter e he) (hsame ▸ hq')
  · rintro ⟨before,k,after,q,rfl,hk,hq,hbefore,hafter⟩
    refine ⟨q,hq,latest_eq_some.mpr ⟨before,k,after,rfl,decide_eq_true hk,fun e he => ?_⟩,?_⟩
    · refine decide_eq_false fun hkey => ?_
      exact absurd (hafter e he q hkey hq) (lt_irrefl _)
    · intro q' hq' hlt
      refine filed_eq_none.mpr fun e he hkey => ?_
      rcases List.mem_append.mp he with he | he
      · exact absurd (hbefore e he q' hkey hq') (not_le.mpr hlt)
      · rcases List.mem_cons.mp he with rfl | he
        · obtain rfl := Option.some.inj (hk.symm.trans hkey)
          exact lt_irrefl _ hlt
        · exact lt_asymm hlt (hafter e he q' hkey hq')

end Log

section Order

variable {κ α ρ : Type} {P Q : κ → Prop} {log : List (κ × α)} {v : α}

open Classical in
/-- The value of the last entry whose key has the property. -/
noncomputable def lastWith (P : κ → Prop) (log : List (κ × α)) : Option α :=
  latest (fun k => decide (P k)) log

theorem lastWith_eq_none : lastWith P log = none ↔ ∀ e ∈ log, ¬ P e.1 := by
  rw [lastWith,latest_eq_none]
  simp

theorem lastWith_eq_some : lastWith P log = some v ↔
    ∃ before k after, log = before++(k,v)::after ∧ P k ∧ ∀ e ∈ after, ¬ P e.1 := by
  rw [lastWith,latest_eq_some]
  simp

theorem lastWith_congr (h : ∀ e ∈ log, (P e.1 ↔ Q e.1)) : lastWith P log = lastWith Q log :=
  latest_congr fun e he => decide_eq_decide.mpr (h e he)

/-- The entries with such a key have one value. -/
def Agree (P : κ → Prop) (log : List (κ × α)) : Prop :=
  ∀ e ∈ log, ∀ e' ∈ log, P e.1 → P e'.1 → e.2 = e'.2

/-- The lookup takes the last entry with such a key, in whatever order the entries come. -/
def DecidedBy (lookup : List (κ × α) → Option α) (log : List (κ × α)) (P : κ → Prop) : Prop :=
  ∀ log', (∀ e, e ∈ log' ↔ e ∈ log) → lookup log' = lastWith P log'

theorem lastWith_of_agree (h : Agree P log) {e : κ × α} (he : e ∈ log) (hP : P e.1) :
    lastWith P log = some e.2 := by
  cases hv : lastWith P log with
  | none => exact absurd hP (lastWith_eq_none.mp hv e he)
  | some v =>
    obtain ⟨before,k,after,rfl,hk,-⟩ := lastWith_eq_some.mp hv
    exact congrArg some (h (k,v) (by simp) e he hk hP)

theorem lastWith_iff_of_agree (h : Agree P log) :
    lastWith P log = some v ↔ ∃ e ∈ log, e.2 = v ∧ P e.1 := by
  constructor
  · intro hv
    obtain ⟨before,k,after,rfl,hk,-⟩ := lastWith_eq_some.mp hv
    exact ⟨(k,v),by simp,rfl,hk⟩
  · rintro ⟨e,he,rfl,hP⟩
    exact lastWith_of_agree h he hP

theorem lastWith_append {block : List (κ × α)} {e : κ × α} (he : e ∈ block) (hP : P e.1)
    (log : List (κ × α)) : lastWith P (log++block) = lastWith P block := by
  cases hv : lastWith P block with
  | none => exact absurd hP (lastWith_eq_none.mp hv e he)
  | some v =>
    obtain ⟨before,k,after,rfl,hk,hafter⟩ := lastWith_eq_some.mp hv
    exact lastWith_eq_some.mpr ⟨log++before,k,after,by simp,hk,hafter⟩

/-- Where every rule has one value for its entries, a lookup is independent of the order of the
rules exactly if the entries that decide it have one value. -/
theorem DecidedBy.order_iff {lookup : List (κ × α) → Option α} (rules : List ρ)
    {block : ρ → List (κ × α)} {value : ρ → α} (h : DecidedBy lookup (rules.flatMap block) P)
    (hblock : ∀ r, ∀ e ∈ block r, e.2 = value r) :
    (∀ rules' : List ρ, rules'.Perm rules →
      lookup (rules'.flatMap block) = lookup (rules.flatMap block)) ↔
    Agree P (rules.flatMap block) := by
  have hmem : ∀ {rules' : List ρ}, rules'.Perm rules →
      ∀ e, e ∈ rules'.flatMap block ↔ e ∈ rules.flatMap block :=
    fun hperm e => (hperm.flatMap_right block).mem_iff
  constructor
  · intro hsame
    -- the rule of an entry can be visited last
    have hlast : ∀ e ∈ rules.flatMap block, P e.1 → lookup (rules.flatMap block) = some e.2 := by
      intro e he hP
      obtain ⟨r,hr,her⟩ := List.mem_flatMap.mp he
      obtain ⟨as,bs,rfl⟩ := List.append_of_mem hr
      have hperm : (as++bs++[r]).Perm (as++r::bs) := by
        rw [List.append_assoc]
        exact (List.perm_append_singleton r bs).append_left as
      have hone : Agree P (block r) := fun x hx y hy _ _ =>
        (hblock r x hx).trans (hblock r y hy).symm
      rw [← hsame _ hperm,h _ (hmem hperm),List.flatMap_append,List.flatMap_singleton,
        lastWith_append her hP,lastWith_of_agree hone her hP]
    intro e he e' he' hP hP'
    exact Option.some.inj ((hlast e he hP).symm.trans (hlast e' he' hP'))
  · intro hagree rules' hperm
    rw [h _ (hmem hperm),h _ fun e => Iff.rfl]
    by_cases hex : ∃ e ∈ rules.flatMap block, P e.1
    · obtain ⟨e,he,hP⟩ := hex
      have hagree' : Agree P (rules'.flatMap block) := fun x hx y hy =>
        hagree x ((hmem hperm x).mp hx) y ((hmem hperm y).mp hy)
      rw [lastWith_of_agree hagree he hP,lastWith_of_agree hagree' ((hmem hperm e).mpr he) hP]
    · have hno : ∀ e ∈ rules.flatMap block, ¬ P e.1 := fun e he hP => hex ⟨e,he,hP⟩
      rw [lastWith_eq_none.mpr hno,lastWith_eq_none.mpr fun e he => hno e ((hmem hperm e).mp he)]

variable {β : Type} [DecidableEq β]

theorem filed_eq_lastWith (key : κ → Option (List β)) (log : List (κ × α)) (path : List β) :
    filed key log path = lastWith (fun k => key k = some path) log :=
  latest_congr fun _ _ => by simp

/-- The key is on the path, and no entry of the log has a longer one there. -/
def Longest (key : κ → Option (List β)) (log : List (κ × α)) (path : List β) (k : κ) : Prop :=
  ∃ q, key k = some q ∧ q <+: path ∧
    ∀ e ∈ log, ∀ q', key e.1 = some q' → q' <+: path → q'.length ≤ q.length

theorem deepest_decided (key : κ → Option (List β)) (log : List (κ × α)) (path : List β) :
    DecidedBy (fun log => deepest (filed key log) path none) log (Longest key log path) := by
  intro log' hmem
  dsimp only
  cases hv : deepest (filed key log') path none with
  | none =>
    have hnone := deepest_filed_eq_none.mp hv
    refine (lastWith_eq_none.mpr fun e he => ?_).symm
    rintro ⟨q,hq,hpath,-⟩
    exact hnone e he q hq hpath
  | some v =>
    obtain ⟨before,k,after,q,rfl,hk,hpath,hbefore,hafter⟩ := deepest_filed_eq_some.mp hv
    have hk' : (k,v) ∈ log := (hmem (k,v)).mp (by simp)
    have hmax : ∀ e ∈ log, ∀ q', key e.1 = some q' → q' <+: path → q'.length ≤ q.length := by
      intro e he q' hq' hpath'
      rcases List.mem_append.mp ((hmem e).mpr he) with he | he
      · exact hbefore e he q' hq' hpath'
      · rcases List.mem_cons.mp he with rfl | he
        · exact (Option.some.inj (hk.symm.trans hq')) ▸ le_rfl
        · exact (hafter e he q' hq' hpath').le
    refine (lastWith_eq_some.mpr ⟨before,k,after,rfl,⟨q,hk,hpath,hmax⟩,?_⟩).symm
    rintro e he ⟨q',hq',hpath',hlongest⟩
    exact absurd (hlongest (k,v) hk' q hk hpath) (not_le.mpr (hafter e he q' hq' hpath'))

/-- What is filed under one path comes before anything else. -/
theorem DecidedBy.or {lookup : List (κ × α) → Option α} (h : DecidedBy lookup log P)
    (key : κ → Option (List β)) (path : List β) :
    DecidedBy (fun log => (filed key log path).or (lookup log)) log fun k =>
      key k = some path ∨ ((∀ e ∈ log, key e.1 ≠ some path) ∧ P k) := by
  intro log' hmem
  dsimp only
  cases hv : filed key log' path with
  | none =>
    have hnone := filed_eq_none.mp hv
    rw [Option.none_or,h log' hmem]
    refine lastWith_congr fun e he => ?_
    rw [or_iff_right (hnone e he),and_iff_right fun e he => hnone e ((hmem e).mpr he)]
  | some v =>
    have hsome : ¬ ∀ e ∈ log, key e.1 ≠ some path := fun hall => by
      rw [filed_eq_none.mpr fun e he => hall e ((hmem e).mp he)] at hv
      simp at hv
    rw [Option.some_or,← hv,filed_eq_lastWith]
    refine lastWith_congr fun e _ => ?_
    rw [or_iff_left fun hP => hsome hP.1]

end Order

end PathLookup
end Enimul
