import Mathlib.Algebra.BigOperators.Group.List.Basic
import Mathlib.Algebra.GroupWithZero.Nat
import Mathlib.Algebra.Order.Group.Nat
import Mathlib.Data.List.Basic

/-! A log in segments.
Entries are added to the newest segment. When an entry does not fit any more, a new segment is
begun, and of the others only so many are kept. The list of segments has the newest one in
front. -/
namespace Enimul
namespace SegmentedLog

variable {α : Type*} {x : α} {gs : List (List α)}

/-- Begin a segment and keep the `k` newest ones behind it. -/
def rotate (k : ℕ) (gs : List (List α)) : List (List α) := []::gs.take k

/-- Add an entry to the newest segment, which is begun if there is none. -/
def push (x : α) : List (List α) → List (List α)
  | [] => [[x]]
  | g::gs => (g++[x])::gs

/-- The newest segment is begun, if there is none. -/
def begun (gs : List (List α)) : List (List α) := gs.headD []::gs.tail

/-- The entries that are still there, in the order in which they came. -/
def kept (gs : List (List α)) : List α := gs.reverse.flatten

@[simp] theorem kept_nil : kept ([] : List (List α)) = [] := rfl

@[simp] theorem kept_cons (g : List α) (gs : List (List α)) : kept (g::gs) = kept gs++g := by
  simp [kept]

theorem kept_push (x : α) (gs : List (List α)) : kept (push x gs) = kept gs++[x] := by
  cases gs with
  | nil => rfl
  | cons g gs => simp [push]

theorem begun_of_ne_nil (h : gs ≠ []) : begun gs = gs := by
  cases gs with
  | nil => exact absurd rfl h
  | cons g gs => rfl

theorem kept_eq_of_length_le (h : gs.length ≤ 4) :
    kept gs = gs[3]?.getD []++gs[2]?.getD []++gs[1]?.getD []++gs[0]?.getD [] := by
  match gs, h with
  | [], _ => rfl
  | [_], _ => simp
  | [_,_], _ => simp
  | [_,_,_], _ => simp
  | [_,_,_,_], _ => simp

theorem kept_take (k : ℕ) (gs : List (List α)) : kept (gs.take k) <:+ kept gs := by
  refine ⟨kept (gs.drop k),?_⟩
  rw [kept,kept,kept,← List.flatten_append,← List.reverse_append,List.take_append_drop]

theorem length_push_le {n : ℕ} (h : gs.length ≤ n+1) : (push x gs).length ≤ n+1 := by
  cases gs with
  | nil => exact Nat.succ_le_succ (Nat.zero_le n)
  | cons g gs => exact h

section Limit

variable (size : α → ℕ) (limit k : ℕ)

def total (g : List α) : ℕ := (g.map size).sum

/-- An entry of size `n` that does not fit begins a new segment, unless the newest one is
empty. -/
def makeRoom (n : ℕ) (gs : List (List α)) : List (List α) :=
  if 0 < total size (gs.headD []) ∧ limit < total size (gs.headD [])+n then rotate k gs else gs

def write (x : α) (gs : List (List α)) : List (List α) :=
  push x (makeRoom size limit k (size x) gs)

/-- A segment is within the limit or has a single entry. -/
def Within (g : List α) : Prop := total size g ≤ limit ∨ ∃ x, g = [x]

/-- The segments hold the last entries, and all of them as long as a segment is free. -/
structure Records (entries : List α) (gs : List (List α)) : Prop where
  suffix : kept gs <:+ entries
  within : ∀ g ∈ gs, Within size limit g
  length_le : gs.length ≤ k+1
  all : gs.length ≤ k → kept gs = entries
  pos : ∀ x ∈ entries, 0 < size x

variable {size limit k} {entries : List α}

@[simp] theorem total_nil : total size [] = 0 := rfl

@[simp] theorem total_concat (g : List α) (x : α) : total size (g++[x]) = total size g+size x := by
  simp [total]

theorem Within.push (hrest : ∀ g ∈ gs, Within size limit g)
    (hhead : Within size limit (gs.headD []++[x])) :
    ∀ g ∈ SegmentedLog.push x gs, Within size limit g := by
  cases gs with
  | nil => simpa [SegmentedLog.push] using hhead
  | cons g gs =>
    intro g' hg'
    rcases List.mem_cons.mp hg' with rfl | hg'
    · exact hhead
    · exact hrest g' (List.mem_cons_of_mem _ hg')

theorem eq_nil_of_total {g : List α} (hpos : ∀ x ∈ g, 0 < size x) (h : total size g = 0) :
    g = [] := by
  cases g with
  | nil => rfl
  | cons x g =>
    have hx := hpos x List.mem_cons_self
    simp only [total,List.map_cons,List.sum_cons] at h
    omega

theorem Records.start : Records size limit k [] [] :=
  ⟨List.suffix_rfl,by simp,Nat.zero_le _,fun _ => rfl,by simp⟩

theorem Records.head_pos (h : Records size limit k entries gs) :
    ∀ x ∈ gs.headD [], 0 < size x := by
  intro x hx
  apply h.pos x
  apply h.suffix.subset
  cases gs with
  | nil => cases hx
  | cons g gs => simpa using Or.inr hx

theorem Records.rotate (h : Records size limit k entries gs) :
    Records size limit k entries (rotate k gs) where
  suffix := by
    rw [SegmentedLog.rotate,kept_cons,List.append_nil]
    exact (kept_take k gs).trans h.suffix
  within g hg := by
    rcases List.mem_cons.mp hg with rfl | hg
    · exact Or.inl (Nat.zero_le _)
    · exact h.within g (List.mem_of_mem_take hg)
  length_le := by simp [SegmentedLog.rotate]
  all hlen := by
    have hshort : gs.length ≤ k := by
      simp only [SegmentedLog.rotate,List.length_cons,List.length_take] at hlen
      omega
    rw [SegmentedLog.rotate,kept_cons,List.append_nil,List.take_of_length_le hshort]
    exact h.all hshort
  pos := h.pos

theorem Records.push (h : Records size limit k entries gs) (hx : 0 < size x)
    (hhead : Within size limit (gs.headD []++[x])) :
    Records size limit k (entries++[x]) (push x gs) where
  suffix := by
    obtain ⟨lost,hlost⟩ := h.suffix
    exact ⟨lost,by rw [kept_push,← List.append_assoc,hlost]⟩
  within := Within.push h.within hhead
  length_le := length_push_le h.length_le
  all hlen := by
    have hshort : gs.length ≤ k := by
      cases gs with
      | nil => exact Nat.zero_le k
      | cons g gs => exact hlen
    rw [kept_push,h.all hshort]
  pos y hy := by
    rcases List.mem_append.mp hy with hy | hy
    · exact h.pos y hy
    · rwa [List.mem_singleton.mp hy]

/-- The newest entry is the last one of the newest segment. -/
theorem write_eq_cons (size : α → ℕ) (limit k : ℕ) (x : α) (gs : List (List α)) :
    ∃ g rest, write size limit k x gs = (g++[x])::rest := by
  rw [write]
  cases makeRoom size limit k (size x) gs with
  | nil => exact ⟨[],[],rfl⟩
  | cons g rest => exact ⟨g,rest,rfl⟩

/-- It makes no difference to a write whether the newest segment is begun before. -/
theorem write_begun (x : α) (gs : List (List α)) :
    write size limit k x (begun gs) = write size limit k x gs := by
  cases gs with
  | nil => simp [write,makeRoom,begun,push]
  | cons g gs => rfl

theorem Records.write (h : Records size limit k entries gs) (hx : 0 < size x) :
    Records size limit k (entries++[x]) (write size limit k x gs) := by
  rw [SegmentedLog.write,makeRoom]
  split
  · exact h.rotate.push hx (Or.inr ⟨x,rfl⟩)
  · rename_i hfits
    apply h.push hx
    -- an entry alone may be larger than the limit
    by_cases hempty : total size (gs.headD []) = 0
    · rw [eq_nil_of_total h.head_pos hempty]
      exact Or.inr ⟨x,rfl⟩
    · left
      rw [total_concat]
      omega

end Limit

end SegmentedLog
end Enimul
