import Mathlib.Algebra.GroupWithZero.Nat
import Mathlib.Data.Nat.Count

/-! Choosing a position by weight.
A number below the sum of the weights falls into the share of exactly one position. Over any
interval of the length of the sum, the residues fall into the share of a position exactly as
often as its weight says. -/
namespace Enimul
namespace WeightedChoice

/-- The first position whose weight, with those before it, exceeds `t`. -/
def choose : List ℕ → ℕ → Option ℕ
  | [], _ => none
  | w::ws, t => if t < w then some 0 else (choose ws (t-w)).map (·+1)

variable {ws : List ℕ} {i t : ℕ}

theorem choose_of_lt (h : t < ws.sum) : ∃ i, choose ws t = some i := by
  induction ws generalizing t with
  | nil => simp at h
  | cons w ws ih =>
    rw [List.sum_cons] at h
    rw [choose]
    split
    · exact ⟨0,rfl⟩
    · obtain ⟨i,hi⟩ := ih (t := t-w) (by omega)
      exact ⟨i+1,by rw [hi]; rfl⟩

theorem choose_lt_length (h : choose ws t = some i) : i < ws.length := by
  induction ws generalizing t i with
  | nil => cases h
  | cons w ws ih =>
    rw [choose] at h
    split at h
    · cases h
      simp
    · obtain ⟨j,hj,rfl⟩ := Option.map_eq_some_iff.mp h
      simpa using ih hj

theorem choose_head {w : ℕ} (t : ℕ) : choose (w::ws) t = some 0 ↔ t < w := by
  rw [choose]
  by_cases ht : t < w
  · simp [ht]
  · cases choose ws (t-w) <;> simp [ht]

theorem choose_tail {w : ℕ} (t : ℕ) : choose (w::ws) (w+t) = some (i+1) ↔ choose ws t = some i := by
  rw [choose,if_neg (by omega),Nat.add_sub_cancel_left]
  cases choose ws t <;> simp

/-- As many numbers fall to a position as its weight says. -/
theorem count_choose (hi : i < ws.length) :
    Nat.count (fun t => choose ws t = some i) ws.sum = ws[i] := by
  induction ws generalizing i with
  | nil => simp at hi
  | cons w ws ih =>
    rw [List.sum_cons,Nat.count_add]
    cases i with
    | zero =>
      have hall : Nat.count (fun t => choose (w::ws) t = some 0) w = w :=
        Nat.count_of_forall fun t ht => (choose_head t).mpr ht
      have hnone : Nat.count (fun t => choose (w::ws) (w+t) = some 0) ws.sum = 0 :=
        Nat.count_iff_forall_not.mpr fun t _ h => by
          rw [choose_head] at h
          omega
      rw [hall,hnone]
      rfl
    | succ i =>
      have hnone : Nat.count (fun t => choose (w::ws) t = some (i+1)) w = 0 :=
        Nat.count_iff_forall_not.mpr fun t ht h => by
          rw [(choose_head t).mpr ht] at h
          cases h
      simp only [hnone,choose_tail,Nat.zero_add]
      exact ih (by simpa using hi)

/-- The residues of consecutive numbers, wherever they start. -/
theorem count_choose_mod (hi : i < ws.length) (start : ℕ) :
    Nat.count (fun k => choose ws ((start+k)%ws.sum) = some i) ws.sum = ws[i] := by
  have hcount : Nat.count (fun k => choose ws (k%ws.sum) = some i) ws.sum = ws[i] := by
    rw [← count_choose hi]
    refine le_antisymm (Nat.count_mono_left fun k hk h => ?_) (Nat.count_mono_left fun k hk h => ?_)
    · rwa [Nat.mod_eq_of_lt hk] at h
    · rwa [Nat.mod_eq_of_lt hk]
  have hleft := Nat.count_add (p := fun k => choose ws (k%ws.sum) = some i) start ws.sum
  have hright := Nat.count_add (p := fun k => choose ws (k%ws.sum) = some i) ws.sum start
  simp only [Nat.add_mod_left] at hright
  rw [Nat.add_comm] at hright
  omega

end WeightedChoice
end Enimul
