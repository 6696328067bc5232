import Mathlib.Data.Finset.Image
import Mathlib.Order.Interval.Finset.Nat

/-! The first free name of a sequence.
The names of the sequence are tried one after the other, until one is not taken. The sequence has
no name twice and the names that are taken are finitely many, so each name that is tried in vain
leaves fewer names that can be in the way. -/
namespace Enimul
namespace FirstFree

variable {α : Type*} [DecidableEq α] {f : ℕ → α} {taken : Finset α} {i : ℕ}

theorem card_untried_lt (hf : f.Injective) (h : f i ∈ taken) :
    (taken \ (Finset.range (i+1)).image f).card < (taken \ (Finset.range i).image f).card := by
  apply Finset.card_lt_card
  rw [Finset.ssubset_iff_of_subset]
  · refine ⟨f i,Finset.mem_sdiff.mpr ⟨h,?_⟩,?_⟩
    · intro hmem
      obtain ⟨j,hj,hij⟩ := Finset.mem_image.mp hmem
      exact (Finset.mem_range.mp hj).ne (hf hij)
    · intro hmem
      apply (Finset.mem_sdiff.mp hmem).2
      exact Finset.mem_image_of_mem f (Finset.self_mem_range_succ i)
  · apply Finset.sdiff_subset_sdiff le_rfl
    exact Finset.image_subset_image (Finset.range_mono (Nat.le_succ i))

/-- The index of the first name from the `i`-th on that is not taken. -/
def search (f : ℕ → α) (hf : f.Injective) (taken : Finset α) (i : ℕ) : ℕ :=
  if f i ∈ taken then search f hf taken (i+1) else i
termination_by (taken \ (Finset.range i).image f).card
decreasing_by exact card_untried_lt hf ‹_›

variable (hf : f.Injective)

theorem search_notMem (taken : Finset α) (i : ℕ) : f (search f hf taken i) ∉ taken := by
  fun_induction search f hf taken i with
  | case1 i htaken ih => exact ih
  | case2 i hfree => exact hfree

theorem le_search (taken : Finset α) (i : ℕ) : i ≤ search f hf taken i := by
  fun_induction search f hf taken i with
  | case1 i htaken ih => exact (Nat.le_succ i).trans ih
  | case2 i hfree => exact le_rfl

/-- The names before the first free one are all taken. -/
theorem mem_of_lt_search {j : ℕ} (hij : i ≤ j) (hj : j < search f hf taken i) : f j ∈ taken := by
  fun_induction search f hf taken i with
  | case1 i htaken ih =>
    rcases hij.eq_or_lt with rfl | hlt
    · exact htaken
    · exact ih hlt hj
  | case2 i hfree => exact absurd hj (not_lt.mpr hij)

/-- The search tries no more names than there are names in the way. -/
theorem search_le {s : Finset α} (hs : ∀ j, f j ∈ taken → f j ∈ s) (i : ℕ) :
    search f hf taken i ≤ i+s.card := by
  have hsub : (Finset.Ico i (search f hf taken i)).image f ⊆ s := by
    intro x hx
    obtain ⟨j,hj,rfl⟩ := Finset.mem_image.mp hx
    obtain ⟨hij,hlt⟩ := Finset.mem_Ico.mp hj
    exact hs j (mem_of_lt_search hf hij hlt)
  have hcard := Finset.card_le_card hsub
  rw [Finset.card_image_of_injective _ hf,Nat.card_Ico] at hcard
  omega

end FirstFree
end Enimul
