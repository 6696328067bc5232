import Mathlib.Algebra.Order.Ring.Int
import Mathlib.Data.List.Induction
import Mathlib.Data.List.TakeWhile

/-! The limit on how often the app switches the service.
A call that is let through is remembered for as long as the window lasts. The call that would be
one too many starts a cooldown and empties the queue, so the queue alone does not know all calls
of the last window; but what it has forgotten then is out of every window that ends after the
cooldown. -/
namespace Enimul
namespace ToggleCooldown

def maxAttempts : ℕ := 5
def windowMs : ℤ := 2000
def cooldownMs : ℤ := 3000

inductive Result
  | allowed
  | cooldownActive
  | cooldownStarted
  deriving DecidableEq, Repr

/-- The queue has its oldest entry in front. -/
structure State where
  attempts : List ℤ := []
  cooldownUntil : ℤ := 0
  deriving DecidableEq, Repr

/-- The loop that removes entries from the front. -/
def prune (now : ℤ) (attempts : List ℤ) : List ℤ :=
  attempts.dropWhile fun first => now-first > windowMs

/-- A call when the clock shows `now`. -/
def acquire (now : ℤ) (s : State) : Result × State :=
  if now < s.cooldownUntil then (.cooldownActive,s)
  else if (prune now s.attempts++[now]).length ≥ maxAttempts then
    (.cooldownStarted,{attempts := [], cooldownUntil := now+cooldownMs})
  else (.allowed,{s with attempts := prune now s.attempts++[now]})

def remainingMs (now : ℤ) (s : State) : ℤ :=
  if s.cooldownUntil-now > 0 then s.cooldownUntil-now else 0

/-- The calls at the given times with their results. -/
def calls : List ℤ → State → List (ℤ × Result)
  | [], _ => []
  | now::rest, s => (now,(acquire now s).1)::calls rest (acquire now s).2

/-- The state after the calls. -/
def after (ts : List ℤ) (s : State) : State := ts.foldl (fun s now => (acquire now s).2) s

section Steps

variable {now : ℤ} {s : State}

/-- The three ways in which a call can end. -/
theorem acquire_cases (now : ℤ) (s : State) :
    (now < s.cooldownUntil ∧ acquire now s = (.cooldownActive,s)) ∨
    (s.cooldownUntil ≤ now ∧ acquire now s = (.cooldownStarted,⟨[],now+cooldownMs⟩)) ∨
    (s.cooldownUntil ≤ now ∧ (prune now s.attempts++[now]).length < maxAttempts ∧
      acquire now s = (.allowed,⟨prune now s.attempts++[now],s.cooldownUntil⟩)) := by
  by_cases hcool : now < s.cooldownUntil
  · exact Or.inl ⟨hcool,if_pos hcool⟩
  · right
    rw [acquire,if_neg hcool]
    by_cases hmany : (prune now s.attempts++[now]).length ≥ maxAttempts
    · exact Or.inl ⟨not_lt.mp hcool,if_pos hmany⟩
    · exact Or.inr ⟨not_lt.mp hcool,not_le.mp hmany,if_neg hmany⟩

/-- What the app shows as the rest of a cooldown agrees with what a call would return. -/
theorem remainingMs_pos_iff : 0 < remainingMs now s ↔ (acquire now s).1 = .cooldownActive := by
  rw [remainingMs]
  rcases acquire_cases now s with ⟨hcool,h⟩ | ⟨hcool,h⟩ | ⟨hcool,-,h⟩
  · simp [h,hcool]
  · simp [h,not_lt.mpr hcool]
  · simp [h,not_lt.mpr hcool]

theorem calls_concat (ts : List ℤ) (now : ℤ) (s : State) :
    calls (ts++[now]) s = calls ts s++[(now,(acquire now (after ts s)).1)] := by
  induction ts generalizing s with
  | nil => rfl
  | cons t ts ih => simp [calls,after,ih]

theorem after_concat (ts : List ℤ) (now : ℤ) (s : State) :
    after (ts++[now]) s = (acquire now (after ts s)).2 := by
  simp [after]

/-- The values of the state are values of `Long`, with no sign. -/
structure Fits (s : State) : Prop where
  attempts : ∀ t ∈ s.attempts, 0 ≤ t ∧ t < 2^63
  cooldownUntil : 0 ≤ s.cooldownUntil ∧ s.cooldownUntil < 2^63

theorem Fits.acquire (h : Fits s) (hnow : 0 ≤ now ∧ now+cooldownMs < 2^63) :
    Fits (acquire now s).2 := by
  have hlong : 0 ≤ now ∧ now < 2^63 := ⟨hnow.1,by simp only [cooldownMs] at hnow; omega⟩
  rcases acquire_cases now s with ⟨-,heq⟩ | ⟨-,heq⟩ | ⟨-,-,heq⟩
  · rwa [heq]
  · rw [heq]
    exact ⟨by simp,by simp only [cooldownMs] at *; omega⟩
  · rw [heq]
    refine ⟨?_,h.cooldownUntil⟩
    intro t ht
    rcases List.mem_append.mp ht with ht | ht
    · exact h.attempts t ((List.dropWhile_suffix _).subset ht)
    · rwa [List.mem_singleton.mp ht]

/-- As long as the clock leaves room for a cooldown, no sum overflows. -/
theorem fits_after {ts : List ℤ} (h : ∀ t ∈ ts, 0 ≤ t ∧ t+cooldownMs < 2^63) :
    Fits (after ts {}) := by
  induction ts using List.reverseRecOn with
  | nil => exact ⟨by simp [after],by decide⟩
  | append_singleton ts now ih =>
    rw [after_concat]
    exact (ih fun t ht => h t (by simp [ht])).acquire (h now (by simp))

end Steps

section Cooldown

variable {past : List (ℤ × Result)} {s : State} {now : ℤ}

/-- No cooldown that a call has started ends before its time. -/
def Cooled (past : List (ℤ × Result)) (s : State) : Prop :=
  ∀ c ∈ past, c.2 = .cooldownStarted → c.1+cooldownMs ≤ s.cooldownUntil

/-- The end of a cooldown is only ever moved to a later time. -/
theorem cooldownUntil_le_acquire (now : ℤ) (s : State) :
    s.cooldownUntil ≤ (acquire now s).2.cooldownUntil := by
  rcases acquire_cases now s with ⟨-,heq⟩ | ⟨hcool,heq⟩ | ⟨-,-,heq⟩
  · rw [heq]
  · rw [heq]
    exact hcool.trans (Int.le_add_of_nonneg_right (by decide))
  · rw [heq]

theorem Cooled.acquire (h : Cooled past s) :
    Cooled (past++[(now,(acquire now s).1)]) (acquire now s).2 := by
  intro c hc hstarted
  rcases List.mem_append.mp hc with hc | hc
  · exact (h c hc hstarted).trans (cooldownUntil_le_acquire now s)
  · obtain rfl := List.mem_singleton.mp hc
    rcases acquire_cases now s with ⟨-,heq⟩ | ⟨-,heq⟩ | ⟨-,-,heq⟩
    · simp [heq] at hstarted
    · simp [heq]
    · simp [heq] at hstarted

theorem cooled_calls (ts : List ℤ) : Cooled (calls ts {}) (after ts {}) := by
  induction ts using List.reverseRecOn with
  | nil => exact fun _ hc => absurd hc (List.not_mem_nil)
  | append_singleton ts now ih =>
    rw [calls_concat,after_concat]
    exact ih.acquire

/-- After a call that starts a cooldown, no call is let through before its end. -/
theorem calls_cooldown (ts : List ℤ) : (calls ts {}).Pairwise fun c d =>
    c.2 = .cooldownStarted → d.1 < c.1+cooldownMs → d.2 ≠ .allowed := by
  induction ts using List.reverseRecOn with
  | nil => exact .nil
  | append_singleton ts now ih =>
    rw [calls_concat,List.pairwise_append]
    refine ⟨ih,List.pairwise_singleton _ _,?_⟩
    intro c hc d hd hstarted hbefore
    obtain rfl := List.mem_singleton.mp hd
    have hcool := hbefore.trans_le (cooled_calls ts c hc hstarted)
    rw [acquire,if_pos hcool]
    exact fun h => nomatch h

end Cooldown

section Window

variable {past : List (ℤ × Result)} {s : State} {now next : ℤ}

/-- The times of the calls that were let through. -/
def allowedTimes (past : List (ℤ × Result)) : List ℤ :=
  past.filterMap fun c => if c.2 = .allowed then some c.1 else none

@[simp] theorem allowedTimes_concat (past : List (ℤ × Result)) (t : ℤ) (r : Result) :
    allowedTimes (past++[(t,r)]) = allowedTimes past++if r = .allowed then [t] else [] := by
  cases r <;> simp [allowedTimes]

theorem countP_calls (past : List (ℤ × Result)) (p : ℤ → Bool) :
    past.countP (fun c => c.2 = .allowed ∧ p c.1) = (allowedTimes past).countP p := by
  induction past using List.reverseRecOn with
  | nil => rfl
  | append_singleton past c ih =>
    rw [List.countP_append,ih,allowedTimes_concat,List.countP_append]
    cases hc : c.2 <;> simp [hc]

/-- What the queue says of the calls before `now`. A call that was let through is in the queue, or
it is too old to share a window with a call that can still be let through. -/
structure Tracks (past : List (ℤ × Result)) (s : State) (now : ℤ) : Prop where
  times : ∀ t ∈ allowedTimes past, t ≤ now
  queued : ∃ old, allowedTimes past = old++s.attempts ∧
    ∀ t ∈ old, ∀ next, now ≤ next → s.cooldownUntil ≤ next → t+windowMs < next

theorem Tracks.mono (h : Tracks past s now) (hle : now ≤ next) : Tracks past s next := by
  obtain ⟨old,hsplit,hold⟩ := h.queued
  refine ⟨fun t ht => (h.times t ht).trans hle,old,hsplit,?_⟩
  exact fun t ht later hlater => hold t ht later (hle.trans hlater)

/-- The entries that are removed are older than the window. -/
theorem prune_split (now : ℤ) (attempts : List ℤ) :
    ∃ old, attempts = old++prune now attempts ∧ ∀ t ∈ old, t+windowMs < now := by
  refine ⟨attempts.takeWhile fun first => now-first > windowMs,
    List.takeWhile_append_dropWhile.symm,?_⟩
  intro t ht
  have hold := List.mem_takeWhile_imp ht
  simp only [gt_iff_lt,decide_eq_true_eq] at hold
  omega

theorem Tracks.acquire (h : Tracks past s now) :
    Tracks (past++[(now,(acquire now s).1)]) (acquire now s).2 now := by
  obtain ⟨old,hsplit,hold⟩ := h.queued
  rcases acquire_cases now s with ⟨-,heq⟩ | ⟨-,heq⟩ | ⟨-,-,heq⟩
  · rw [heq]
    exact ⟨by simpa using h.times,old,by simpa using hsplit,hold⟩
  · rw [heq]
    refine ⟨by simpa using h.times,allowedTimes past,by simp,?_⟩
    -- the queue is emptied, but the cooldown outlasts the window
    intro t ht later _ huntil
    have htime := h.times t ht
    simp only [cooldownMs,windowMs] at *
    omega
  · rw [heq]
    obtain ⟨pruned,hprune,hpruned⟩ := prune_split now s.attempts
    refine ⟨by simpa [or_imp,forall_and] using h.times,old++pruned,?_,?_⟩
    · rw [allowedTimes_concat,hsplit,if_pos rfl]
      calc old++s.attempts++[now]
        _ = old++(pruned++prune now s.attempts)++[now] := by rw [← hprune]
        _ = old++pruned++(prune now s.attempts++[now]) := by simp only [List.append_assoc]
    · intro t ht later hlater huntil
      rcases List.mem_append.mp ht with ht | ht
      · exact hold t ht later hlater huntil
      · exact (hpruned t ht).trans_le hlater

theorem tracks_calls {ts : List ℤ} (h : ts.Pairwise (· ≤ ·)) (hle : ∀ t ∈ ts, t ≤ now) :
    Tracks (calls ts {}) (after ts {}) now := by
  induction ts using List.reverseRecOn generalizing now with
  | nil => exact ⟨by simp [calls,allowedTimes],[],rfl,by simp⟩
  | append_singleton ts t ih =>
    rw [List.pairwise_append] at h
    rw [calls_concat,after_concat]
    exact (ih h.1 fun u hu => h.2.2 u hu t (by simp)).acquire.mono (hle t (by simp))

/-- A window with the call that is let through now holds calls of the queue only. -/
theorem Tracks.window_le (h : Tracks past s now) (hcool : s.cooldownUntil ≤ now) {start : ℤ}
    (hwindow : now ≤ start+windowMs) :
    (allowedTimes past).countP (fun t => start ≤ t ∧ t ≤ start+windowMs) ≤ s.attempts.length := by
  obtain ⟨old,hsplit,hold⟩ := h.queued
  have hnone : old.countP (fun t => start ≤ t ∧ t ≤ start+windowMs) = 0 := by
    rw [List.countP_eq_zero]
    intro t ht
    have := hold t ht now le_rfl hcool
    simp only [decide_eq_true_eq,not_and]
    omega
  rw [hsplit,List.countP_append,hnone,Nat.zero_add]
  exact List.countP_le_length

theorem calls_window {ts : List ℤ} (h : ts.Pairwise (· ≤ ·)) (start : ℤ) :
    (allowedTimes (calls ts {})).countP (fun t => start ≤ t ∧ t ≤ start+windowMs) <
      maxAttempts := by
  induction ts using List.reverseRecOn with
  | nil => exact Nat.zero_lt_succ 4
  | append_singleton ts now ih =>
    have hparts := List.pairwise_append.mp h
    have htracks := (tracks_calls hparts.1 fun t ht => hparts.2.2 t ht now (by simp)).acquire
    have hbefore := ih hparts.1
    rw [calls_concat]
    rcases acquire_cases now (after ts {}) with ⟨-,heq⟩ | ⟨-,heq⟩ | ⟨hcool,hfew,heq⟩
    · simpa [heq] using hbefore
    · simpa [heq] using hbefore
    · by_cases hin : start ≤ now ∧ now ≤ start+windowMs
      · rw [heq] at htracks ⊢
        exact (htracks.window_le hcool hin.2).trans_lt hfew
      · simpa [heq,hin] using hbefore

/-- No window of two seconds holds more than four calls that are let through, and none is let
through within three seconds of the start of a cooldown. -/
theorem acquire_limited (ts : List ℤ) (h : ts.Pairwise (· ≤ ·)) :
    (∀ start, (calls ts {}).countP
      (fun c => c.2 = .allowed ∧ start ≤ c.1 ∧ c.1 ≤ start+2000) ≤ 4) ∧
    (calls ts {}).Pairwise fun c d =>
      c.2 = .cooldownStarted → d.1 < c.1+3000 → d.2 ≠ .allowed := by
  refine ⟨fun start => ?_,calls_cooldown ts⟩
  have hcount := countP_calls (calls ts {}) fun t => start ≤ t ∧ t ≤ start+windowMs
  simp only [decide_eq_true_eq] at hcount
  rw [← windowMs,hcount]
  exact Nat.le_of_lt_succ (calls_window h start)

theorem acquire_limited_burst :
    calls [100,500,900,2100,2100,2200,5100] {} =
      [(100,.allowed),(500,.allowed),(900,.allowed),(2100,.allowed),(2100,.cooldownStarted),
        (2200,.cooldownActive),(5100,.allowed)] ∧
    ∀ start, (calls [100,500,900,2100,2100,2200,5100] {}).countP
      (fun c => c.2 = .allowed ∧ start ≤ c.1 ∧ c.1 ≤ start+2000) ≤ 4 :=
  ⟨by decide,(acquire_limited [100,500,900,2100,2100,2200,5100] (by decide)).1⟩

end Window

end ToggleCooldown
end Enimul
