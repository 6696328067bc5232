import Enimul.GoSlice

/-! Programs over a state that may return an error.
The state is what the program shares with the rest of the world; an error leaves the
state as the failed call left it. A `Proc` may also run into a fault. -/
namespace Enimul
namespace GoRun

def Run (σ α : Type) := σ → Except String α × σ

variable {σ α β : Type}

def ret (a : α) : Run σ α := fun s => (.ok a,s)

def andThen (m : Run σ α) (f : α → Run σ β) : Run σ β := fun s =>
  match m s with
  | (.ok a,s₁) => f a s₁
  | (.error err,s₁) => (.error err,s₁)

instance : Monad (Run σ) where
  pure := ret
  bind := andThen

def fail (err : String) : Run σ α := fun s => (.error err,s)

/-- A call that cannot fail. -/
def call (f : σ → α × σ) : Run σ α := fun s => (.ok (f s).1,(f s).2)

def ofExcept (r : Except String α) : Run σ α := fun s => (r,s)

/-- Put the operation in front of its error. -/
def withStr (op : String) (m : Run σ α) : Run σ α := fun s =>
  match m s with
  | (.error err,s₁) => (.error (op ++ ": " ++ err),s₁)
  | r => r

@[simp] theorem pure_run (a : α) (s : σ) : (pure a : Run σ α) s = (.ok a,s) := rfl

theorem andThen_assoc {γ : Type} (m : Run σ α) (f : α → Run σ β) (g : β → Run σ γ) :
    andThen (andThen m f) g = andThen m fun a => andThen (f a) g := by
  funext s
  simp only [andThen]
  cases hm : m s with
  | mk r s₁ => cases r <;> rfl

instance : LawfulMonad (Run σ) :=
  LawfulMonad.mk' (Run σ)
    (by
      intro α m
      funext s
      change andThen m ret s = m s
      rw [andThen]
      cases hm : m s with
      | mk r s₁ => cases r <;> rfl)
    (fun _ _ => rfl) andThen_assoc

/-- A sequence returns a value only if both of its parts do. -/
theorem bind_ok {m : Run σ α} {f : α → Run σ β} {s s₂ : σ} {b : β}
    (h : (m >>= f) s = (.ok b,s₂)) :
    ∃ a s₁, m s = (.ok a,s₁) ∧ f a s₁ = (.ok b,s₂) := by
  change andThen m f s = _ at h
  rw [andThen] at h
  split at h
  · rename_i a s₁ hm
    exact ⟨a,s₁,hm,h⟩
  · simp at h

theorem bind_of_ok {m : Run σ α} {f : α → Run σ β} {s s₁ : σ} {a : α} (h : m s = (.ok a,s₁)) :
    (m >>= f) s = f a s₁ := by
  change andThen m f s = _
  rw [andThen,h]

theorem bind_of_error {m : Run σ α} {f : α → Run σ β} {s s₁ : σ} {err : String}
    (h : m s = (.error err,s₁)) : (m >>= f) s = (.error err,s₁) := by
  change andThen m f s = _
  rw [andThen,h]

theorem withStr_ok {op : String} {m : Run σ α} {s s₁ : σ} {a : α}
    (h : withStr op m s = (.ok a,s₁)) : m s = (.ok a,s₁) := by
  rw [withStr] at h
  split at h
  · simp at h
  · exact h

/-- The program leaves the state alone. -/
def Keeps (m : Run σ α) : Prop := ∀ s, (m s).2 = s

theorem Keeps.pure (a : α) : Keeps (Pure.pure a : Run σ α) := fun _ => rfl

theorem Keeps.fail (err : String) : Keeps (fail err : Run σ α) := fun _ => rfl

theorem Keeps.ofExcept (r : Except String α) : Keeps (ofExcept r : Run σ α) := fun _ => rfl

theorem Keeps.run {m : Run σ α} (h : Keeps m) (s : σ) : m s = ((m s).1,s) := Prod.ext rfl (h s)

theorem Keeps.withStr {m : Run σ α} (h : Keeps m) (op : String) : Keeps (withStr op m) := by
  intro s
  have hs := h s
  rw [GoRun.withStr]
  cases hm : m s with
  | mk r s₁ =>
    rw [hm] at hs
    cases r <;> exact hs

theorem Keeps.bind {m : Run σ α} {f : α → Run σ β} (hm : Keeps m) (hf : ∀ a, Keeps (f a)) :
    Keeps (m >>= f) := by
  intro s
  have hrun := hm.run s
  cases hr : (m s).1 with
  | ok a =>
    rw [hr] at hrun
    rw [bind_of_ok hrun]
    exact hf a s
  | error err =>
    rw [hr] at hrun
    rw [bind_of_error hrun]

section Ensures

variable {I : σ → Prop} {Q : α → Prop} {R : β → Prop} {m : Run σ α}

/-- Started in a state with the invariant `I`, the program keeps it, and a value that it
returns satisfies `Q`. -/
def Ensures (I : σ → Prop) (m : Run σ α) (Q : α → Prop) : Prop :=
  ∀ s, I s → I (m s).2 ∧ ∀ a, (m s).1 = .ok a → Q a

theorem Ensures.pure {a : α} (h : Q a) : Ensures I (Pure.pure a : Run σ α) Q :=
  fun _ hs => ⟨hs,fun _ hb => Except.ok.inj hb ▸ h⟩

theorem Ensures.fail (err : String) : Ensures I (fail err : Run σ α) Q :=
  fun _ hs => ⟨hs,fun _ hb => by cases hb⟩

theorem Ensures.bind {f : α → Run σ β} (hm : Ensures I m Q) (hf : ∀ a, Q a → Ensures I (f a) R) :
    Ensures I (m >>= f) R := by
  intro s hs
  obtain ⟨hkept,hvalue⟩ := hm s hs
  change I (andThen m f s).2 ∧ _
  cases hrun : m s with
  | mk r s₁ =>
    rw [hrun] at hkept hvalue
    cases r with
    | ok a =>
      have hrest := hf a (hvalue a rfl) s₁ hkept
      rw [bind_of_ok hrun]
      simpa only [andThen,hrun] using hrest
    | error err =>
      rw [bind_of_error hrun]
      simp only [andThen,hrun]
      exact ⟨hkept,fun _ hb => by cases hb⟩

theorem Ensures.withStr (h : Ensures I m Q) (op : String) : Ensures I (withStr op m) Q := by
  intro s hs
  obtain ⟨hkept,hvalue⟩ := h s hs
  rw [GoRun.withStr]
  cases hrun : m s with
  | mk r s₁ =>
    rw [hrun] at hkept hvalue
    cases r with
    | ok a => exact ⟨hkept,hvalue⟩
    | error err => exact ⟨hkept,fun _ hb => by cases hb⟩

theorem Ensures.ofExcept {r : Except String α} (h : ∀ a, r = .ok a → Q a) :
    Ensures I (ofExcept r : Run σ α) Q := fun _ hs => ⟨hs,h⟩

theorem Ensures.call {f : σ → α × σ} (h : ∀ s, I s → I (f s).2 ∧ Q (f s).1) :
    Ensures I (call f) Q := by
  intro s hs
  obtain ⟨hkept,hvalue⟩ := h s hs
  exact ⟨hkept,fun _ hb => Except.ok.inj hb ▸ hvalue⟩

/-- A last step that is taken only if what comes before it succeeds. -/
theorem Ensures.bind_call {J : σ → Prop} {f : σ → β × σ} {s : σ} (hm : Ensures I m Q)
    (herr : ∀ s, I s → J s) (hf : ∀ s, I s → J (f s).2) (hs : I s) :
    J ((m >>= fun _ => GoRun.call f) s).2 := by
  have hkept := (hm s hs).1
  cases hrun : m s with
  | mk r s₁ =>
    rw [hrun] at hkept
    cases r with
    | ok a =>
      rw [bind_of_ok hrun]
      exact hf s₁ hkept
    | error err =>
      rw [bind_of_error hrun]
      exact herr s₁ hkept

theorem Ensures.mono {Q' : α → Prop} (h : Ensures I m Q) (himp : ∀ a, Q a → Q' a) :
    Ensures I m Q' :=
  fun s hs => ⟨(h s hs).1,fun a ha => himp a ((h s hs).2 a ha)⟩

end Ensures

/-- `bind_ok` for a sequence without a state. -/
theorem except_bind_ok {ε : Type} {m : Except ε α} {f : α → Except ε β} {b : β}
    (h : (m >>= f) = .ok b) : ∃ a, m = .ok a ∧ f a = .ok b := by
  cases m with
  | error err => simp [bind,Except.bind] at h
  | ok a => exact ⟨a,rfl,h⟩

theorem except_bind_of_ok {ε : Type} {m : Except ε α} {f : α → Except ε β} {a : α}
    {r : Except ε β} (hm : m = .ok a) (hf : f a = r) : (m >>= f) = r := by
  rw [hm]
  exact hf

theorem except_bind_exists {ε : Type} {m : Except ε α} {f : α → Except ε β}
    (hm : ∃ a, m = .ok a) (hf : ∀ a, ∃ b, f a = .ok b) : ∃ b, (m >>= f) = .ok b := by
  obtain ⟨a,rfl⟩ := hm
  exact hf a

def Proc (σ α : Type) := σ → GoSlice.Checked (Except String α × σ)

namespace Proc

def andThen (m : Proc σ α) (f : α → Proc σ β) : Proc σ β := fun s =>
  match m s with
  | .error fault => .error fault
  | .ok (.error err,s₁) => .ok (.error err,s₁)
  | .ok (.ok a,s₁) => f a s₁

instance : Monad (Proc σ) where
  pure a := fun s => .ok (.ok a,s)
  bind := andThen

def ofExcept (r : Except String α) : Proc σ α := fun s => .ok (r,s)

def withStr (op : String) (m : Proc σ α) : Proc σ α := fun s =>
  match m s with
  | .ok (.error err,s₁) => .ok (.error (op ++ ": " ++ err),s₁)
  | r => r

theorem bind_run {m : Proc σ α} {f : α → Proc σ β} {s s₁ : σ} {a : α} (h : m s = .ok (.ok a,s₁)) :
    (m >>= f) s = f a s₁ := by
  change andThen m f s = _
  rw [andThen,h]

theorem bind_error {m : Proc σ α} {f : α → Proc σ β} {s s₁ : σ} {err : String}
    (h : m s = .ok (.error err,s₁)) : (m >>= f) s = .ok (.error err,s₁) := by
  change andThen m f s = _
  rw [andThen,h]

/-- A sequence returns a value only if both of its parts do. -/
theorem bind_ok {m : Proc σ α} {f : α → Proc σ β} {s s₂ : σ} {b : β}
    (h : (m >>= f) s = .ok (.ok b,s₂)) :
    ∃ a s₁, m s = .ok (.ok a,s₁) ∧ f a s₁ = .ok (.ok b,s₂) := by
  change andThen m f s = _ at h
  rw [andThen] at h
  split at h
  · simp at h
  · simp at h
  · rename_i a s₁ hm
    exact ⟨a,s₁,hm,h⟩

section Related

variable {γ δ : Type} {R : α → β → Prop} {S : γ → δ → Prop} {m : Proc σ α} {m' : Proc σ β}

/-- Two results that end alike: in the same fault, or in the same state with the same error
or with related values. -/
inductive Alike (R : α → β → Prop) :
    GoSlice.Checked (Except String α × σ) → GoSlice.Checked (Except String β × σ) → Prop
  | faulted (fault : GoSlice.Fault) : Alike R (.error fault) (.error fault)
  | failed (err : String) (s : σ) : Alike R (.ok (.error err,s)) (.ok (.error err,s))
  | returned {a : α} {b : β} (h : R a b) (s : σ) : Alike R (.ok (.ok a,s)) (.ok (.ok b,s))

def Related (R : α → β → Prop) (m : Proc σ α) (m' : Proc σ β) : Prop := ∀ s, Alike R (m s) (m' s)

theorem Related.refl (m : Proc σ α) : Related Eq m m := by
  intro s
  rcases m s with fault | ⟨err | a,s₁⟩
  · exact .faulted fault
  · exact .failed err s₁
  · exact .returned rfl s₁

theorem Related.pure {a : α} {b : β} (h : R a b) :
    Related R (Pure.pure a : Proc σ α) (Pure.pure b) := fun s => .returned h s

theorem Related.bind {f : α → Proc σ γ} {f' : β → Proc σ δ} (hm : Related R m m')
    (hf : ∀ a b, R a b → Related S (f a) (f' b)) : Related S (m >>= f) (m' >>= f') := by
  intro s
  change Alike S (andThen m f s) (andThen m' f' s)
  have hs := hm s
  rw [andThen,andThen]
  generalize m s = r at hs ⊢
  generalize m' s = r' at hs ⊢
  cases hs with
  | faulted fault => exact .faulted fault
  | failed err s₁ => exact .failed err s₁
  | returned h s₁ => exact hf _ _ h s₁

theorem Related.ok (h : Related R m m') {s s₁ : σ} {a : α} (hr : m s = .ok (.ok a,s₁)) :
    ∃ b, m' s = .ok (.ok b,s₁) ∧ R a b := by
  have hs := h s
  rw [hr] at hs
  generalize m' s = r' at hs ⊢
  cases hs with
  | @returned a b hab s₁ => exact ⟨b,rfl,hab⟩

end Related

end Proc

end GoRun
end Enimul
