import Enimul.GoSlice

/-! Programs that act on a peer.
An action sends events to a peer that may refuse any of them, depending on all it
has accepted before. A run ends in a fault, in an error after a refusal, or in a
value, and it leaves the log of accepted events. `Emits` fixes the events of an
action once for every peer. -/
namespace Enimul
namespace PeerProgram

open GoSlice

/-- `answer log e` is the error with which `e` is refused after `log`. -/
structure Peer (E : Type) where
  answer : List E → E → Option String
  log : List E

def Act (E α : Type) := Peer E → Checked (Except String α × Peer E)

section Programs

variable {E α β : Type}

def ret (a : α) : Act E α := fun p => .ok (.ok a,p)

def andThen (m : Act E α) (f : α → Act E β) : Act E β := fun p =>
  match m p with
  | .error fault => .error fault
  | .ok (.error err,q) => .ok (.error err,q)
  | .ok (.ok a,q) => f a q

instance : Monad (Act E) where
  pure := ret
  bind := andThen

def fromChecked (c : Checked α) : Act E α := fun p =>
  match c with
  | .error fault => .error fault
  | .ok a => .ok (.ok a,p)

def perform (e : E) : Act E Unit := fun p =>
  match p.answer p.log e with
  | none => .ok (.ok (),{p with log := p.log++[e]})
  | some err => .ok (.error err,p)

/-- Prefix the error of an action with the operation that failed. -/
def withStr (op : String) (m : Act E α) : Act E α := fun p =>
  match m p with
  | .ok (.error err,q) => .ok (.error (op ++ ": " ++ err),q)
  | r => r

/-- Run an action and hand its error to the caller. -/
def attempt (m : Act E α) : Act E (Except String α) := fun p =>
  match m p with
  | .error fault => .error fault
  | .ok (r,q) => .ok (.ok r,q)

def forEach (f : α → Act E Unit) : List α → Act E Unit
  | [] => pure ()
  | a::as => do
    f a
    forEach f as

end Programs

variable {E α β : Type}

def push (p : Peer E) (es : List E) : Peer E := {p with log := p.log++es}

@[simp] theorem push_nil (p : Peer E) : push p [] = p := by simp [push]
@[simp] theorem push_push (p : Peer E) (es fs : List E) : push (push p es) fs = push p (es++fs) := by
  simp [push]
@[simp] theorem push_log (p : Peer E) (es : List E) : (push p es).log = p.log++es := rfl

/-- The peer accepts these events, one after the other. -/
def Accepts (p : Peer E) : List E → Prop
  | [] => True
  | e::es => p.answer p.log e = none ∧ Accepts (push p [e]) es

/-- A peer that never refuses. -/
def Reliable (p : Peer E) : Prop := ∀ log e, p.answer log e = none

theorem accepts_append (p : Peer E) (es fs : List E) :
    Accepts p (es++fs) ↔ Accepts p es ∧ Accepts (push p es) fs := by
  induction es generalizing p with
  | nil => simp [Accepts]
  | cons e es ih => simp [Accepts,ih,and_assoc]

theorem Reliable.accepts {p : Peer E} (h : Reliable p) (es : List E) : Accepts p es := by
  induction es generalizing p with
  | nil => trivial
  | cons e es ih => exact ⟨h _ _,ih (p := push p [e]) h⟩

theorem Reliable.push {p : Peer E} (h : Reliable p) (es : List E) : Reliable (push p es) := h

/-- On a peer that accepts `es` the action sends exactly `es` and returns `a`; on any
other peer it returns an error. It never faults. -/
def Emits (m : Act E α) (es : List E) (a : α) : Prop :=
  ∀ p, (Accepts p es → m p = .ok (.ok a,push p es)) ∧
    (¬ Accepts p es → ∃ err q, m p = .ok (.error err,q))

namespace Emits

theorem pure (a : α) : Emits (pure a : Act E α) [] a :=
  fun p => ⟨fun _ => by simp [Pure.pure,ret],fun h => absurd trivial h⟩

theorem fromChecked {c : Checked α} {a : α} (h : c = .ok a) :
    Emits (fromChecked c : Act E α) [] a :=
  fun p => ⟨fun _ => by simp [PeerProgram.fromChecked,h],fun hn => absurd trivial hn⟩

theorem perform (e : E) : Emits (perform e) [e] () := by
  intro p
  cases h : p.answer p.log e with
  | none => exact ⟨fun _ => by simp [PeerProgram.perform,h,PeerProgram.push],fun hn => absurd ⟨h,trivial⟩ hn⟩
  | some err =>
    refine ⟨fun ha => ?_,fun _ => ⟨err,p,by simp [PeerProgram.perform,h]⟩⟩
    have hr := ha.1
    simp [h] at hr

theorem withStr {m : Act E α} {es : List E} {a : α} (op : String) (h : Emits m es a) :
    Emits (withStr op m) es a := by
  intro p
  refine ⟨fun ha => by simp [PeerProgram.withStr,(h p).1 ha],fun hn => ?_⟩
  obtain ⟨err,q,he⟩ := (h p).2 hn
  exact ⟨op ++ ": " ++ err,q,by simp [PeerProgram.withStr,he]⟩

theorem bind {m : Act E α} {f : α → Act E β} {es fs : List E} {a : α} {b : β}
    (hm : Emits m es a) (hf : Emits (f a) fs b) : Emits (m >>= f) (es++fs) b := by
  intro p
  change (Accepts p (es++fs) → andThen m f p = _) ∧ (_ → ∃ err q, andThen m f p = _)
  by_cases ha : Accepts p es
  · have hr := (hm p).1 ha
    obtain ⟨hok,herr⟩ := hf (PeerProgram.push p es)
    refine ⟨fun h => ?_,fun hn => ?_⟩
    · simp [andThen,hr,hok ((accepts_append p es fs).mp h).2]
    · obtain ⟨err,q,he⟩ := herr fun h => hn ((accepts_append p es fs).mpr ⟨ha,h⟩)
      exact ⟨err,q,by simp [andThen,hr,he]⟩
  · refine ⟨fun h => absurd ((accepts_append p es fs).mp h).1 ha,fun _ => ?_⟩
    obtain ⟨err,q,he⟩ := (hm p).2 ha
    exact ⟨err,q,by simp [andThen,he]⟩

theorem checked {c : Checked α} {f : α → Act E β} {es : List E} {a : α} {b : β} (hc : c = .ok a)
    (hf : Emits (f a) es b) : Emits (PeerProgram.fromChecked c >>= f) es b :=
  bind (fromChecked hc) hf

/-- A loop emits the events of its rounds, in order. -/
theorem forEach {f : α → Act E Unit} {g : α → List E} {as : List α}
    (h : ∀ a ∈ as, Emits (f a) (g a) ()) : Emits (forEach f as) (as.flatMap g) () := by
  induction as with
  | nil => exact Emits.pure ()
  | cons a as ih =>
    have ht := ih fun b hb => h b (List.mem_cons_of_mem a hb)
    exact Emits.bind (h a List.mem_cons_self) ht

theorem no_fault {m : Act E α} {es : List E} {a : α} (h : Emits m es a) (p : Peer E) :
    ∃ r, m p = .ok r := by
  by_cases ha : Accepts p es
  · exact ⟨_,(h p).1 ha⟩
  · obtain ⟨err,q,he⟩ := (h p).2 ha
    exact ⟨_,he⟩

end Emits

/-- On a peer that never refuses, the action sends exactly `es` and returns `a`. This is
what is left of `Emits` for an action that handles errors itself. -/
def Completes (m : Act E α) (es : List E) (a : α) : Prop :=
  ∀ p, Reliable p → m p = .ok (.ok a,push p es)

theorem Emits.completes {m : Act E α} {es : List E} {a : α} (h : Emits m es a) :
    Completes m es a := fun p hp => (h p).1 (hp.accepts es)

namespace Completes

theorem pure (a : α) : Completes (pure a : Act E α) [] a := (Emits.pure a).completes

theorem checked {c : Checked α} {f : α → Act E β} {es : List E} {a : α} {b : β} (hc : c = .ok a)
    (hf : Completes (f a) es b) : Completes (fromChecked c >>= f) es b := by
  subst hc
  exact hf

theorem bind {m : Act E α} {f : α → Act E β} {es fs : List E} {a : α} {b : β}
    (hm : Completes m es a) (hf : Completes (f a) fs b) : Completes (m >>= f) (es++fs) b := by
  intro p hp
  have hr := hf (push p es) (hp.push es)
  rw [push_push] at hr
  change andThen m f p = _
  simp only [andThen,hm p hp,hr]

theorem attempt {m : Act E α} {es : List E} {a : α} (h : Completes m es a) :
    Completes (attempt m) es (.ok a) := by
  intro p hp
  simp only [PeerProgram.attempt,h p hp]

end Completes

/-- On every peer the action returns `a`, and all events it gets accepted satisfy `P`. -/
def Only (P : E → Prop) (m : Act E α) (a : α) : Prop :=
  ∀ p, ∃ es, m p = .ok (.ok a,push p es) ∧ ∀ e ∈ es, P e

theorem fromChecked_bind {c : Checked α} {f : α → Act E β} {a : α} (h : c = .ok a) :
    (fromChecked c >>= f) = f a := by
  subst h
  rfl

/-- A sequence returns a value only if both of its parts do. -/
theorem Act.bind_ok {m : Act E α} {f : α → Act E β} {p q : Peer E} {b : β}
    (h : (m >>= f) p = .ok (.ok b,q)) :
    ∃ a p₁, m p = .ok (.ok a,p₁) ∧ f a p₁ = .ok (.ok b,q) := by
  change andThen m f p = _ at h
  rw [andThen] at h
  split at h
  · cases h
  · cases h
  · rename_i a p₁ hm
    exact ⟨a,p₁,hm,h⟩

theorem Act.withStr_ok {op : String} {m : Act E α} {p q : Peer E} {a : α}
    (h : withStr op m p = .ok (.ok a,q)) : m p = .ok (.ok a,q) := by
  rw [withStr] at h
  split at h
  · cases h
  · exact h

/-- A sequence returns if its first part does and the second part does with its value. -/
theorem Act.bind_returns {m : Act E α} {f : α → Act E β} {p : Peer E} (hm : ∃ res, m p = .ok res)
    (hf : ∀ a q, ∃ res, f a q = .ok res) : ∃ res, (m >>= f) p = .ok res := by
  obtain ⟨⟨r,q⟩,hres⟩ := hm
  change ∃ res, andThen m f p = .ok res
  rw [andThen,hres]
  cases r with
  | ok a => exact hf a q
  | error err => exact ⟨_,rfl⟩

theorem Act.withStr_returns {op : String} {m : Act E α} {p : Peer E} (h : ∃ res, m p = .ok res) :
    ∃ res, withStr op m p = .ok res := by
  obtain ⟨⟨r,q⟩,hres⟩ := h
  rw [withStr,hres]
  cases r with
  | ok a => exact ⟨_,rfl⟩
  | error err => exact ⟨_,rfl⟩

namespace Only

variable {P : E → Prop}

theorem pure (a : α) : Only P (pure a : Act E α) a := fun p => ⟨[],by simp [Pure.pure,ret],by simp⟩

theorem bind {m : Act E α} {f : α → Act E β} {a : α} {b : β} (hm : Only P m a)
    (hf : Only P (f a) b) : Only P (m >>= f) b := by
  intro p
  obtain ⟨es,he,hes⟩ := hm p
  obtain ⟨fs,hf,hfs⟩ := hf (push p es)
  refine ⟨es++fs,?_,?_⟩
  · change andThen m f p = _
    simp only [andThen,he,hf,push_push]
  · intro e hmem
    rcases List.mem_append.mp hmem with h | h
    · exact hes e h
    · exact hfs e h

/-- An event may be refused when nothing depends on it. -/
theorem tried {e : E} (he : P e) (b : β) :
    Only P (do let _ ← attempt (perform e); return b) b := by
  intro p
  cases h : p.answer p.log e with
  | none => exact ⟨[e],by simp [Bind.bind,andThen,attempt,perform,h,Pure.pure,ret,push],by simpa⟩
  | some err => exact ⟨[],by simp [Bind.bind,andThen,attempt,perform,h,Pure.pure,ret],by simp⟩

end Only

end PeerProgram
end Enimul
