import Enimul.Machine

/-! Two programs that talk over a connection.
A program writes, reads a fixed number of elements, and ends. The connection keeps the order and
loses nothing, and may deliver in pieces of any size: a read waits until it has all it asks for.
When a program has ended its side is closed. A read that the other side will never satisfy
fails, and so does a write to a side that has been closed. -/
namespace Enimul
namespace Dialogue

open Machine

/-- A program over elements of type `B` that ends with an `α`. -/
inductive Talk (B α : Type)
  | done (a : α)
  | write (b : List B) (next : Bool → Talk B α)
  | read (n : ℕ) (next : Option (List B) → Talk B α)

variable {B α β : Type}

namespace Talk

def isDone : Talk B α → Bool
  | done _ => true
  | _ => false

/-- A program on its own, with all that it will ever be sent: what it writes, how it ends, and
what it leaves unread. -/
def follow : Talk B α → List B → List (List B) × α × List B
  | done a, input => ([],a,input)
  | write b next, input => (b::(follow (next true) input).1,(follow (next true) input).2)
  | read n next, input =>
    if n ≤ input.length then follow (next (some (input.take n))) (input.drop n)
    else follow (next none) []

/-- One step: the rest of the program, what is left of the input, and what is written. -/
def act (closed : Bool) (input : List B) : Talk B α → Option (Talk B α × List B × List B)
  | done _ => none
  | write b next => if closed then some (next false,input,[]) else some (next true,input,b)
  | read n next =>
    if n ≤ input.length then some (next (some (input.take n)),input.drop n,[])
    else if closed then some (next none,[],[])
    else none

end Talk

inductive Side
  | left
  | right
  deriving DecidableEq

/-- Two programs and what is on its way to each of them. -/
@[ext] structure Pair (B α β : Type) where
  left : Talk B α
  right : Talk B β
  toLeft : List B := []
  toRight : List B := []

def step (x : Pair B α β) : Side → Option (Pair B α β)
  | .left =>
    (x.left.act x.right.isDone x.toLeft).map fun (p,input,out) =>
      {x with left := p, toLeft := input, toRight := x.toRight++out}
  | .right =>
    (x.right.act x.left.isDone x.toRight).map fun (p,input,out) =>
      {x with right := p, toRight := input, toLeft := x.toLeft++out}

/-- The two sides exchanged. -/
def Pair.swap (x : Pair B α β) : Pair B β α := ⟨x.right,x.left,x.toRight,x.toLeft⟩

def Side.swap : Side → Side
  | .left => .right
  | .right => .left

theorem step_swap (x : Pair B α β) (side : Side) :
    step x.swap side.swap = (step x side).map Pair.swap := by
  cases side <;> simp only [step,Side.swap,Pair.swap,Option.map_map] <;> rfl

/-- The programs end with `a` and `b`: each follows what the other one writes. What a program
leaves unread is shorter than the last write of the other one, so that it does not end before
the other one has written everything. -/
structure Fits (a : α) (b : β) (unreadLeft unreadRight : List B) (x : Pair B α β)
    (writesLeft writesRight : List (List B)) : Prop where
  left : x.left.follow (x.toLeft++writesRight.flatten) = (writesLeft,a,unreadLeft)
  right : x.right.follow (x.toRight++writesLeft.flatten) = (writesRight,b,unreadRight)
  longLeft : ∀ w ∈ writesLeft.getLast?, unreadRight.length < w.length
  longRight : ∀ w ∈ writesRight.getLast?, unreadLeft.length < w.length

section Fits

variable {a : α} {b : β} {unreadLeft unreadRight : List B} {x x' : Pair B α β}
  {writesLeft writesRight : List (List B)}

theorem Fits.swap (h : Fits a b unreadLeft unreadRight x writesLeft writesRight) :
    Fits b a unreadRight unreadLeft x.swap writesRight writesLeft :=
  ⟨h.right,h.left,h.longRight,h.longLeft⟩

theorem Talk.eq_done {p : Talk B α} (h : p.isDone = true) : ∃ a, p = .done a := by
  cases p with
  | done a => exact ⟨a,rfl⟩
  | write b next => cases h
  | read n next => cases h

/-- Once a program has ended, the other one has written everything. -/
theorem Fits.written (h : Fits a b unreadLeft unreadRight x writesLeft writesRight)
    (hdone : x.right.isDone = true) : writesLeft = [] ∧ writesRight = [] ∧ x.toRight = unreadRight := by
  obtain ⟨b',hb'⟩ := Talk.eq_done hdone
  have hright := h.right
  rw [hb',Talk.follow,Prod.mk.injEq,Prod.mk.injEq] at hright
  obtain ⟨hwrites,-,hunread⟩ := hright
  cases writesLeft with
  | nil => exact ⟨rfl,hwrites.symm,by simpa using hunread⟩
  | cons w ws =>
    have hlong := h.longLeft _ (List.getLast?_eq_some_getLast (List.cons_ne_nil w ws))
    have hsub := (List.sublist_flatten_of_mem (List.getLast_mem (List.cons_ne_nil w ws))).length_le
    have hlen := congrArg List.length hunread
    rw [List.length_append] at hlen
    omega

theorem Fits.open_of_write (h : Fits a b unreadLeft unreadRight x writesLeft writesRight)
    {w : List B} {next : Bool → Talk B α} (hx : x.left = .write w next) : x.right.isDone = false := by
  cases hdone : x.right.isDone with
  | false => rfl
  | true =>
    have hleft := h.left
    rw [hx,(h.written hdone).1,Talk.follow] at hleft
    cases hleft

theorem Fits.stepLeft (h : Fits a b unreadLeft unreadRight x writesLeft writesRight)
    (hstep : step x .left = some x') :
    ∃ writesLeft', Fits a b unreadLeft unreadRight x' writesLeft' writesRight := by
  have hleft := h.left
  simp only [step,Option.map_eq_some_iff] at hstep
  obtain ⟨⟨p,input,out⟩,hact,rfl⟩ := hstep
  cases hx : x.left with
  | done a' => simp [hx,Talk.act] at hact
  | write w next =>
    rw [hx,Talk.follow,Prod.mk.injEq] at hleft
    obtain ⟨hwrites,hrest⟩ := hleft
    rw [hx,h.open_of_write hx] at hact
    cases hact
    refine ⟨_,Prod.ext rfl hrest,?_,fun w' hw' => h.longLeft w' ?_,h.longRight⟩
    · rw [List.append_assoc,← List.flatten_cons,hwrites]
      exact h.right
    · rw [← hwrites]
      exact List.mem_getLast?_cons hw'
  | read n next =>
    rw [hx,Talk.follow] at hleft
    rw [hx,Talk.act] at hact
    split at hact
    · rename_i hn
      cases hact
      rw [if_pos (by rw [List.length_append]; omega),List.take_append_of_le_length hn,
        List.drop_append_of_le_length hn] at hleft
      exact ⟨writesLeft,hleft,by rw [List.append_nil]; exact h.right,h.longLeft,h.longRight⟩
    · rename_i hn
      split at hact
      · rename_i hdone
        cases hact
        obtain ⟨-,rfl,-⟩ := h.written hdone
        rw [if_neg (by simpa using hn)] at hleft
        exact ⟨writesLeft,hleft,by rw [List.append_nil]; exact h.right,h.longLeft,h.longRight⟩
      · cases hact

theorem Fits.step (h : Fits a b unreadLeft unreadRight x writesLeft writesRight) {side : Side}
    (hstep : step x side = some x') :
    ∃ writesLeft' writesRight', Fits a b unreadLeft unreadRight x' writesLeft' writesRight' := by
  cases side with
  | left =>
    obtain ⟨writesLeft',h'⟩ := h.stepLeft hstep
    exact ⟨writesLeft',writesRight,h'⟩
  | right =>
    have hswap : Dialogue.step x.swap .left = some x'.swap := by
      rw [show Side.left = Side.right.swap from rfl,step_swap,hstep]
      rfl
    obtain ⟨writesRight',h'⟩ := h.swap.stepLeft hswap
    exact ⟨writesLeft,writesRight',h'.swap⟩

/-- More input does not change what a program does next, unless it was told that there is no
more, or writes. -/
theorem act_more {p p' : Talk B α} {input input' out : List B} (closed : Bool) (more : List B)
    (h : p.act false input = some (p',input',out))
    (hwrite : ∀ w next, p = .write w next → closed = false) :
    p.act closed (input++more) = some (p',input'++more,out) := by
  cases p with
  | done a' => cases h
  | write w next =>
    rw [hwrite w next rfl]
    cases h
    rfl
  | read n next =>
    rw [Talk.act] at h
    split at h
    · rename_i hn
      cases h
      rw [Talk.act,if_pos (by rw [List.length_append]; omega),List.take_append_of_le_length hn,
        List.drop_append_of_le_length hn]
    · cases h

theorem isDone_of_act {p p' : Talk B α} {closed : Bool} {input input' out : List B}
    (h : p.act closed input = some (p',input',out)) : p.isDone = false := by
  cases p with
  | done a' => cases h
  | write w next => rfl
  | read n next => rfl

/-- Steps of the two sides can be taken in either order. -/
theorem Fits.diamond (h : Fits a b unreadLeft unreadRight x writesLeft writesRight)
    {x₁ x₂ : Pair B α β} (h₁ : Dialogue.step x .left = some x₁)
    (h₂ : Dialogue.step x .right = some x₂) :
    ∃ x₃, Dialogue.step x₁ .right = some x₃ ∧ Dialogue.step x₂ .left = some x₃ := by
  obtain ⟨wl₁,wr₁,hf₁⟩ := h.step h₁
  obtain ⟨wl₂,wr₂,hf₂⟩ := h.step h₂
  simp only [Dialogue.step,Option.map_eq_some_iff] at h₁ h₂
  obtain ⟨⟨p,inputL,outL⟩,hleft,rfl⟩ := h₁
  obtain ⟨⟨q,inputR,outR⟩,hright,rfl⟩ := h₂
  have hopenR := isDone_of_act hright
  have hopenL := isDone_of_act hleft
  rw [hopenR] at hleft
  rw [hopenL] at hright
  have hleft' := act_more q.isDone outR hleft fun _ _ hw => hf₂.open_of_write hw
  have hright' := act_more p.isDone outL hright fun _ _ hw => hf₁.swap.open_of_write hw
  exact ⟨⟨p,q,inputL++outR,inputR++outL⟩,by simp [Dialogue.step,hright'],
    by simp [Dialogue.step,hleft']⟩

/-- A step does not lead away from the end of a run, but closer to it. -/
theorem Fits.closer (h : Fits a b unreadLeft unreadRight x writesLeft writesRight)
    {ls : List Side} {f : Pair B α β} (hrun : run Dialogue.step ls x = some f)
    (hend : f.left.isDone = true ∧ f.right.isDone = true) {side : Side}
    (hstep : Dialogue.step x side = some x') :
    ∃ ls', run Dialogue.step ls' x' = some f ∧ ls'.length+1 = ls.length := by
  induction ls generalizing x x' writesLeft writesRight with
  | nil =>
    cases hrun
    obtain ⟨⟨a',ha'⟩,⟨b',hb'⟩⟩ := hend.imp Talk.eq_done Talk.eq_done
    cases side <;> simp [Dialogue.step,ha',hb',Talk.act] at hstep
  | cons side' ls ih =>
    obtain ⟨x₁,hfirst,hrest⟩ := Option.bind_eq_some_iff.mp hrun
    obtain ⟨wl,wr,hf₁⟩ := h.step hfirst
    by_cases hside : side' = side
    · subst hside
      rw [hfirst] at hstep
      cases hstep
      exact ⟨ls,hrest,rfl⟩
    · obtain ⟨x₂,hx₁,hx'⟩ : ∃ x₂, Dialogue.step x₁ side = some x₂ ∧ Dialogue.step x' side' = some x₂ := by
        cases side <;> cases side'
        · exact absurd rfl hside
        · obtain ⟨x₂,hr,hl⟩ := h.diamond hstep hfirst
          exact ⟨x₂,hl,hr⟩
        · exact h.diamond hfirst hstep
        · exact absurd rfl hside
      obtain ⟨ls',hrun',hlen⟩ := ih hf₁ hrest hx₁
      exact ⟨side'::ls',by simp [run,hx',hrun'],by simp [← hlen]⟩

/-- All orders of the steps lead to the same end, in the same number of steps. -/
theorem Fits.converges (h : Fits a b unreadLeft unreadRight x writesLeft writesRight)
    {ls : List Side} {f : Pair B α β} (hrun : run Dialogue.step ls x = some f)
    (hend : f.left.isDone = true ∧ f.right.isDone = true) {ls₁ : List Side} {y : Pair B α β}
    (hy : run Dialogue.step ls₁ x = some y) :
    ∃ ls₂, run Dialogue.step ls₂ y = some f ∧ ls₁.length+ls₂.length = ls.length := by
  induction ls₁ generalizing x ls writesLeft writesRight with
  | nil =>
    cases hy
    exact ⟨ls,hrun,by simp⟩
  | cons side ls₁ ih =>
    obtain ⟨x₁,hfirst,hrest⟩ := Option.bind_eq_some_iff.mp hy
    obtain ⟨wl,wr,hf₁⟩ := h.step hfirst
    obtain ⟨ls',hrun',hlen⟩ := h.closer hrun hend hfirst
    obtain ⟨ls₂,hrun₂,hlen₂⟩ := ih hf₁ hrun' hrest
    exact ⟨ls₂,hrun₂,by rw [List.length_cons]; omega⟩

/-- The end is the one that the two programs have on their own. -/
theorem Fits.eq_end (h : Fits a b unreadLeft unreadRight x writesLeft writesRight)
    (hend : x.left.isDone = true ∧ x.right.isDone = true) :
    x = ⟨.done a,.done b,unreadLeft,unreadRight⟩ := by
  obtain ⟨⟨a',ha'⟩,⟨b',hb'⟩⟩ := hend.imp Talk.eq_done Talk.eq_done
  obtain ⟨rfl,rfl,hright⟩ := h.written hend.2
  have hleft := h.left
  have hright' := h.right
  rw [ha',Talk.follow] at hleft
  rw [hb',Talk.follow] at hright'
  simp only [List.flatten_nil,List.append_nil,Prod.mk.injEq,true_and] at hleft hright'
  exact Pair.ext (by rw [ha',hleft.1]) (by rw [hb',hright'.1]) hleft.2 hright

end Fits

section Play

/-- One order of the steps, from the state to the end: `n` steps, with the writes in it. A side
writes only while the other one is there, and the last write of a side is longer than what the
other one leaves unread. -/
inductive Plays (a : α) (b : β) (unreadLeft unreadRight : List B) :
    ℕ → Pair B α β → List (List B) → List (List B) → Prop
  | done : Plays a b unreadLeft unreadRight 0 ⟨.done a,.done b,unreadLeft,unreadRight⟩ [] []
  | writeLeft {n : ℕ} {next : Bool → Talk B α} {q : Talk B β} {w i o : List B}
      {ws vs : List (List B)} (hopen : q.isDone = false) (hlong : ws = [] → unreadRight.length < w.length)
      (h : Plays a b unreadLeft unreadRight n ⟨next true,q,i,o++w⟩ ws vs) :
      Plays a b unreadLeft unreadRight (n+1) ⟨.write w next,q,i,o⟩ (w::ws) vs
  | writeRight {n : ℕ} {p : Talk B α} {next : Bool → Talk B β} {w i o : List B}
      {ws vs : List (List B)} (hopen : p.isDone = false) (hlong : vs = [] → unreadLeft.length < w.length)
      (h : Plays a b unreadLeft unreadRight n ⟨p,next true,i++w,o⟩ ws vs) :
      Plays a b unreadLeft unreadRight (n+1) ⟨p,.write w next,i,o⟩ ws (w::vs)
  | readLeft {n k : ℕ} {next : Option (List B) → Talk B α} {q : Talk B β} {r i o : List B}
      {ws vs : List (List B)} (hr : r.length = k)
      (h : Plays a b unreadLeft unreadRight n ⟨next (some r),q,i,o⟩ ws vs) :
      Plays a b unreadLeft unreadRight (n+1) ⟨.read k next,q,r++i,o⟩ ws vs
  | readRight {n k : ℕ} {p : Talk B α} {next : Option (List B) → Talk B β} {r i o : List B}
      {ws vs : List (List B)} (hr : r.length = k)
      (h : Plays a b unreadLeft unreadRight n ⟨p,next (some r),i,o⟩ ws vs) :
      Plays a b unreadLeft unreadRight (n+1) ⟨p,.read k next,i,r++o⟩ ws vs
  | failLeft {n k : ℕ} {next : Option (List B) → Talk B α} {i : List B} {ws vs : List (List B)}
      (hk : i.length < k) (h : Plays a b unreadLeft unreadRight n ⟨next none,.done b,[],unreadRight⟩ ws vs) :
      Plays a b unreadLeft unreadRight (n+1) ⟨.read k next,.done b,i,unreadRight⟩ ws vs

variable {a : α} {b : β} {unreadLeft unreadRight : List B} {n : ℕ} {x : Pair B α β}
  {ws vs : List (List B)}

/-- The last write stays the last one when another one is put before it. -/
theorem long_cons {w : List B} {u : ℕ} (hlong : ws = [] → u < w.length)
    (h : ∀ v ∈ ws.getLast?, u < v.length) : ∀ v ∈ (w::ws).getLast?, u < v.length := by
  cases ws with
  | nil =>
    intro v hv
    cases hv
    exact hlong rfl
  | cons v ws => exact h

theorem follow_read {k : ℕ} {next : Option (List B) → Talk B α} {r i : List B} (hr : r.length = k) :
    (Talk.read k next).follow (r++i) = (next (some r)).follow i := by
  subst hr
  rw [Talk.follow,if_pos (by simp),List.take_left,List.drop_left]

theorem act_read {k : ℕ} {next : Option (List B) → Talk B α} {r i : List B} {closed : Bool}
    (hr : r.length = k) : (Talk.read k next).act closed (r++i) = some (next (some r),i,[]) := by
  subst hr
  rw [Talk.act,if_pos (by simp),List.take_left,List.drop_left]

theorem Plays.fits (h : Plays a b unreadLeft unreadRight n x ws vs) :
    Fits a b unreadLeft unreadRight x ws vs := by
  induction h with
  | done => exact ⟨by simp [Talk.follow],by simp [Talk.follow],by simp,by simp⟩
  | writeLeft hopen hlong h ih =>
    have hleft := ih.left
    have hright := ih.right
    refine ⟨?_,?_,long_cons hlong ih.longLeft,ih.longRight⟩
    · rw [Talk.follow,hleft]
    · rw [List.flatten_cons,← List.append_assoc]
      exact hright
  | writeRight hopen hlong h ih =>
    have hleft := ih.left
    have hright := ih.right
    refine ⟨?_,?_,ih.longLeft,long_cons hlong ih.longRight⟩
    · rw [List.flatten_cons,← List.append_assoc]
      exact hleft
    · rw [Talk.follow,hright]
  | readLeft hr h ih =>
    refine ⟨?_,ih.right,ih.longLeft,ih.longRight⟩
    rw [List.append_assoc,follow_read hr]
    exact ih.left
  | readRight hr h ih =>
    refine ⟨ih.left,?_,ih.longLeft,ih.longRight⟩
    rw [List.append_assoc,follow_read hr]
    exact ih.right
  | failLeft hk h ih =>
    obtain ⟨rfl,rfl,-⟩ := ih.written rfl
    refine ⟨?_,ih.right,ih.longLeft,ih.longRight⟩
    rw [Talk.follow,if_neg (by simpa using hk)]
    exact ih.left

theorem Plays.run (h : Plays a b unreadLeft unreadRight n x ws vs) :
    ∃ ls : List Side, ls.length = n ∧
      Machine.run step ls x = some ⟨.done a,.done b,unreadLeft,unreadRight⟩ := by
  induction h with
  | done => exact ⟨[],rfl,rfl⟩
  | writeLeft hopen hlong h ih =>
    obtain ⟨ls,hlen,hrun⟩ := ih
    exact ⟨.left::ls,by rw [List.length_cons,hlen],by simp [Machine.run,step,Talk.act,hopen,hrun]⟩
  | writeRight hopen hlong h ih =>
    obtain ⟨ls,hlen,hrun⟩ := ih
    exact ⟨.right::ls,by rw [List.length_cons,hlen],by simp [Machine.run,step,Talk.act,hopen,hrun]⟩
  | readLeft hr h ih =>
    obtain ⟨ls,hlen,hrun⟩ := ih
    exact ⟨.left::ls,by rw [List.length_cons,hlen],by simp [Machine.run,step,act_read hr,hrun]⟩
  | readRight hr h ih =>
    obtain ⟨ls,hlen,hrun⟩ := ih
    exact ⟨.right::ls,by rw [List.length_cons,hlen],by simp [Machine.run,step,act_read hr,hrun]⟩
  | failLeft hk h ih =>
    obtain ⟨ls,hlen,hrun⟩ := ih
    refine ⟨.left::ls,by rw [List.length_cons,hlen],?_⟩
    simp [Machine.run,step,Talk.act,Talk.isDone,Nat.not_le.mpr hk,hrun]

/-- What one order of the steps leads to, all of them do. -/
theorem Plays.converges (h : Plays a b unreadLeft unreadRight n x ws vs) {ls₁ : List Side}
    {y : Pair B α β} (hy : Machine.run step ls₁ x = some y) :
    ∃ ls₂, Machine.run step ls₂ y = some ⟨.done a,.done b,unreadLeft,unreadRight⟩ ∧
      ls₁.length+ls₂.length = n := by
  obtain ⟨ls,rfl,hrun⟩ := h.run
  exact h.fits.converges hrun ⟨rfl,rfl⟩ hy

end Play

end Dialogue
end Enimul
