import Mathlib.Data.List.Induction
import Mathlib.Data.Int.Notation

/-! The DNS client that waits for a better answer.
A forged answer comes early, so the client passes over what arrives before `minRTT` and goes on
reading until `waitTimeout`. It keeps the answer with the most records. -/
namespace Enimul
namespace AntiHijack

/-- A resource record: the codes of the options if it is an OPT record. -/
inductive RR
  | opt (options : List UInt16)
  | other
  deriving DecidableEq, Repr

structure Msg where
  id : UInt16
  answer : List RR := []
  ns : List RR := []
  extra : List RR := []
  deriving DecidableEq, Repr

def edns0Subnet : UInt16 := 8

def RR.hasSubnet : RR → Bool
  | .opt options => options.any fun o => o = edns0Subnet
  | .other => false

def hasEDNS0Subnet (resp : Msg) : Bool := resp.extra.any RR.hasSubnet

def Msg.recordCount (r : Msg) : ℕ := r.answer.length+r.ns.length+r.extra.length

structure Client where
  waitTimeout : ℤ
  minRTT : ℤ

/-- A message that is read `rtt` after the query was sent; `edns0` is whether the program has a
subnet option when it handles the message. -/
structure Arrival where
  msg : Msg
  rtt : ℕ
  edns0 : Bool

/-- A connection to the server. When the messages are used up the next read fails, at a deadline
or for another reason, and then may still return what it could parse. -/
structure Conn where
  writeErr : Option String := none
  arrivals : List Arrival
  failedMsg : Option Msg := none
  readErr : String
  finished : ℕ

structure Reply where
  r : Option Msg
  rtt : ℕ
  err : Option String
  deriving DecidableEq, Repr

structure Best where
  r : Option Msg := none
  recordCount : ℕ := 0
  rtt : ℕ := 0

section Exchange

variable (c : Client) (m : Msg) (co : Conn)

def Client.tooSoon (a : Arrival) : Prop := c.minRTT ≠ 0 ∧ (a.rtt : ℤ) < c.minRTT

def Client.timeUp (a : Arrival) : Prop := 0 < c.waitTimeout ∧ c.waitTimeout ≤ a.rtt

/-- An answer that is not kept waiting for a better one. -/
def Client.final (a : Arrival) : Prop :=
  c.waitTimeout ≤ 0 ∨ a.edns0 = true ∧ hasEDNS0Subnet a.msg = true

instance (a : Arrival) : Decidable (c.tooSoon a) := inferInstanceAs (Decidable (_ ∧ _))

instance (a : Arrival) : Decidable (c.timeUp a) := inferInstanceAs (Decidable (_ ∧ _))

instance (a : Arrival) : Decidable (c.final a) := inferInstanceAs (Decidable (_ ∨ _))

def Best.keep (best : Best) (a : Arrival) : Best :=
  if a.msg.id = m.id ∧ best.recordCount ≤ a.msg.recordCount then
    ⟨some a.msg,a.msg.recordCount,a.rtt⟩
  else best

/-- After the loop: the best answer or, failing that, what was read last. -/
def conclude (best : Best) (r : Option Msg) (lastErr : Option String) : Reply :=
  match best.r with
  | some b => ⟨some b,best.rtt,none⟩
  | none => ⟨r,co.finished,lastErr⟩

def readLoop : List Arrival → Best → Reply
  | [], best => conclude co best co.failedMsg (some co.readErr)
  | a::as, best =>
    if c.tooSoon a then readLoop as best
    else if a.msg.id = m.id ∧ c.final a then ⟨some a.msg,a.rtt,none⟩
    else if c.timeUp a then conclude co (best.keep m a) (some a.msg) none
    else readLoop as (best.keep m a)

def exchangeWithConnContext : Reply :=
  match co.writeErr with
  | some err => ⟨none,0,some err⟩
  | none => readLoop c m co co.arrivals {}

/-- A message that the loop neither keeps nor stops at. -/
def Client.passesOver (a : Arrival) : Bool :=
  decide (c.tooSoon a) || (decide (a.msg.id ≠ m.id) && !decide (c.timeUp a))

/-- The message is an answer to the query that did not come too soon. -/
def Client.Trusts (r : Msg) : Prop :=
  r.id = m.id ∧ ∃ a ∈ co.arrivals, a.msg = r ∧ c.minRTT ≤ a.rtt

/-- What is returned without an error is an answer to the query. -/
def Client.Safe (reply : Reply) : Prop := reply.err = none → ∃ r, reply.r = some r ∧ c.Trusts m co r

end Exchange

variable {c : Client} {m : Msg} {co : Conn}

theorem trusts_of_not_tooSoon {a : Arrival} (ha : a ∈ co.arrivals) (hid : a.msg.id = m.id)
    (h : ¬ c.tooSoon a) : c.Trusts m co a.msg := by
  refine ⟨hid,a,ha,rfl,?_⟩
  rw [Client.tooSoon] at h
  by_cases hmin : c.minRTT = 0
  · rw [hmin]
    exact Int.natCast_nonneg a.rtt
  · exact Int.not_lt.mp fun hlt => h ⟨hmin,hlt⟩

/-- The invariant of the loop: a kept message can be trusted, and the count is that of a kept
message. -/
structure Best.Sound (c : Client) (m : Msg) (co : Conn) (best : Best) : Prop where
  trusted : ∀ r, best.r = some r → c.Trusts m co r
  count : best.r = none → best.recordCount = 0

theorem Best.keep_of_ne {best : Best} {a : Arrival} (h : a.msg.id ≠ m.id) : best.keep m a = best :=
  if_neg fun hkeep => h hkeep.1

theorem Best.Sound.keep {best : Best} (h : best.Sound c m co) {a : Arrival} (ha : a ∈ co.arrivals)
    (hsoon : ¬ c.tooSoon a) : (best.keep m a).Sound c m co := by
  rw [Best.keep]
  split
  · rename_i hkeep
    refine ⟨?_,?_⟩
    · rintro r hr
      obtain rfl := Option.some.inj hr
      exact trusts_of_not_tooSoon ha hkeep.1 hsoon
    · intro hnone
      simp at hnone
  · exact h

/-- Once an answer has arrived there is something to return. -/
theorem Best.Sound.keep_ne_none {best : Best} (h : best.Sound c m co) {a : Arrival}
    (hid : best.r ≠ none ∨ a.msg.id = m.id) : (best.keep m a).r ≠ none := by
  rw [Best.keep]
  split
  · simp
  · rename_i hkeep
    intro hnone
    cases hid with
    | inl hr => exact hr hnone
    | inr hid => exact hkeep ⟨hid,h.count hnone ▸ Nat.zero_le _⟩

theorem conclude_some_safe {best : Best} (h : best.Sound c m co) (hr : best.r ≠ none)
    (r : Option Msg) (lastErr : Option String) : c.Safe m co (conclude co best r lastErr) := by
  intro _
  rw [conclude]
  cases hb : best.r with
  | none => exact absurd hb hr
  | some b => exact ⟨b,rfl,h.trusted b hb⟩

theorem conclude_error_safe {best : Best} (h : best.Sound c m co) (r : Option Msg) (err : String) :
    c.Safe m co (conclude co best r (some err)) := by
  by_cases hr : best.r = none
  · intro herr
    simp [conclude,hr] at herr
  · exact conclude_some_safe h hr r (some err)

/-- With nothing kept, the loop must not stop at a stranger. -/
theorem conclude_stranger {best : Best} (hr : best.r = none) {a : Arrival} (hid : a.msg.id ≠ m.id) :
    ¬ c.Safe m co (conclude co best (some a.msg) none) := by
  intro h
  simp only [conclude,hr] at h
  obtain ⟨r,hr,htrust⟩ := h rfl
  obtain rfl := Option.some.inj hr
  exact hid htrust.1

/-- Once something is kept, every end of the loop is safe. -/
theorem readLoop_some_safe {as : List Arrival} {best : Best} (has : ∀ a ∈ as, a ∈ co.arrivals)
    (h : best.Sound c m co) (hr : best.r ≠ none) : c.Safe m co (readLoop c m co as best) := by
  induction as generalizing best with
  | nil => exact conclude_error_safe h _ _
  | cons a as ih =>
    have has' := fun b hb => has b (List.mem_cons_of_mem a hb)
    rw [readLoop]
    split_ifs with hsoon hfinal hup
    · exact ih has' h hr
    · exact fun _ => ⟨a.msg,rfl,trusts_of_not_tooSoon (has a List.mem_cons_self) hfinal.1 hsoon⟩
    all_goals
      have hkeep := h.keep (has a List.mem_cons_self) hsoon
      have hkept := h.keep_ne_none (a := a) (.inl hr)
    · exact conclude_some_safe hkeep hkept _ _
    · exact ih has' hkeep hkept

theorem passesOver_of_tooSoon {a : Arrival} (h : c.tooSoon a) : (!c.passesOver m a) = false := by
  simp [Client.passesOver,h]

theorem passesOver_of_eq {a : Arrival} (h : ¬ c.tooSoon a) (hid : a.msg.id = m.id) :
    (!c.passesOver m a) = true := by
  simp [Client.passesOver,h,hid]

theorem passesOver_of_timeUp {a : Arrival} (h : ¬ c.tooSoon a) (hup : c.timeUp a) :
    (!c.passesOver m a) = true := by
  simp [Client.passesOver,h,hup]

theorem passesOver_of_ne {a : Arrival} (hid : a.msg.id ≠ m.id) (hup : ¬ c.timeUp a) :
    (!c.passesOver m a) = false := by
  simp [Client.passesOver,hid,hup]

/-- With nothing kept, the first message that is not passed over decides. -/
theorem readLoop_none_safe_iff {as : List Arrival} {best : Best} (has : ∀ a ∈ as, a ∈ co.arrivals)
    (h : best.Sound c m co) (hr : best.r = none) :
    c.Safe m co (readLoop c m co as best) ↔
      ∀ a, as.find? (fun a => !c.passesOver m a) = some a → a.msg.id = m.id := by
  induction as with
  | nil => exact ⟨fun _ _ hnone => by simp at hnone,fun _ => conclude_error_safe h _ _⟩
  | cons a as ih =>
    have has' := fun b hb => has b (List.mem_cons_of_mem a hb)
    rw [readLoop,List.find?_cons]
    by_cases hsoon : c.tooSoon a
    · rw [if_pos hsoon,passesOver_of_tooSoon hsoon]
      exact ih has'
    rw [if_neg hsoon]
    by_cases hid : a.msg.id = m.id
    · rw [passesOver_of_eq hsoon hid]
      have hkeep := h.keep (has a List.mem_cons_self) hsoon
      have hkept := h.keep_ne_none (a := a) (.inr hid)
      refine ⟨fun _ b hb => Option.some.inj hb ▸ hid,fun _ => ?_⟩
      split_ifs with hfinal hup
      · exact fun _ => ⟨a.msg,rfl,trusts_of_not_tooSoon (has a List.mem_cons_self) hid hsoon⟩
      · exact conclude_some_safe hkeep hkept _ _
      · exact readLoop_some_safe has' hkeep hkept
    · rw [if_neg fun hfinal => hid hfinal.1,Best.keep_of_ne hid]
      by_cases hup : c.timeUp a
      · rw [if_pos hup,passesOver_of_timeUp hsoon hup]
        exact ⟨fun hsafe => absurd hsafe (conclude_stranger hr hid),
          fun hfirst => absurd (hfirst a rfl) hid⟩
      · rw [if_neg hup,passesOver_of_ne hid hup]
        exact ih has'

/-- A message is returned without an error only if it answers the query and did not come too
soon, exactly when the first message that is not passed over has the id of the query. -/
theorem exchangeWithConnContext_safe_iff :
    c.Safe m co (exchangeWithConnContext c m co) ↔
      (co.writeErr = none →
        ∀ a, co.arrivals.find? (fun a => !c.passesOver m a) = some a → a.msg.id = m.id) := by
  rw [exchangeWithConnContext]
  cases hwrite : co.writeErr with
  | some err => exact ⟨fun _ hnone => by simp at hnone,fun _ herr => by simp at herr⟩
  | none =>
    have hsound : ({} : Best).Sound c m co := ⟨fun _ hr => by simp at hr,fun _ => rfl⟩
    rw [readLoop_none_safe_iff (fun _ ha => ha) hsound rfl]
    exact ⟨fun h _ => h,fun h => h rfl⟩

/-- A stranger that is read when the time is up. -/
theorem exchangeWithConnContext_stranger :
    ∃ (c : Client) (m : Msg) (co : Conn) (r : Msg),
      (exchangeWithConnContext c m co).err = none ∧ (exchangeWithConnContext c m co).r = some r ∧
        r.id ≠ m.id :=
  ⟨⟨100,0⟩,⟨7,[],[],[]⟩,
    {arrivals := [⟨⟨8,[],[],[]⟩,100,false⟩], readErr := "timeout", finished := 100},
    ⟨8,[],[],[]⟩,by decide,by decide,by decide⟩

section Richest

/-- The messages that are read before the loop ends, when no answer ends it at once. -/
def Client.reads (c : Client) : List Arrival → List Arrival
  | [] => []
  | a::as => if ¬ c.tooSoon a ∧ c.timeUp a then [a] else a::c.reads as

/-- An answer to the query that arrived at `minRTT` or later. -/
def Client.Eligible (c : Client) (m : Msg) (a : Arrival) : Prop :=
  a.msg.id = m.id ∧ c.minRTT ≤ a.rtt

theorem eligible_iff {a : Arrival} : c.Eligible m a ↔ a.msg.id = m.id ∧ ¬ c.tooSoon a := by
  rw [Client.Eligible,Client.tooSoon]
  refine and_congr_right fun _ => ?_
  omega

/-- What the loop does with a message. -/
def Best.see (c : Client) (m : Msg) (best : Best) (a : Arrival) : Best :=
  if c.tooSoon a then best else best.keep m a

/-- Without an answer that ends the loop at once, all that is read is weighed up. -/
theorem readLoop_reads (m : Msg) (co : Conn) (hwait : 0 < c.waitTimeout) {as : List Arrival}
    (hsubnet : ∀ a ∈ as, a.edns0 = false) (best : Best) :
    ∃ r err, readLoop c m co as best = conclude co ((c.reads as).foldl (Best.see c m) best) r err := by
  induction as generalizing best with
  | nil => exact ⟨_,_,rfl⟩
  | cons a as ih =>
    have hrest := fun b hb => hsubnet b (List.mem_cons_of_mem a hb)
    have hfinal : ¬ (a.msg.id = m.id ∧ c.final a) := by
      rintro ⟨-,hstop|hstop⟩
      · omega
      · rw [hsubnet a List.mem_cons_self] at hstop
        cases hstop.1
    rw [readLoop,Client.reads]
    by_cases hsoon : c.tooSoon a
    · rw [if_pos hsoon,if_neg fun h => h.1 hsoon,List.foldl_cons,Best.see,if_pos hsoon]
      exact ih hrest best
    · rw [if_neg hsoon,if_neg hfinal]
      by_cases hup : c.timeUp a
      · rw [if_pos hup,if_pos ⟨hsoon,hup⟩,List.foldl_cons,List.foldl_nil,Best.see,if_neg hsoon]
        exact ⟨_,_,rfl⟩
      · rw [if_neg hup,if_neg fun h => hup h.2,List.foldl_cons,Best.see,if_neg hsoon]
        exact ih hrest _

/-- The best message of those seen: the last of the eligible ones with the most records. -/
inductive Richest (c : Client) (m : Msg) : List Arrival → Best → Prop
  | none {as : List Arrival} (hnone : ∀ a ∈ as, ¬ c.Eligible m a) : Richest c m as {}
  | some {before after : List Arrival} {a : Arrival} (ha : c.Eligible m a)
      (hbefore : ∀ b ∈ before, c.Eligible m b → b.msg.recordCount ≤ a.msg.recordCount)
      (hafter : ∀ b ∈ after, c.Eligible m b → b.msg.recordCount < a.msg.recordCount) :
      Richest c m (before++a::after) ⟨some a.msg,a.msg.recordCount,a.rtt⟩

theorem Best.see_of_not_eligible {best : Best} {a : Arrival} (h : ¬ c.Eligible m a) :
    best.see c m a = best := by
  rw [eligible_iff] at h
  rw [Best.see]
  split
  · rfl
  · rename_i hsoon
    exact Best.keep_of_ne fun hid => h ⟨hid,hsoon⟩

/-- A message that is not eligible changes nothing. -/
theorem Richest.pass {as : List Arrival} {best : Best} (h : Richest c m as best) {a : Arrival}
    (ha : ¬ c.Eligible m a) : Richest c m (as++[a]) best := by
  cases h with
  | none hnone =>
    refine .none fun b hb => ?_
    obtain hold|hlast := List.mem_append.mp hb
    · exact hnone b hold
    · exact List.mem_singleton.mp hlast ▸ ha
  | some ha' hbefore hafter =>
    rw [List.append_assoc,List.cons_append]
    refine .some ha' hbefore fun b hb helig => ?_
    obtain hold|hlast := List.mem_append.mp hb
    · exact hafter b hold helig
    · exact absurd helig (List.mem_singleton.mp hlast ▸ ha)

/-- An eligible message replaces the best one unless that has more records. -/
theorem Richest.keep {as : List Arrival} {best : Best} (h : Richest c m as best) {a : Arrival}
    (ha : c.Eligible m a) : Richest c m (as++[a]) (best.keep m a) := by
  cases h with
  | none hnone =>
    rw [Best.keep,if_pos ⟨ha.1,Nat.zero_le _⟩]
    exact .some ha (fun b hb helig => absurd helig (hnone b hb)) (by simp)
  | @some before after a' ha' hbefore hafter =>
    rw [Best.keep]
    by_cases hle : a'.msg.recordCount ≤ a.msg.recordCount
    · rw [if_pos ⟨ha.1,hle⟩]
      refine .some ha (fun b hb helig => ?_) (by simp)
      obtain hold|hrest := List.mem_append.mp hb
      · exact Nat.le_trans (hbefore b hold helig) hle
      · cases hrest with
        | head => exact hle
        | tail _ hnew => exact Nat.le_trans (Nat.le_of_lt (hafter b hnew helig)) hle
    · rw [if_neg fun h => hle h.2,List.append_assoc,List.cons_append]
      refine .some ha' hbefore fun b hb helig => ?_
      obtain hold|hlast := List.mem_append.mp hb
      · exact hafter b hold helig
      · exact List.mem_singleton.mp hlast ▸ Nat.not_le.mp hle

theorem richest_foldl (c : Client) (m : Msg) (as : List Arrival) :
    Richest c m as (as.foldl (Best.see c m) {}) := by
  induction as using List.reverseRecOn with
  | nil => exact .none (by simp)
  | append_singleton as a ih =>
    rw [List.foldl_append,List.foldl_cons,List.foldl_nil]
    by_cases ha : c.Eligible m a
    · rw [Best.see,if_neg (eligible_iff.mp ha).2]
      exact ih.keep ha
    · rw [Best.see_of_not_eligible ha]
      exact ih.pass ha

/-- Of the eligible answers that are read, one with the most records is returned, the latest of
these, with the time at which it arrived. -/
theorem exchangeWithConnContext_richest (hwait : 0 < c.waitTimeout) (hwrite : co.writeErr = none)
    (hsubnet : ∀ a ∈ co.arrivals, a.edns0 = false)
    (helig : ∃ a ∈ c.reads co.arrivals, c.Eligible m a) :
    ∃ before a after, c.reads co.arrivals = before++a::after ∧ c.Eligible m a ∧
      exchangeWithConnContext c m co = ⟨some a.msg,a.rtt,none⟩ ∧
      (∀ b ∈ before, c.Eligible m b → b.msg.recordCount ≤ a.msg.recordCount) ∧
      (∀ b ∈ after, c.Eligible m b → b.msg.recordCount < a.msg.recordCount) := by
  obtain ⟨r,err,hloop⟩ := readLoop_reads m co hwait hsubnet {}
  have hrich := richest_foldl c m (c.reads co.arrivals)
  have hrun : exchangeWithConnContext c m co = readLoop c m co co.arrivals {} := by
    rw [exchangeWithConnContext,hwrite]
  rw [hrun,hloop]
  generalize (c.reads co.arrivals).foldl (Best.see c m) {} = best at hrich ⊢
  generalize c.reads co.arrivals = as at hrich helig ⊢
  cases hrich with
  | none hnone =>
    obtain ⟨a,ha,helig⟩ := helig
    exact absurd helig (hnone a ha)
  | some ha hbefore hafter => exact ⟨_,_,_,rfl,ha,rfl,hbefore,hafter⟩

/-- Three answers: one of two records that comes too soon, and two of one record. -/
def threeAnswers : Conn where
  arrivals := [⟨⟨7,[.other,.other],[],[]⟩,5,false⟩,⟨⟨7,[.other],[],[]⟩,30,false⟩,
    ⟨⟨7,[],[.other],[]⟩,40,false⟩]
  readErr := "i/o timeout"
  finished := 100

theorem exchangeWithConnContext_richest_three :
    (∀ a ∈ threeAnswers.arrivals, a.edns0 = false) ∧
    ∃ a ∈ threeAnswers.arrivals, exchangeWithConnContext ⟨100,20⟩ ⟨7,[],[],[]⟩ threeAnswers =
      ⟨some a.msg,a.rtt,none⟩ := by
  have hsubnet : ∀ a ∈ threeAnswers.arrivals, a.edns0 = false := by simp [threeAnswers]
  have hreads : Client.reads ⟨100,20⟩ threeAnswers.arrivals = threeAnswers.arrivals := by rfl
  obtain ⟨before,a,after,hsplit,-,hrun,-⟩ :=
    exchangeWithConnContext_richest (c := ⟨100,20⟩) (m := ⟨7,[],[],[]⟩) (by decide) rfl hsubnet
      ⟨⟨⟨7,[.other],[],[]⟩,30,false⟩,by rw [hreads]; simp [threeAnswers],rfl,by decide⟩
  exact ⟨hsubnet,a,by rw [← hreads,hsplit]; simp,hrun⟩

end Richest

end AntiHijack
end Enimul
