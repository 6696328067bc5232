import Enimul.TunBridge

/-! What the buffering connection passes on.
The bytes that reach the peer depend on the bytes of the client only, not on how they
are cut into writes, as long as the first record is accepted. A first record that the
parser rejects is passed on as well, but bytes that are already buffered behind it
are then sent twice. -/
namespace Enimul
namespace TunBridge

open GoSlice GoText ClientHello PeerProgram Policies Fragment DomainMatcher

/-- On a peer that never refuses, the action sends these bytes and returns `a`. -/
def Delivers {α : Type} (m : Act Event α) (d : Bytes) (a : α) : Prop :=
  ∃ es, Completes m es a ∧ wire es = d

namespace Delivers

variable {α β : Type} {m : Act Event α} {d₁ d₂ : Bytes} {a : α} {b : β}

theorem pure (a : α) : Delivers (pure a) [] a := ⟨[],Completes.pure a,rfl⟩

theorem ofSends (h : Sends m d₁ a) : Delivers m d₁ a := by
  obtain ⟨es,he,hw⟩ := h
  exact ⟨es,he.completes,hw⟩

theorem attempt (h : Delivers m d₁ a) : Delivers (attempt m) d₁ (.ok a) := by
  obtain ⟨es,he,hw⟩ := h
  exact ⟨es,he.attempt,hw⟩

theorem checked {c : Checked α} {f : α → Act Event β} (hc : c = .ok a)
    (hf : Delivers (f a) d₁ b) : Delivers (fromChecked c >>= f) d₁ b := by
  obtain ⟨es,he,hw⟩ := hf
  exact ⟨es,Completes.checked hc he,hw⟩

theorem bind {f : α → Act Event β} (hm : Delivers m d₁ a) (hf : Delivers (f a) d₂ b) :
    Delivers (m >>= f) (d₁++d₂) b := by
  obtain ⟨es,he,rfl⟩ := hm
  obtain ⟨fs,hf,rfl⟩ := hf
  exact ⟨es++fs,he.bind hf,wire_append es fs⟩

/-- A step after which nothing more is sent. -/
theorem last {f : α → Act Event β} (hm : Delivers m d₁ a) (hf : f a = Pure.pure b) :
    Delivers (m >>= f) d₁ b := by
  have hb := bind hm (f := f) (hf ▸ pure b)
  rwa [List.append_nil] at hb

theorem congr (h : Delivers m d₁ a) (hd : d₁ = d₂) : Delivers m d₂ a := hd ▸ h

end Delivers

/-- The stream starts with the type and the major version of a handshake record. -/
def tlsHeader (s : Bytes) : Bool := s.take 2 = [0x16,0x03]

/-- The first record of the stream, once it is complete. -/
def firstRecord (s : Bytes) : Option Bytes :=
  if 5 ≤ s.length ∧ tlsHeader s then
    match uint16At s 3 with
    | .ok n => if 5+n ≤ s.length then some (s.take (5+n)) else none
    | .error _ => none
  else none

theorem firstRecord_cases (s : Bytes) (h : 5 ≤ s.length) (ht : tlsHeader s) :
    ∃ n, uint16At s 3 = .ok n ∧
      firstRecord s = if 5+n ≤ s.length then some (s.take (5+n)) else none := by
  obtain ⟨n,hn,-⟩ := uint16At_of_le (s := s) (i := 3) (by omega)
  exact ⟨n,hn,by rw [firstRecord,if_pos ⟨h,ht⟩,hn]⟩

theorem firstRecord_some {s record : Bytes} (h : firstRecord s = some record) :
    5 ≤ s.length ∧ tlsHeader s ∧
      ∃ n, uint16At s 3 = .ok n ∧ 5+n ≤ s.length ∧ record = s.take (5+n) := by
  by_cases hs : 5 ≤ s.length ∧ tlsHeader s
  · obtain ⟨n,hn,hf⟩ := firstRecord_cases s hs.1 hs.2
    rw [h] at hf
    split at hf
    · rename_i hle
      exact ⟨hs.1,hs.2,n,hn,hle,Option.some.inj hf⟩
    · exact absurd hf (by simp)
  · rw [firstRecord,if_neg hs] at h
    exact absurd h (by simp)

theorem tlsHeader_append {s : Bytes} (t : Bytes) (h : 5 ≤ s.length) :
    tlsHeader (s++t) = tlsHeader s := by
  rw [tlsHeader,tlsHeader,List.take_append_of_le_length (by omega)]

/-- A complete first record stays the first record when more bytes arrive. -/
theorem firstRecord_append {s record : Bytes} (t : Bytes) (h : firstRecord s = some record) :
    firstRecord (s++t) = some record := by
  obtain ⟨hlen,ht,n,hn,hle,rfl⟩ := firstRecord_some h
  have hlen' : 5 ≤ (s++t).length := by rw [List.length_append]; omega
  rw [firstRecord,if_pos ⟨hlen',by rwa [tlsHeader_append t hlen]⟩,uint16At_append t (by omega),hn]
  dsimp only
  rw [if_pos (by rw [List.length_append]; omega),List.take_append_of_le_length hle]

def accepted (record : Bytes) : Bool :=
  match parseClientHello record with
  | .ok r => r.err.isNone
  | .error _ => false

/-- The bytes that an action sends to a peer that never refuses. -/
def output (m : Act Event Unit) : Bytes :=
  match m ⟨fun _ _ => none,[]⟩ with
  | .ok (_,q) => wire q.log
  | .error _ => []

theorem output_eq {m : Act Event Unit} {d : Bytes} (h : Delivers m d ()) : output m = d := by
  obtain ⟨es,he,rfl⟩ := h
  simp [output,he ⟨fun _ _ => none,[]⟩ fun _ _ => rfl]

section Stream

variable (env : Env) (plan : DialPlan)

/-- The server name is there and the fragmenter may be used on it. -/
def hasPlainSNI (r : Parsed) : Bool := 0 < r.sniStart ∧ r.sniLen ≠ 0 ∧ r.hasECH = false

/-- The policy turns down the ClientHello in this record. -/
def rejected (record : Bytes) : Bool :=
  match parseClientHello record with
  | .ok r => plan.policy.mode = .tlsAlert ∨
      (plan.policy.tls13Only.isTrue ∧ r.hasKeyShare = false) ∨
      (hasPlainSNI r ∧ (sniPolicyMode env record r = .ok (some .block) ∨
        sniPolicyMode env record r = .ok (some .tlsAlert)))
  | .error _ => false

/-- What becomes of an accepted first record. -/
def forwarded (record : Bytes) : Bytes :=
  match parseClientHello record with
  | .ok r =>
    if plan.policy.mode = .tlsRF ∧ hasPlainSNI r then
      let p := plan.policy
      output (sendRecords record r.sniStart r.sniLen p.numRecords p.numSegments p.minorVer
        p.oob.isTrue p.oobEx.isTrue p.waitForAck.isTrue p.sendInterval)
    else record
  | .error _ => record

/-- What the peer has received when the client has written `s`. -/
def delivered (s : Bytes) : Bytes :=
  if plan.policy.mode = .raw then s
  else if s.length < 5 then []
  else if ¬ tlsHeader s then s
  else match firstRecord s with
    | none => []
    | some record => forwarded plan record++s.drop record.length

/-- The connection has seen enough of the stream to decide. -/
def Settled (s : Bytes) : Prop :=
  (plan.policy.mode = .raw ∧ s ≠ []) ∨
    (plan.policy.mode ≠ .raw ∧ 5 ≤ s.length ∧ (tlsHeader s → firstRecord s ≠ none))

theorem delivered_of_not_settled {s : Bytes} (h : ¬ Settled plan s) :
    delivered plan s = [] := by
  rw [delivered]
  by_cases hraw : plan.policy.mode = .raw
  · rw [if_pos hraw]
    by_contra hs
    exact h (.inl ⟨hraw,hs⟩)
  rw [if_neg hraw]
  by_cases hlen : s.length < 5
  · rw [if_pos hlen]
  rw [if_neg hlen]
  by_cases ht : tlsHeader s
  · rw [if_neg (by simp [ht])]
    cases hf : firstRecord s with
    | none => rfl
    | some record => exact absurd (.inr ⟨hraw,by omega,fun _ => by simp [hf]⟩) h
  · exact absurd (.inr ⟨hraw,by omega,fun hc => absurd hc ht⟩) h

theorem Settled.append {s : Bytes} (h : Settled plan s) (t : Bytes) : Settled plan (s++t) := by
  rcases h with ⟨hraw,hs⟩ | ⟨hraw,hlen,ht⟩
  · exact .inl ⟨hraw,by simp [hs]⟩
  · refine .inr ⟨hraw,by rw [List.length_append]; omega,fun hh => ?_⟩
    rw [tlsHeader_append t hlen] at hh
    obtain ⟨record,hr⟩ := Option.ne_none_iff_exists'.mp (ht hh)
    rw [firstRecord_append t hr]
    simp

/-- Once the connection has decided, everything further is passed on as it is. -/
theorem delivered_append {s : Bytes} (h : Settled plan s) (t : Bytes) :
    delivered plan (s++t) = delivered plan s++t := by
  rcases h with ⟨hraw,hs⟩ | ⟨hraw,hlen,ht⟩
  · rw [delivered,delivered,if_pos hraw,if_pos hraw]
  have hlen' : ¬ (s++t).length < 5 := by rw [List.length_append]; omega
  rw [delivered,delivered,if_neg hraw,if_neg hraw,if_neg hlen',if_neg (Nat.not_lt.mpr hlen),
    tlsHeader_append t hlen]
  by_cases hh : tlsHeader s
  · obtain ⟨record,hr⟩ := Option.ne_none_iff_exists'.mp (ht hh)
    obtain ⟨-,-,n,-,hle,hrec⟩ := firstRecord_some hr
    have hle' : record.length ≤ s.length := by rw [hrec,List.length_take]; omega
    rw [if_neg (by simp [hh]),if_neg (by simp [hh]),hr,firstRecord_append t hr]
    simp only [List.drop_append_of_le_length hle',List.append_assoc]
  · rw [if_pos hh,if_pos hh]

theorem flushPendingLocked_delivers (c : TunPolicyConn) :
    Delivers (flushPendingLocked c) c.pending (none,{c with handled := true, pending := []}) := by
  rw [flushPendingLocked]
  split
  · rename_i hlen
    have hp := List.length_eq_zero_iff.mp hlen
    obtain ⟨handled,closed,pending⟩ := c
    dsimp only at hp
    subst hp
    exact Delivers.pure _
  · have hw := (Delivers.ofSends (Sends.write c.pending)).attempt
    exact hw.last rfl

theorem flushAndReport_delivers (c : TunPolicyConn) :
    Delivers (flushAndReport c) c.pending (true,{handled := true}) :=
  (flushPendingLocked_delivers c).last rfl

theorem forwardTLS_delivers {c : TunPolicyConn} {mode : Mode} {record d : Bytes} {r : Parsed}
    (h : Delivers (sendTLS env plan mode record r) d ()) :
    Delivers (forwardTLS env plan c mode record r) d (none,c) :=
  h.attempt.last rfl

/-- A record that the parser rejects makes the connection flush its whole buffer. -/
theorem handleTLSLocked_flushes (c : TunPolicyConn) {record : Bytes} (hlen : 5 ≤ record.length)
    (h : accepted record = false) :
    Delivers (handleTLSLocked env plan c record) c.pending
      (none,{c with handled := true, pending := []}) := by
  obtain ⟨r,hr,-⟩ := parseClientHello_returns record hlen
  simp only [accepted,hr] at h
  refine Delivers.checked hr ?_
  dsimp only
  rw [if_pos (by simpa using h)]
  exact flushPendingLocked_delivers c

theorem sendTLS_direct_delivers (record : Bytes) (r : Parsed) :
    Delivers (sendTLS env plan .direct record r) record () :=
  Delivers.ofSends (Sends.write record)

section Named

variable {record : Bytes} {r : Parsed}

theorem sendTLS_tlsRF_delivers (hlo : 58 ≤ r.sniStart) (hhi : r.sniStart+r.sniLen ≤ record.length) :
    Delivers (sendTLS env plan .tlsRF record r) (output (sendTLS env plan .tlsRF record r)) () := by
  obtain ⟨es,he⟩ := sendRecords_emits r.sniLen plan.policy.numRecords plan.policy.numSegments
    plan.policy.minorVer plan.policy.oob.isTrue plan.policy.oobEx.isTrue
    plan.policy.waitForAck.isTrue plan.policy.sendInterval hlo
    (show r.sniStart ≤ record.length by omega)
  have hd : Delivers (sendTLS env plan .tlsRF record r) (wire es) () := ⟨es,he.completes,rfl⟩
  exact hd.congr (output_eq hd).symm

theorem sniPolicyMode_returns (hlo : 58 ≤ r.sniStart) (hhi : r.sniStart+r.sniLen ≤ record.length) :
    ∃ m, sniPolicyMode env record r = .ok m := by
  rw [sniPolicyMode,slice_of_le (by omega) (by omega),ok_bind]
  split <;> exact ⟨_,rfl⟩

theorem hasECH_of_not_plain (hplain : ¬ hasPlainSNI r = true)
    (hsome : ¬(r.sniStart ≤ 0 ∨ r.sniLen = 0)) : r.hasECH = true := by
  simp only [hasPlainSNI,decide_eq_true_eq] at hplain
  cases he : r.hasECH with
  | true => rfl
  | false => exact absurd ⟨by omega,by omega,he⟩ hplain

end Named

/-- An accepted record that the policy does not turn down is forwarded. -/
theorem handleTLSLocked_forwards (c : TunPolicyConn) {record : Bytes} (hlen : 5 ≤ record.length)
    (hmode : plan.policy.mode = .direct ∨ plan.policy.mode = .tlsRF) (hacc : accepted record)
    (hrej : rejected env plan record = false) :
    Delivers (handleTLSLocked env plan c record) (forwarded plan record) (none,c) := by
  obtain ⟨r,hr,hs⟩ := parseClientHello_returns record hlen
  simp only [accepted,hr,Option.isNone_iff_eq_none] at hacc
  simp only [rejected,hr,decide_eq_false_iff_not,not_or,not_and] at hrej
  obtain ⟨halert,hkey,hsni⟩ := hrej
  rw [forwarded,hr]
  refine Delivers.checked hr ?_
  have hdirect := sendTLS_direct_delivers env plan record r
  dsimp only
  rw [if_neg (by simp [hacc]),if_neg halert,if_neg (by simpa using hkey)]
  by_cases hplain : hasPlainSNI r
  · obtain ⟨hstart,hn,hech⟩ : 0 < r.sniStart ∧ r.sniLen ≠ 0 ∧ r.hasECH = false := by
      simpa [hasPlainSNI] using hplain
    obtain ⟨hlo,hhi⟩ : 58 ≤ r.sniStart ∧ r.sniStart+r.sniLen ≤ record.length := by
      rcases (hs hacc).2 with hname | hname
      · omega
      · exact hname
    obtain ⟨sniMode,hsm⟩ := sniPolicyMode_returns env hlo hhi
    obtain ⟨hblock,hsa⟩ := hsni hplain
    rw [hsm,Except.ok.injEq] at hblock hsa
    rw [if_neg (by omega),if_neg (by simp [hech])]
    refine Delivers.checked hsm ?_
    rw [if_neg hblock,if_neg hsa]
    apply forwardTLS_delivers
    rcases hmode with hm | hm
    · rw [hm,if_neg (by simp)]
      exact hdirect
    · rw [hm,if_pos ⟨rfl,hplain⟩]
      exact sendTLS_tlsRF_delivers env plan hlo hhi
  · rw [if_neg (show ¬ (plan.policy.mode = .tlsRF ∧ hasPlainSNI r = true) from fun h => hplain h.2)]
    by_cases hno : r.sniStart ≤ 0 ∨ r.sniLen = 0
    · rw [if_pos hno]
      exact forwardTLS_delivers env plan hdirect
    · rw [if_neg hno,if_pos (hasECH_of_not_plain hplain hno)]
      exact forwardTLS_delivers env plan hdirect

theorem forwardTail_delivers (c : TunPolicyConn) (tail : Bytes) :
    Delivers (forwardTail c tail) tail (true,c) := by
  rw [forwardTail]
  split
  · rename_i hlen
    rw [List.length_eq_zero_iff.mp hlen]
    exact Delivers.pure _
  · exact (Delivers.ofSends (Sends.write tail)).attempt.last rfl

theorem index_header {s : Bytes} (h : 5 ≤ s.length) :
    ∃ b₀ b₁, index s 0 = .ok b₀ ∧ index s 1 = .ok b₁ ∧
      (tlsHeader s ↔ b₀ = 0x16 ∧ b₁ = 0x03) := by
  refine ⟨s[0],s[1],index_of_lt (by omega),index_of_lt (by omega),?_⟩
  match s, h with
  | a::b::rest, _ => simp [tlsHeader]

/-- The modes of the stream results. -/
def Forwarding : Prop :=
  plan.policy.mode = .raw ∨ plan.policy.mode = .direct ∨ plan.policy.mode = .tlsRF

variable {plan}

theorem Forwarding.not_blocked (h : Forwarding plan) :
    ¬ (plan.blocked = true ∨ plan.policy.mode = .block) := by
  rintro (hb | hb)
  · have hp := plan.blocked_policy hb
    rcases h with h | h | h <;> simp [hp] at h
  · rcases h with h | h | h <;> simp [hb] at h

/-- As long as the stream is not decided nothing happens to the bytes in the buffer. -/
theorem tryHandlePendingLocked_idle (hopen : ¬ (plan.blocked = true ∨ plan.policy.mode = .block))
    {s : Bytes} (h : ¬ Settled plan s) :
    tryHandlePendingLocked env plan {pending := s} = pure (false,{pending := s}) := by
  rw [tryHandlePendingLocked]
  by_cases hne : s.length = 0
  · exact if_pos hne
  have hraw : plan.policy.mode ≠ .raw := fun hraw => h (.inl ⟨hraw,fun hs => hne (by simp [hs])⟩)
  rw [if_neg hne,if_neg hopen,if_neg hraw]
  by_cases hlen : s.length < 5
  · exact if_pos hlen
  have hlen' : 5 ≤ s.length := Nat.not_lt.mp hlen
  obtain ⟨b₀,b₁,h₀,h₁,hh⟩ := index_header hlen'
  rw [if_neg hlen]
  rw [fromChecked_bind h₀,fromChecked_bind h₁]
  by_cases ht : tlsHeader s
  · obtain ⟨n,hn,hf⟩ := firstRecord_cases s hlen' ht
    rw [if_pos (hh.mp ht),handleRecordLocked,fromChecked_bind hn]
    by_cases hle : 5+n ≤ s.length
    · rw [if_pos hle] at hf
      exact absurd (.inr ⟨hraw,hlen',fun _ => by simp [hf]⟩) h
    · exact if_pos (Nat.lt_of_not_le hle)
  · exact absurd (.inr ⟨hraw,hlen',fun hc => absurd hc ht⟩) h

theorem tryHandlePendingLocked_waits (hmode : Forwarding plan) {s : Bytes}
    (h : ¬ Settled plan s) :
    Delivers (tryHandlePendingLocked env plan {pending := s}) [] (false,{pending := s}) := by
  rw [tryHandlePendingLocked_idle env hmode.not_blocked h]
  exact Delivers.pure _

/-- The first record is complete: it is handled, and the bytes behind it follow. -/
theorem tryHandlePendingLocked_decides (hopen : ¬ (plan.blocked = true ∨ plan.policy.mode = .block))
    (hraw : plan.policy.mode ≠ .raw) {s record : Bytes} (hf : firstRecord s = some record) :
    tryHandlePendingLocked env plan {pending := s} = (do
      let out ← handleTLSLocked env plan {pending := s} record
      if out.1.isSome then return (true,{out.2 with closed := true})
      else forwardTail {out.2 with handled := true, pending := []} (s.drop record.length)) := by
  obtain ⟨hlen,ht,n,hn,hle,rfl⟩ := firstRecord_some hf
  obtain ⟨b₀,b₁,h₀,h₁,hh⟩ := index_header hlen
  rw [tryHandlePendingLocked,if_neg (show ¬ s.length = 0 by omega),if_neg hopen,
    if_neg hraw,if_neg (show ¬ s.length < 5 by omega),fromChecked_bind h₀,fromChecked_bind h₁,
    if_pos (hh.mp ht),handleRecordLocked,fromChecked_bind hn,List.length_take,Nat.min_eq_left hle]
  dsimp only
  rw [if_neg (by omega),fromChecked_bind (sliceTo_of_le hle),fromChecked_bind (sliceFrom_of_le hle)]

theorem tryHandlePendingLocked_record (hopen : ¬ (plan.blocked = true ∨ plan.policy.mode = .block))
    (hraw : plan.policy.mode ≠ .raw) {s record d : Bytes} {c : TunPolicyConn} (hf : firstRecord s = some record)
    (hc : c.closed = false)
    (h : Delivers (handleTLSLocked env plan {pending := s} record) d (none,c)) :
    Delivers (tryHandlePendingLocked env plan {pending := s}) (d++s.drop record.length)
      (true,{handled := true}) := by
  rw [tryHandlePendingLocked_decides env hopen hraw hf]
  have hcf : {c with handled := true, pending := []} = ({handled := true} : TunPolicyConn) := by
    rw [hc]
  refine Delivers.bind h ?_
  dsimp only
  rw [if_neg (by simp),hcf]
  exact forwardTail_delivers _ _

theorem Forwarding.of_not_raw (h : Forwarding plan) (hraw : plan.policy.mode ≠ .raw) :
    plan.policy.mode = .direct ∨ plan.policy.mode = .tlsRF := h.resolve_left hraw

theorem firstRecord_length {s record : Bytes} (h : firstRecord s = some record) :
    5 ≤ record.length := by
  obtain ⟨hlen,-,n,-,hle,rfl⟩ := firstRecord_some h
  rw [List.length_take]
  omega

/-- A stream that does not start with a handshake record is flushed. -/
theorem tryHandlePendingLocked_flushes (hmode : Forwarding plan) {s : Bytes} (hne : s ≠ [])
    (h : plan.policy.mode = .raw ∨ (5 ≤ s.length ∧ tlsHeader s = false)) :
    Delivers (tryHandlePendingLocked env plan {pending := s}) s (true,{handled := true}) := by
  have hpos := List.length_pos_of_ne_nil hne
  rw [tryHandlePendingLocked,if_neg (show ¬ s.length = 0 by omega),if_neg hmode.not_blocked]
  split
  · exact flushAndReport_delivers _
  rename_i hraw
  obtain ⟨hlen,ht⟩ := h.resolve_left hraw
  obtain ⟨b₀,b₁,h₀,h₁,hh⟩ := index_header hlen
  rw [if_neg (show ¬ s.length < 5 by omega)]
  refine Delivers.checked h₀ ?_
  refine Delivers.checked h₁ ?_
  rw [if_neg (by rw [← hh,ht]; simp)]
  exact flushAndReport_delivers _

/-- The first complete record of the stream is one the connection lets through. -/
def FirstAccepted (plan : DialPlan) (s : Bytes) : Prop :=
  ∀ record, firstRecord s = some record → accepted record ∧ rejected env plan record = false

theorem tryHandlePendingLocked_settles (hmode : Forwarding plan) {s : Bytes}
    (hset : Settled plan s) (hok : FirstAccepted env plan s) :
    Delivers (tryHandlePendingLocked env plan {pending := s}) (delivered plan s)
      (true,{handled := true}) := by
  rcases hset with ⟨hraw,hs⟩ | ⟨hraw,hlen,ht⟩
  · rw [delivered,if_pos hraw]
    exact tryHandlePendingLocked_flushes env hmode hs (.inl hraw)
  rw [delivered,if_neg hraw,if_neg (Nat.not_lt.mpr hlen)]
  by_cases hh : tlsHeader s
  · obtain ⟨record,hr⟩ := Option.ne_none_iff_exists'.mp (ht hh)
    obtain ⟨hacc,hrej⟩ := hok record hr
    rw [if_neg (by simp [hh]),hr]
    exact tryHandlePendingLocked_record env hmode.not_blocked hraw hr rfl
      (handleTLSLocked_forwards env plan _ (firstRecord_length hr) (hmode.of_not_raw hraw) hacc hrej)
  · rw [if_pos hh]
    have hne : s ≠ [] := List.ne_nil_of_length_pos (by omega)
    exact tryHandlePendingLocked_flushes env hmode hne (.inr ⟨hlen,by simpa using hh⟩)

theorem write_handled (b : Bytes) :
    Delivers (TunPolicyConn.write env plan {handled := true} b) b
      ((b.length,none),{handled := true}) :=
  (Delivers.ofSends (Sends.write b)).attempt.last rfl

theorem write_pending {s b d : Bytes} {out : Bool × TunPolicyConn}
    (h : Delivers (tryHandlePendingLocked env plan {pending := s++b}) d out) :
    Delivers (TunPolicyConn.write env plan {pending := s} b) d ((b.length,none),out.2) :=
  h.last rfl

/-- After the decision a client's bytes are passed on write by write. -/
theorem writeAll_handled (bs : List Bytes) :
    Delivers (writeAll env plan bs {handled := true}) bs.flatten {handled := true} := by
  induction bs with
  | nil => exact Delivers.pure _
  | cons b bs ih => exact (write_handled env b).bind ih

/-- The writes before the decision only fill the buffer. -/
theorem writeAll_waits (hmode : Forwarding plan) {as bs : List Bytes} {s d : Bytes}
    {c : TunPolicyConn} (h : ¬ Settled plan (s++as.flatten))
    (hb : Delivers (writeAll env plan bs {pending := s++as.flatten}) d c) :
    Delivers (writeAll env plan (as++bs) {pending := s}) d c := by
  induction as generalizing s with
  | nil => simpa using hb
  | cons a as ih =>
    rw [List.flatten_cons,← List.append_assoc] at h hb
    have ha : ¬ Settled plan (s++a) := fun hc => h (hc.append plan as.flatten)
    exact (write_pending env (tryHandlePendingLocked_waits env hmode ha)).bind (ih h hb)

theorem FirstAccepted.of_append {s t : Bytes} (h : FirstAccepted env plan (s++t)) :
    FirstAccepted env plan s := fun record hr => h record (firstRecord_append t hr)

/-- From a buffer `s` on, the client's bytes are delivered as the whole stream is. -/
theorem writeAll_delivers (hmode : Forwarding plan) (bs : List Bytes) {s : Bytes}
    (hs : ¬ Settled plan s) (hok : FirstAccepted env plan (s++bs.flatten)) :
    ∃ c, Delivers (writeAll env plan bs {pending := s}) (delivered plan (s++bs.flatten)) c := by
  induction bs generalizing s with
  | nil =>
    rw [List.flatten_nil,List.append_nil,delivered_of_not_settled plan hs]
    exact ⟨_,Delivers.pure _⟩
  | cons b bs ih =>
    rw [List.flatten_cons,← List.append_assoc] at hok ⊢
    by_cases hb : Settled plan (s++b)
    · have hstep := write_pending env (tryHandlePendingLocked_settles env hmode hb hok.of_append)
      rw [delivered_append plan hb]
      exact ⟨_,hstep.bind (writeAll_handled env bs)⟩
    · obtain ⟨c,hc⟩ := ih hb hok
      exact ⟨c,(write_pending env (tryHandlePendingLocked_waits env hmode hb)).bind hc⟩

theorem not_settled_nil : ¬ Settled plan [] := by
  rintro (⟨-,h⟩ | ⟨-,h,-⟩)
  · exact h rfl
  · simp at h

/-- What the peer receives depends on the stream of the client only. -/
theorem writeAll_chunking_independent (hmode : Forwarding plan) (bs : List Bytes)
    (hok : FirstAccepted env plan bs.flatten) {p : Peer Event} (hp : Reliable p) :
    ∃ c es, writeAll env plan bs {} p = .ok (.ok c,push p es) ∧
      wire es = delivered plan bs.flatten := by
  obtain ⟨c,es,he,hw⟩ := writeAll_delivers env hmode bs not_settled_nil hok
  exact ⟨c,es,he p hp,hw⟩

theorem forall_firstRecord {s : Bytes} {P : Bytes → Prop} (record : Bytes)
    (hs : firstRecord s = some record) (h : P record) : ∀ r, firstRecord s = some r → P r := by
  intro r hr
  rw [hs,Option.some.injEq] at hr
  exact hr ▸ h

/-- No rules, and a TTL mode that sends nothing. -/
def noRules : Env where
  domainMatcher := newDomainMatcher
  defaultPolicy := {}
  getFakeTTL _ _ _ := pure 0
  desyncSend _ _ _ _ _ _ := pure ()

def planFor (policy : Policy) : DialPlan := ⟨[],policy,false,by simp⟩

/-- Three records and two segments, and a ClientHello that arrives in two pieces. -/
theorem writeAll_chunking_independent_short :
    ∃ c es, writeAll noRules (planFor {mode := .tlsRF, numRecords := 3, numSegments := 2})
        [shortHello.take 4,shortHello.drop 4++[1,2]] {} ⟨fun _ _ => none,[]⟩ =
          .ok (.ok c,push ⟨fun _ _ => none,[]⟩ es) ∧
      wire es = delivered (planFor {mode := .tlsRF, numRecords := 3, numSegments := 2})
        [shortHello.take 4,shortHello.drop 4++[1,2]].flatten :=
  writeAll_chunking_independent noRules (.inr (.inr rfl)) _
    (forall_firstRecord shortHello (by decide +kernel) (by decide +kernel))
    fun _ _ => rfl

/-- This write completes a first record that the parser rejects, and brings further bytes. -/
def RejectedWithTail (s b : Bytes) : Prop :=
  firstRecord s = none ∧
    ∃ record, firstRecord (s++b) = some record ∧ accepted record = false ∧ s++b ≠ record

/-- A rejected first record: the buffer is flushed, and the bytes behind the record follow
a second time. -/
theorem tryHandlePendingLocked_rejects (hmode : Forwarding plan) (hraw : plan.policy.mode ≠ .raw)
    {s record : Bytes} (hf : firstRecord s = some record) (h : accepted record = false) :
    Delivers (tryHandlePendingLocked env plan {pending := s}) (s++s.drop record.length)
      (true,{handled := true}) :=
  tryHandlePendingLocked_record env hmode.not_blocked hraw hf rfl
    (handleTLSLocked_flushes env plan {pending := s} (firstRecord_length hf) h)

theorem firstRecord_of_not_settled (hraw : plan.policy.mode ≠ .raw) {s : Bytes}
    (h : ¬ Settled plan s) : firstRecord s = none := by
  cases hf : firstRecord s with
  | none => rfl
  | some record =>
    have hlen := (firstRecord_some hf).1
    exact absurd (.inr ⟨hraw,hlen,fun _ => by simp [hf]⟩) h

theorem delivered_direct (hmode : plan.policy.mode = .direct) {s : Bytes} (h : Settled plan s) :
    delivered plan s = s := by
  have hraw : plan.policy.mode ≠ .raw := by simp [hmode]
  obtain ⟨-,hlen,ht⟩ := h.resolve_left fun hc => hraw hc.1
  rw [delivered,if_neg hraw,if_neg (Nat.not_lt.mpr hlen)]
  by_cases hh : tlsHeader s
  · obtain ⟨record,hr⟩ := Option.ne_none_iff_exists'.mp (ht hh)
    obtain ⟨-,-,n,-,hle,hrec⟩ := firstRecord_some hr
    have hfwd : forwarded plan record = record := by
      rw [forwarded,hmode]
      split <;> simp
    rw [if_neg (by simp [hh]),hr]
    dsimp only
    rw [hfwd,hrec,List.length_take,Nat.min_eq_left hle,List.take_append_drop]
  · rw [if_pos hh]

/-- In direct mode the decision passes on the buffer once, unless the parser rejects the
first record and bytes follow it. -/
theorem tryHandlePendingLocked_direct (hmode : plan.policy.mode = .direct) {s : Bytes}
    (hset : Settled plan s)
    (hrej : ∀ record, firstRecord s = some record → rejected env plan record = false)
    (hclean : ∀ record, firstRecord s = some record → accepted record = false → s = record) :
    Delivers (tryHandlePendingLocked env plan {pending := s}) s (true,{handled := true}) := by
  have hf : Forwarding plan := .inr (.inl hmode)
  by_cases hacc : ∃ record, firstRecord s = some record ∧ accepted record = false
  · obtain ⟨record,hr,ha⟩ := hacc
    have hall := hclean record hr ha
    refine (tryHandlePendingLocked_rejects env hf (by simp [hmode]) hr ha).congr ?_
    rw [← hall,List.drop_length,List.append_nil]
  · have hok : FirstAccepted env plan s := fun record hr =>
      ⟨by simpa using fun ha => hacc ⟨record,hr,ha⟩,hrej record hr⟩
    exact (tryHandlePendingLocked_settles env hf hset hok).congr (delivered_direct hmode hset)

theorem writeAll_direct (hmode : plan.policy.mode = .direct) (bs : List Bytes) {s : Bytes}
    (hs : ¬ Settled plan s)
    (hrej : ∀ record, firstRecord (s++bs.flatten) = some record →
      rejected env plan record = false)
    (hclean : ∀ as b rest, bs = as++b::rest → ¬ RejectedWithTail (s++as.flatten) b) :
    ∃ c d, Delivers (writeAll env plan bs {pending := s}) d c ∧ d <+: s++bs.flatten := by
  have hf : Forwarding plan := .inr (.inl hmode)
  induction bs generalizing s with
  | nil => exact ⟨_,[],Delivers.pure _,List.nil_prefix⟩
  | cons b bs ih =>
    rw [List.flatten_cons,← List.append_assoc] at hrej ⊢
    by_cases hb : Settled plan (s++b)
    · have hstep := tryHandlePendingLocked_direct env hmode hb
        (fun record hr => hrej record (firstRecord_append _ hr)) fun record hr ha => by
          by_contra hne
          have hnone := firstRecord_of_not_settled (by simp [hmode]) hs
          refine hclean [] b bs rfl ?_
          rw [List.flatten_nil,List.append_nil]
          exact ⟨hnone,record,hr,ha,hne⟩
      exact ⟨_,_,(write_pending env hstep).bind (writeAll_handled env bs),List.prefix_refl _⟩
    · obtain ⟨c,d,hd,hpre⟩ := ih hb hrej fun as b' rest heq => by
        have := hclean (b::as) b' rest (by rw [heq,List.cons_append])
        rwa [List.flatten_cons,← List.append_assoc] at this
      exact ⟨c,d,(write_pending env (tryHandlePendingLocked_waits env hf hb)).bind hd,hpre⟩

/-- Before the write that completes the first record nothing is decided. -/
theorem not_settled_of_firstRecord (hraw : plan.policy.mode ≠ .raw) {s t record : Bytes}
    (hnone : firstRecord s = none) (hr : firstRecord (s++t) = some record) : ¬ Settled plan s := by
  intro hc
  obtain ⟨-,hlen,ht⟩ := hc.resolve_left fun hc => hraw hc.1
  have hh := (firstRecord_some hr).2.1
  rw [tlsHeader_append t hlen] at hh
  exact ht hh hnone

/-- A rejected record with bytes behind it reaches the peer with these bytes doubled. -/
theorem writeAll_rejectedWithTail (hmode : plan.policy.mode = .direct) {as : List Bytes}
    {b : Bytes} (h : RejectedWithTail as.flatten b) :
    ∃ c d, Delivers (writeAll env plan (as++[b]) {}) d c ∧ (as.flatten++b).length < d.length := by
  obtain ⟨hnone,record,hr,ha,hne⟩ := h
  have hf : Forwarding plan := .inr (.inl hmode)
  have hraw : plan.policy.mode ≠ .raw := by simp [hmode]
  have hs : ¬ Settled plan as.flatten := not_settled_of_firstRecord hraw hnone hr
  have hstep := write_pending env (tryHandlePendingLocked_rejects env hf hraw hr ha)
  refine ⟨_,_,writeAll_waits env hf (s := []) (by simpa using hs) (hstep.last rfl),?_⟩
  obtain ⟨-,-,n,-,hle,hrec⟩ := firstRecord_some hr
  have htail : (as.flatten++b).drop record.length ≠ [] := by
    intro hd
    apply hne
    rw [hrec,List.length_take,Nat.min_eq_left hle] at hd
    rw [hrec,← List.append_nil (List.take _ _),← hd,List.take_append_drop]
  have hpos := List.length_pos_of_ne_nil htail
  have hlen : (as.flatten++b++(as.flatten++b).drop record.length).length =
      (as.flatten++b).length+((as.flatten++b).drop record.length).length := List.length_append
  omega

/-- In direct mode the peer has received a prefix of what the client has written after
every write, exactly if no write completes a record that the parser rejects and brings
bytes behind it. -/
theorem writeAll_prefix_iff (hmode : plan.policy.mode = .direct) (bs : List Bytes)
    (hrej : ∀ record, firstRecord bs.flatten = some record → rejected env plan record = false)
    {p : Peer Event} (hp : Reliable p) :
    (∀ as rest, bs = as++rest → ∃ c es, writeAll env plan as {} p = .ok (.ok c,push p es) ∧
      wire es <+: as.flatten) ↔
    ∀ as b rest, bs = as++b::rest → ¬ RejectedWithTail as.flatten b := by
  constructor
  · intro hall as b rest hbs htail
    obtain ⟨c,es,hrun,hpre⟩ := hall (as++[b]) rest (by simp [hbs])
    obtain ⟨c',d,⟨es',he',rfl⟩,hlt⟩ := writeAll_rejectedWithTail env hmode htail
    rw [he' p hp] at hrun
    have hes : es' = es := by
      have hpush : push p es' = push p es := by injection hrun with h; injection h
      have hlog := congrArg Peer.log hpush
      simpa using hlog
    have hle := hpre.length_le
    rw [← hes] at hle
    simp only [List.flatten_append,List.flatten_singleton] at hle
    omega
  · intro hclean as rest hbs
    obtain ⟨c,d,⟨es,he,rfl⟩,hpre⟩ := writeAll_direct env hmode as (s := []) not_settled_nil
      (fun record hr => hrej record (by rw [hbs,List.flatten_append]; exact firstRecord_append _ hr))
      fun as' b rest' heq => hclean as' b (rest'++rest) (by rw [hbs,heq]; simp)
    exact ⟨c,es,he p hp,hpre⟩

end Stream

/-- An empty record and one byte behind it, in one write: the peer gets the byte twice. -/
theorem writeAll_duplicates_tail :
    ∃ c q, writeAll noRules (planFor {mode := .direct}) [[0x16,3,1,0,0,0x41]] {}
        ⟨fun _ _ => none,[]⟩ = .ok (.ok c,q) ∧
      wire q.log = [0x16,3,1,0,0,0x41,0x41] ∧ ¬ wire q.log <+: [[0x16,3,1,0,0,0x41]].flatten :=
  ⟨_,_,rfl,rfl,by decide⟩

theorem writeAll_prefix_iff_empty :
    (∀ as rest, [[0x16,3],[1,0,0],[0x41]] = as++rest →
      ∃ c es, writeAll noRules (planFor {mode := .direct}) as {} ⟨fun _ _ => none,[]⟩ =
        .ok (.ok c,push ⟨fun _ _ => none,[]⟩ es) ∧ wire es <+: as.flatten) ↔
    ∀ as b rest, [[0x16,3],[1,0,0],[0x41]] = as++b::rest → ¬ RejectedWithTail as.flatten b :=
  writeAll_prefix_iff noRules rfl _ (forall_firstRecord [0x16,3,1,0,0] (by decide) (by decide))
    fun _ _ => rfl

end TunBridge
end Enimul
