import Enimul.TunStream

/-! Connections that the policy turns down.
A rejected ClientHello closes the connection. Nothing is sent to the server on the way only
where the rejection does not come with an alert: the alert goes to the connection that the
client's bytes would have gone to. -/
namespace Enimul
namespace TunBridge

open GoSlice GoText ClientHello PeerProgram Policies Fragment DomainMatcher

section Reject

variable (env : Env) (plan : DialPlan)

/-- The policy rejects the ClientHello that `record` is parsed into. -/
def Rejects (record : Bytes) (r : Parsed) : Prop :=
  plan.blocked = true ∨ plan.policy.mode = .block ∨ plan.policy.mode = .tlsAlert ∨
    (plan.policy.tls13Only.isTrue = true ∧ r.hasKeyShare = false) ∨
    (0 < r.sniStart ∧ r.sniLen ≠ 0 ∧
      (sniPolicyMode env record r = .ok (some .block) ∨
        sniPolicyMode env record r = .ok (some .tlsAlert)))

/-- The rejection sends no alert, and the mode of the plan lets it come to a rejection. -/
def RejectsQuietly (record : Bytes) (r : Parsed) : Prop :=
  plan.blocked = true ∨ plan.policy.mode = .block ∨
    (plan.policy.mode ≠ .raw ∧ plan.policy.mode ≠ .tlsAlert ∧
      (plan.policy.tls13Only.isTrue = true → r.hasKeyShare = true) ∧ hasPlainSNI r = true ∧
      sniPolicyMode env record r = .ok (some .block))

/-- Whatever the server does, nothing is sent to it, and the next write fails. -/
def Silent (bs : List Bytes) : Prop :=
  ∀ p, ∃ c es, writeAll env plan bs {} p = .ok (.ok c,push p es) ∧ sends es = [] ∧
    ∀ b, ∃ n err c' q, c.write env plan b (push p es) = .ok (.ok ((n,some err),c'),q)

end Reject

variable {env : Env} {plan : DialPlan}

def Quiet (e : Event) : Prop := e.isSend = false

theorem sends_eq_nil_iff {es : List Event} : sends es = [] ↔ ∀ e ∈ es, Quiet e := by
  simp [sends,Quiet]

theorem write_closed {c : TunPolicyConn} (h : c.closed = true) (b : Bytes) :
    c.write env plan b = pure ((0,some "EOF"),c) := if_pos h

theorem writeAll_closed {c : TunPolicyConn} (h : c.closed = true) (bs : List Bytes) :
    writeAll env plan bs c = pure c := by
  induction bs with
  | nil => rfl
  | cons b bs ih =>
    rw [writeAll,write_closed h]
    exact ih

/-- A run that ends in a closed connection and has sent nothing. -/
theorem silent_of_only {bs : List Bytes} {c : TunPolicyConn} (hc : c.closed = true)
    (h : Only Quiet (writeAll env plan bs {}) c) : Silent env plan bs := by
  intro p
  obtain ⟨es,hrun,hes⟩ := h p
  refine ⟨c,es,hrun,sends_eq_nil_iff.mpr hes,fun b => ⟨0,"EOF",c,push p es,?_⟩⟩
  rw [write_closed hc]
  rfl

/-- A server that never refuses has received some bytes. -/
theorem not_silent_of_run {bs : List Bytes} {c : TunPolicyConn} {q : Peer Event}
    (h : writeAll env plan bs {} ⟨fun _ _ => none,[]⟩ = .ok (.ok c,q)) (hq : wire q.log ≠ []) :
    ¬ Silent env plan bs := by
  intro hs
  obtain ⟨c',es,hrun,hsends,-⟩ := hs ⟨fun _ _ => none,[]⟩
  rw [h] at hrun
  have hlog : q.log = es := congrArg (fun r => r.2.log) (Except.ok.inj hrun)
  apply hq
  rw [hlog,wire_eq_flatten_sends,hsends,List.flatten_nil]

theorem not_silent_of_delivers {bs : List Bytes} {c : TunPolicyConn} {d : Bytes} (hd : d ≠ [])
    (h : Delivers (writeAll env plan bs {}) d c) : ¬ Silent env plan bs := by
  obtain ⟨es,hcomplete,rfl⟩ := h
  exact not_silent_of_run (hcomplete _ fun _ _ => rfl) hd

theorem closeConn_only : Only Quiet closeConn () :=
  Only.tried (show Quiet .close from rfl) ()

theorem blockTLS_only (c : TunPolicyConn) :
    Only Quiet (blockTLS c) (some "EOF",{c with closed := true}) :=
  closeConn_only.bind (Only.pure _)

theorem write_open (s b : Bytes) :
    TunPolicyConn.write env plan {pending := s} b = (do
      let out ← tryHandlePendingLocked env plan {pending := s++b}
      return ((b.length,none),out.2)) := rfl

/-- The writes before the one that completes the first record only fill the buffer. -/
theorem writeAll_idle (hopen : ¬ (plan.blocked = true ∨ plan.policy.mode = .block))
    {as : List Bytes} {s : Bytes} (h : ¬ Settled plan (s++as.flatten)) (bs : List Bytes) :
    writeAll env plan (as++bs) {pending := s} =
      writeAll env plan bs {pending := s++as.flatten} := by
  induction as generalizing s with
  | nil => simp
  | cons a as ih =>
    rw [List.flatten_cons,← List.append_assoc] at h ⊢
    have ha : ¬ Settled plan (s++a) := fun hc => h (hc.append plan as.flatten)
    rw [← ih h,List.cons_append,writeAll,write_open,tryHandlePendingLocked_idle env hopen ha]
    rfl

theorem exists_completing_write {bs : List Bytes} {s record : Bytes} (hs : firstRecord s = none)
    (hf : firstRecord (s++bs.flatten) = some record) :
    ∃ as b rest, bs = as++b::rest ∧ firstRecord (s++as.flatten) = none ∧
      firstRecord (s++as.flatten++b) = some record := by
  induction bs generalizing s with
  | nil => simp [hs] at hf
  | cons b bs ih =>
    cases hb : firstRecord (s++b) with
    | some record' =>
      have hsame := firstRecord_append bs.flatten hb
      rw [List.flatten_cons,← List.append_assoc,hsame] at hf
      exact ⟨[],b,bs,rfl,by simpa using hs,by simpa [hb] using hf⟩
    | none =>
      rw [List.flatten_cons,← List.append_assoc] at hf
      obtain ⟨as,b',rest,rfl,hnone,hsome⟩ := ih hb hf
      refine ⟨b::as,b',rest,rfl,?_,?_⟩
      · rwa [List.flatten_cons,← List.append_assoc]
      · rwa [List.flatten_cons,← List.append_assoc]

variable (env) in
/-- The run from the write on that completes the first record. -/
theorem writeAll_decides (hopen : ¬ (plan.blocked = true ∨ plan.policy.mode = .block))
    (hraw : plan.policy.mode ≠ .raw) {bs : List Bytes} {record : Bytes}
    (hf : firstRecord bs.flatten = some record) :
    ∃ s b rest, firstRecord (s++b) = some record ∧
      writeAll env plan bs {} = writeAll env plan (b::rest) {pending := s} := by
  obtain ⟨as,b,rest,rfl,hnone,hsome⟩ := exists_completing_write (s := []) rfl hf
  refine ⟨as.flatten,b,rest,hsome,?_⟩
  exact writeAll_idle hopen (s := []) (not_settled_of_firstRecord hraw hnone hsome) _

section Decision

variable {s b record d : Bytes} {err : String} {c : TunPolicyConn}
  (hopen : ¬ (plan.blocked = true ∨ plan.policy.mode = .block)) (hraw : plan.policy.mode ≠ .raw)
  (hf : firstRecord (s++b) = some record)
include hopen hraw hf

theorem writeAll_closes_only (rest : List Bytes)
    (h : Only Quiet (handleTLSLocked env plan {pending := s++b} record) (some err,c)) :
    Only Quiet (writeAll env plan (b::rest) {pending := s}) {c with closed := true} := by
  have hdecide : Only Quiet (tryHandlePendingLocked env plan {pending := s++b})
      (true,{c with closed := true}) := by
    rw [tryHandlePendingLocked_decides env hopen hraw hf]
    exact h.bind (Only.pure _)
  have hwrite : Only Quiet (TunPolicyConn.write env plan {pending := s} b)
      ((b.length,none),{c with closed := true}) := hdecide.bind (Only.pure _)
  refine hwrite.bind ?_
  rw [writeAll_closed rfl]
  exact Only.pure _

theorem writeAll_closes_delivers (rest : List Bytes)
    (h : Delivers (handleTLSLocked env plan {pending := s++b} record) d (some err,c)) :
    Delivers (writeAll env plan (b::rest) {pending := s}) d {c with closed := true} := by
  have hdecide : Delivers (tryHandlePendingLocked env plan {pending := s++b}) d
      (true,{c with closed := true}) := by
    rw [tryHandlePendingLocked_decides env hopen hraw hf]
    exact h.last rfl
  exact (write_pending env hdecide).last (writeAll_closed rfl rest)

theorem writeAll_forwards_delivers (rest : List Bytes) (hc : c.closed = false)
    (h : Delivers (handleTLSLocked env plan {pending := s++b} record) d (none,c)) :
    ∃ d', Delivers (writeAll env plan (b::rest) {pending := s}) (d++d') {handled := true} := by
  have hdecide := tryHandlePendingLocked_record env hopen hraw hf hc h
  refine ⟨(s++b).drop record.length++rest.flatten,?_⟩
  rw [← List.append_assoc]
  exact (write_pending env hdecide).bind (writeAll_handled env rest)

end Decision

section Outcome

variable {record : Bytes} {r : Parsed}

theorem rejectsQuietly_open (hopen : ¬ (plan.blocked = true ∨ plan.policy.mode = .block)) :
    RejectsQuietly env plan record r ↔
      plan.policy.mode ≠ .raw ∧ plan.policy.mode ≠ .tlsAlert ∧
        (plan.policy.tls13Only.isTrue = true → r.hasKeyShare = true) ∧ hasPlainSNI r = true ∧
        sniPolicyMode env record r = .ok (some .block) := by
  rw [RejectsQuietly,← or_assoc]
  exact or_iff_right hopen

variable (hr : parseClientHello record = .ok r) (hok : r.err = none)
include hr hok

/-- The ways in which a rejected ClientHello is handled. With ECH the rule for the outer name
does not count. -/
theorem handleTLSLocked_rejects (hopen : ¬ (plan.blocked = true ∨ plan.policy.mode = .block))
    (hraw : plan.policy.mode ≠ .raw) (hrej : Rejects env plan record r) (c : TunPolicyConn) :
    (RejectsQuietly env plan record r ∧ handleTLSLocked env plan c record = blockTLS c) ∨
      (¬ RejectsQuietly env plan record r ∧
        ((∃ desc, handleTLSLocked env plan c record = alertTLS c r.prtVer desc) ∨
          handleTLSLocked env plan c record = forwardTLS env plan c .direct record r)) := by
  rw [handleTLSLocked,fromChecked_bind hr,rejectsQuietly_open hopen]
  dsimp only
  rw [if_neg (by simp [hok])]
  by_cases halert : plan.policy.mode = .tlsAlert
  · exact .inr ⟨fun h => h.2.1 halert,.inl ⟨_,if_pos halert⟩⟩
  rw [if_neg halert]
  by_cases hkey : plan.policy.tls13Only.isTrue ∧ ¬ r.hasKeyShare
  · exact .inr ⟨fun h => hkey.2 (h.2.2.1 hkey.1),.inl ⟨_,if_pos hkey⟩⟩
  rw [if_neg hkey]
  obtain ⟨hstart,hlen,hrule⟩ : 0 < r.sniStart ∧ r.sniLen ≠ 0 ∧
      (sniPolicyMode env record r = .ok (some .block) ∨
        sniPolicyMode env record r = .ok (some .tlsAlert)) := by
    rcases hrej with h | h | h | h | h
    · exact absurd (.inl h) hopen
    · exact absurd (.inr h) hopen
    · exact absurd h halert
    · exact absurd ⟨h.1,by simp [h.2]⟩ hkey
    · exact h
  rw [if_neg (by omega)]
  by_cases hech : r.hasECH = true
  · exact .inr ⟨fun h => by simp [hasPlainSNI,hech] at h,.inr (if_pos hech)⟩
  rw [if_neg hech]
  cases hrule with
  | inl hblock =>
    have hplain : hasPlainSNI r = true := by simp [hasPlainSNI,hstart,hlen,hech]
    have hshare : plan.policy.tls13Only.isTrue = true → r.hasKeyShare = true := fun ht => by
      by_contra hc
      exact hkey ⟨ht,hc⟩
    rw [fromChecked_bind hblock]
    exact .inl ⟨⟨hraw,halert,hshare,hplain,hblock⟩,if_pos rfl⟩
  | inr htls =>
    rw [fromChecked_bind htls]
    exact .inr ⟨fun h => by simp [htls] at h,.inl ⟨_,rfl⟩⟩

theorem alertTLS_delivers (hlen : 5 ≤ record.length) (c : TunPolicyConn) (desc : UInt8) :
    ∃ d, d ≠ [] ∧ Delivers (alertTLS c r.prtVer desc) d (some "EOF",{c with closed := true}) := by
  obtain ⟨r',hr',hs⟩ := parseClientHello_returns record hlen
  obtain rfl : r = r' := Except.ok.inj (hr.symm.trans hr')
  have hver := (hs hok).1
  have h₀ : index r.prtVer 0 = .ok _ := index_of_lt (show 0 < r.prtVer.length by omega)
  have h₁ : index r.prtVer 1 = .ok _ := index_of_lt (show 1 < r.prtVer.length by omega)
  rw [alertTLS,sendTLSAlert,fromChecked_bind h₀,fromChecked_bind h₁]
  have hclose : Delivers (perform (.close : Event)) [] () := ⟨_,(Emits.perform _).completes,rfl⟩
  have hconn : Delivers closeConn [] () := hclose.attempt.last rfl
  have hblock : Delivers (blockTLS c) [] (some "EOF",{c with closed := true}) := hconn.last rfl
  refine ⟨_,?_,Delivers.bind ((Delivers.ofSends (Sends.write _)).attempt.last rfl) hblock⟩
  simp

end Outcome

variable (env)

/-- A blocked plan closes the connection at the first byte. -/
theorem writeAll_blocked_only (hblock : plan.blocked = true ∨ plan.policy.mode = .block)
    {bs : List Bytes} (hbs : bs.flatten ≠ []) :
    ∃ c : TunPolicyConn, c.closed = true ∧ Only Quiet (writeAll env plan bs {}) c := by
  induction bs with
  | nil => exact absurd rfl hbs
  | cons b bs ih =>
    cases b with
    | nil => exact ih hbs
    | cons x b =>
      have htry : Only Quiet (tryHandlePendingLocked env plan {pending := x::b})
          (true,{pending := x::b, closed := true}) := by
        rw [tryHandlePendingLocked,if_neg (by simp),if_pos hblock]
        exact closeConn_only.bind (Only.pure _)
      have hwrite : Only Quiet (TunPolicyConn.write env plan {} (x::b))
          (((x::b).length,none),{pending := x::b, closed := true}) := htry.bind (Only.pure _)
      refine ⟨{pending := x::b, closed := true},rfl,hwrite.bind ?_⟩
      rw [writeAll_closed rfl]
      exact Only.pure _

/-- A raw plan passes everything on. -/
theorem writeAll_raw_delivers (hraw : plan.policy.mode = .raw) (bs : List Bytes) :
    ∃ c, Delivers (writeAll env plan bs {}) bs.flatten c := by
  induction bs with
  | nil => exact ⟨_,Delivers.pure _⟩
  | cons b bs ih =>
    cases b with
    | nil => exact ih
    | cons x b =>
      have hflush := tryHandlePendingLocked_flushes env (.inl hraw) (List.cons_ne_nil x b)
        (.inl hraw)
      exact ⟨_,(write_pending env (s := []) hflush).bind (writeAll_handled env bs)⟩

variable {env}

/-- A connection whose first record is a ClientHello that the policy rejects sends nothing to the
server, and refuses all later writes, exactly when the rejection comes without an alert. -/
theorem writeAll_silent_iff {bs : List Bytes} {record : Bytes} {r : Parsed}
    (hf : firstRecord bs.flatten = some record) (hr : parseClientHello record = .ok r)
    (hok : r.err = none) (hrej : Rejects env plan record r) :
    Silent env plan bs ↔ RejectsQuietly env plan record r := by
  have hne : bs.flatten ≠ [] := fun h => by simp [h,firstRecord] at hf
  by_cases hblock : plan.blocked = true ∨ plan.policy.mode = .block
  · obtain ⟨c,hc,honly⟩ := writeAll_blocked_only env hblock hne
    exact ⟨fun _ => hblock.imp_right .inl,fun _ => silent_of_only hc honly⟩
  by_cases hraw : plan.policy.mode = .raw
  · obtain ⟨c,hd⟩ := writeAll_raw_delivers env hraw bs
    refine ⟨fun hs => absurd hs (not_silent_of_delivers hne hd),fun hq => ?_⟩
    exact absurd hraw ((rejectsQuietly_open hblock).mp hq).1
  obtain ⟨s,b,rest,hdone,hrun⟩ := writeAll_decides env hblock hraw hf
  rcases handleTLSLocked_rejects hr hok hblock hraw hrej {pending := s++b} with
    ⟨hq,heq⟩ | ⟨hq,⟨desc,heq⟩ | heq⟩
  · refine ⟨fun _ => hq,fun _ => ?_⟩
    have honly := writeAll_closes_only hblock hraw hdone rest
      (heq ▸ blockTLS_only {pending := s++b})
    exact silent_of_only rfl (hrun ▸ honly)
  · refine ⟨fun hs => absurd hs ?_,fun h => absurd h hq⟩
    obtain ⟨d,hd,halert⟩ := alertTLS_delivers hr hok (firstRecord_length hf) {pending := s++b} desc
    have hsent := writeAll_closes_delivers hblock hraw hdone rest (heq ▸ halert)
    exact not_silent_of_delivers hd (hrun ▸ hsent)
  · refine ⟨fun hs => absurd hs ?_,fun h => absurd h hq⟩
    have hfwd := forwardTLS_delivers env plan (c := {pending := s++b})
      (sendTLS_direct_delivers env plan record r)
    obtain ⟨d,hsent⟩ := writeAll_forwards_delivers hblock hraw hdone rest rfl (heq ▸ hfwd)
    refine not_silent_of_delivers ?_ (hrun ▸ hsent)
    have hlen := firstRecord_length hf
    intro hnil
    simp [(List.append_eq_nil_iff.mp hnil).1] at hlen

/-- A blocked ClientHello in two pieces. -/
theorem writeAll_silent_iff_block :
    firstRecord [shortHello.take 4,shortHello.drop 4].flatten = some shortHello ∧
      (Silent noRules (planFor {mode := .block}) [shortHello.take 4,shortHello.drop 4] ↔
        RejectsQuietly noRules (planFor {mode := .block}) shortHello shortParsed) :=
  ⟨by decide +kernel,
    writeAll_silent_iff (by decide +kernel) (by decide +kernel) rfl (.inr (.inl rfl))⟩

/-- In mode tls-alert the server receives the alert. -/
theorem writeAll_alert_upstream :
    firstRecord [shortHello].flatten = some shortHello ∧
      parseClientHello shortHello = .ok shortParsed ∧
      Rejects noRules (planFor {mode := .tlsAlert}) shortHello shortParsed ∧
      (∃ c q, writeAll noRules (planFor {mode := .tlsAlert}) [shortHello] {} ⟨fun _ _ => none,[]⟩ =
        .ok (.ok c,q) ∧ wire q.log = [0x15,3,3,0,2,2,70]) ∧
      ¬ Silent noRules (planFor {mode := .tlsAlert}) [shortHello] := by
  refine ⟨by decide +kernel,by decide +kernel,.inr (.inr (.inl rfl)),⟨_,_,rfl,by decide +kernel⟩,?_⟩
  exact not_silent_of_run rfl (by decide +kernel)

end TunBridge
end Enimul
