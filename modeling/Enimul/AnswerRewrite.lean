import Enimul.DNSPromise

/-! The answer of a hijacked query.
The loop over the upstream answer remembers the owners whose records it has replaced. What becomes
of a record can be read off the upstream answer itself: it depends on the records in front of it.
The reply is the upstream message with the answer rewritten in this way. -/
namespace Enimul
namespace DNSHijack

open GoSlice GoText NetIP GoRun Resolve FakeIP FakeIPStore

/-- One of these records is of the type and has this owner. -/
def hasOwner (qtype : ℕ) (records : List RR) (name : Str) : Bool :=
  records.any fun rr => rr.header.rrtype = qtype ∧ rr.header.name = name

/-- What becomes of a record with these in front of it. -/
def fate (qtype : ℕ) (data : RData) (before : List RR) (rr : RR) : Option RR :=
  if rr.header.rrtype ≠ qtype then some rr
  else if hasOwner qtype before rr.header.name then none
  else some (fakeRecord data rr.header)

/-- The answer, each record replaced, removed or kept. -/
def rewritten (qtype : ℕ) (data : RData) (answer : List RR) : List RR :=
  answer.zipIdx.filterMap fun x => fate qtype data (answer.take x.2) x.1

section Rewritten

variable {qtype : ℕ} {data : RData}

theorem hasOwner_append (records : List RR) (rr : RR) (name : Str) :
    hasOwner qtype (records++[rr]) name = true ↔ hasOwner qtype records name = true ∨
      rr.header.rrtype = qtype ∧ rr.header.name = name := by
  simp [hasOwner]

/-- These are the owners of the records of the type. -/
def Seen (qtype : ℕ) (records : List RR) (seen : List Str) : Prop :=
  ∀ name, name ∈ seen ↔ hasOwner qtype records name = true

/-- The owners that the loop has seen behind one more record. -/
def seenAfter (qtype : ℕ) (rr : RR) (seen : List Str) : List Str :=
  if rr.header.rrtype ≠ qtype ∨ rr.header.name ∈ seen then seen else rr.header.name::seen

theorem Seen.append {records : List RR} {seen : List Str} (h : Seen qtype records seen) (rr : RR) :
    Seen qtype (records++[rr]) (seenAfter qtype rr seen) := by
  intro name
  rw [hasOwner_append,← h,seenAfter]
  split
  · rename_i hskip
    constructor
    · exact .inl
    · rintro (hold | ⟨htype,rfl⟩)
      · exact hold
      · exact hskip.resolve_left (not_not.mpr htype)
  · rename_i hnew
    have htype : rr.header.rrtype = qtype := not_not.mp (not_or.mp hnew).1
    rw [List.mem_cons,or_comm]
    simp [htype,eq_comm]

theorem withFake_cons {before : List RR} {seen : List Str} (h : Seen qtype before seen) (rr : RR)
    (rrs : List RR) : withFake qtype data seen (rr::rrs) =
      (fate qtype data before rr).toList++withFake qtype data (seenAfter qtype rr seen) rrs := by
  rw [withFake,fate,seenAfter]
  by_cases htype : rr.header.rrtype ≠ qtype
  · rw [if_pos htype,if_pos htype,if_pos (.inl htype)]
    rfl
  rw [if_neg htype,if_neg htype]
  by_cases hname : rr.header.name ∈ seen
  · rw [if_pos hname,if_pos ((h _).mp hname),if_pos (.inr hname)]
    rfl
  · rw [if_neg hname,if_neg (mt (h _).mpr hname),if_neg (not_or.mpr ⟨htype,hname⟩)]
    rfl

/-- The loop has seen the owners of the records in front. -/
theorem withFake_eq (rrs : List RR) {before : List RR} {seen : List Str}
    (h : Seen qtype before seen) :
    withFake qtype data seen rrs = (rrs.zipIdx before.length).filterMap fun x =>
      fate qtype data ((before++rrs).take x.2) x.1 := by
  induction rrs generalizing before seen with
  | nil => rfl
  | cons rr rrs ih =>
    have hbefore : (before++rr::rrs).take before.length = before := List.take_left
    rw [withFake_cons h,ih (h.append rr),List.length_append,List.length_singleton,
      ← List.append_cons,List.zipIdx_cons,List.filterMap_cons,hbefore]
    cases fate qtype data before rr <;> rfl

theorem withFake_nil (answer : List RR) :
    withFake qtype data [] answer = rewritten qtype data answer :=
  withFake_eq answer (show Seen qtype [] [] by simp [Seen,hasOwner])

end Rewritten

section Reply

variable {mapLower : Str → Str} {now : ℤ} {s s' : Stores} {question : Question} {resp : Msg}
  {ip : Str} {data : RData}

/-- The reply with a record of the type in the upstream answer. -/
theorem fakeReply_replaced (h : ∃ rr ∈ resp.answer, rr.header.rrtype = question.qtype) :
    (fakeReply question resp data).answer = rewritten question.qtype data resp.answer := by
  have hfind : (resp.answer.find? fun rr => rr.header.rrtype = question.qtype).isSome = true := by
    simpa using h
  obtain ⟨rr,hrr⟩ := Option.isSome_iff_exists.mp hfind
  rw [fakeReply,hrr,← withFake_nil]

theorem fakeReply_fallback (h : ∀ rr ∈ resp.answer, rr.header.rrtype ≠ question.qtype) :
    (fakeReply question resp data).answer = [fakeRecord data
      ⟨question.name,question.qtype,question.qclass,fallbackFakeTTL resp⟩] := by
  have hfind : resp.answer.find? (fun rr => rr.header.rrtype = question.qtype) = none := by
    simpa using h
  rw [fakeReply,hfind]

/-- The address of an allocation is fake, and the store has the name under it. -/
theorem allocateFakeIP_granted (hs : StoresConsistent s) {domain : Str} {qtype ttl : ℕ}
    (hq : IsAddressType qtype)
    (halloc : allocateFakeIP mapLower domain qtype ttl now s = .ok (.ok ip,s')) :
    IsFakeText qtype ip ∧ ∀ later, later < now+fakeIPLifetime ttl →
      ((family qtype s').lookupDomain ip later).1 = (toLower mapLower domain,true) := by
  obtain ⟨r,st,hr,hst,hspec⟩ := allocateFakeIP_spec hs hq mapLower domain ttl now
  obtain ⟨rfl,rfl⟩ := Prod.mk.inj (Except.ok.inj (hr.symm.trans halloc))
  refine ⟨hst.address ip _ hspec.granted,fun later hlive => ?_⟩
  rw [family_setFamily,lookupDomain_answer,answer_eq_iff]
  exact ⟨_,hspec.granted,rfl,hlive⟩

end Reply

/-- The reply to a hijacked query is the upstream message with its answer rewritten: every record of
the type carries the one address that was allocated, under which the store then has the name. -/
theorem buildFakeAddressResponse_rewrites {mapLower : Str → Str} (hlower : LowersOnce mapLower)
    (steps : List (ℤ × Step)) {promises : List Promise} {s s' : Stores}
    (hrun : runSteps mapLower steps [] {} = .ok (promises,s)) (shouldUseFakeIP : Str → Bool)
    (now : ℤ) (question : Question) (hq : IsAddressType question.qtype)
    (huse : shouldUseFakeIP (queriedDomain mapLower question) = true) (resp : Msg)
    (hcode : resp.rcode = rcodeSuccess) {ip : Str}
    (halloc : allocateFakeIP mapLower (queriedDomain mapLower question) question.qtype
      (grantTTL question.qtype resp) now s = .ok (.ok ip,s')) :
    ∃ data reply, Carries question.qtype ip data ∧
      buildFakeAddressResponse mapLower (.ok resp) shouldUseFakeIP (queriedDomain mapLower question)
        question.qtype now question s = .ok (.ok reply,s') ∧
      ((∃ rr ∈ resp.answer, rr.header.rrtype = question.qtype) →
        reply.answer = rewritten question.qtype data resp.answer) ∧
      ((∀ rr ∈ resp.answer, rr.header.rrtype ≠ question.qtype) →
        reply.answer = [fakeRecord data
          ⟨question.name,question.qtype,question.qclass,fallbackFakeTTL resp⟩]) ∧
      (reply.hdr = resp.hdr ∧ reply.rcode = resp.rcode ∧ reply.question = resp.question ∧
        reply.ns = resp.ns ∧ reply.extra = resp.extra) ∧
      (∃ lifetime > 0, ∀ later, later < now+lifetime →
        ((family question.qtype s').lookupDomain ip later).1 =
          (queriedDomain mapLower question,true)) ∧
      ∀ req : Msg, req.question = [question] → question.qclass = classINET →
        handleDNSQuery mapLower (.ok resp) shouldUseFakeIP now req s = .ok (.ok reply,s') := by
  obtain ⟨r,hr,hs⟩ := runSteps_consistent startStores_consistent mapLower steps []
  obtain rfl : r = (promises,s) := Except.ok.inj (hr.symm.trans hrun)
  obtain ⟨hfake,hlookup⟩ := allocateFakeIP_granted hs hq halloc
  obtain ⟨data,hdata,hbuild⟩ := buildFakeAnswerRR_spec hq hfake
  have hanswer := fakeAnswer_granted mapLower (queriedDomain mapLower question) now hfake.ne_nil
    hbuild halloc
  have hname : toLower mapLower (queriedDomain mapLower question) =
      queriedDomain mapLower question := toLower_toLower hlower _
  refine ⟨data,fakeReply question resp data,hdata,?_,fakeReply_replaced,fakeReply_fallback,
    ⟨rfl,rfl,rfl,rfl,rfl⟩,⟨_,fakeIPLifetime_pos (grantTTL question.qtype resp),?_⟩,?_⟩
  · rw [buildFakeAddressResponse_matched hcode huse,hanswer]
  · rw [hname] at hlookup
    exact hlookup
  · intro req hquestion hclass
    rw [handleDNSQuery_of_hijacked (hijacked_of_query hquestion hclass hq hcode huse),hanswer]

/-- An answer with an alias, two addresses of its target and one of another owner. -/
def aliasResponse : Msg where
  answer := [⟨⟨str "a.b.",5,classINET,30⟩,.other []⟩,⟨⟨str "c.d.",typeA,classINET,0⟩,.a [1,2,3,4]⟩,
    ⟨⟨str "c.d.",typeA,classINET,90⟩,.a [1,2,3,5]⟩,⟨⟨str "e.f.",typeA,classINET,90⟩,.a [1,2,3,6]⟩]
  hdr := {id := 7, response := true}

theorem buildFakeAddressResponse_rewrites_alias :
    ∃ data reply s', Carries typeA (str "198.18.0.1") data ∧
      buildFakeAddressResponse id (.ok aliasResponse) (fun _ => true) (str "a.b") typeA 0
        ⟨str "A.b.",typeA,classINET⟩ {} = .ok (.ok reply,s') ∧
      reply.answer = [⟨⟨str "a.b.",5,classINET,30⟩,.other []⟩,
        ⟨⟨str "c.d.",typeA,classINET,60⟩,data⟩,⟨⟨str "e.f.",typeA,classINET,90⟩,data⟩] := by
  have halloc : ∃ s', allocateFakeIP id (str "a.b") typeA 0 0 {} =
      .ok (.ok (str "198.18.0.1"),s') := ⟨_,rfl⟩
  obtain ⟨s',halloc⟩ := halloc
  obtain ⟨data,reply,hdata,hbuild,hanswer,-⟩ := buildFakeAddressResponse_rewrites lowersOnce_id []
    rfl (fun _ => true) 0 ⟨str "A.b.",typeA,classINET⟩ (.inl rfl) rfl aliasResponse rfl halloc
  exact ⟨data,reply,_,hdata,hbuild,hanswer ⟨_,List.mem_cons_of_mem _ List.mem_cons_self,rfl⟩⟩

end DNSHijack
end Enimul
