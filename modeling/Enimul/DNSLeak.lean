import Enimul.DNSPromise

/-! What a fake answer reveals of the upstream response.
Two responses that differ in the bytes of their addresses only are blank alike. The records
of the queried type in a reply are the same for both, so none of their addresses comes from
the response. Records of other types and the other sections are passed on. -/
namespace Enimul
namespace DNSHijack

open GoSlice GoText NetIP GoRun Resolve FakeIP FakeIPStore

def hintAddresses : SVCBKeyValue → List Bytes
  | .ipv4Hint hint => hint
  | .ipv6Hint hint => hint
  | .other _ _ => []

/-- The addresses that a record carries. -/
def addresses (rr : RR) : List Bytes :=
  match rr.data with
  | .a ip => [ip]
  | .aaaa ip => [ip]
  | .https _ _ value => value.flatMap hintAddresses
  | .other _ => []

def blankAddress (ip : Bytes) : Bytes := ip.map fun _ => 0

def blankHint : SVCBKeyValue → SVCBKeyValue
  | .ipv4Hint hint => .ipv4Hint (hint.map blankAddress)
  | .ipv6Hint hint => .ipv6Hint (hint.map blankAddress)
  | .other key value => .other key value

/-- The record with zeros for its addresses. -/
def blank (rr : RR) : RR where
  header := rr.header
  data := match rr.data with
    | .a ip => .a (blankAddress ip)
    | .aaaa ip => .aaaa (blankAddress ip)
    | .https priority target value => .https priority target (value.map blankHint)
    | .other data => .other data

def blankMsg (msg : Msg) : Msg :=
  {msg with answer := msg.answer.map blank, ns := msg.ns.map blank, extra := msg.extra.map blank}

def ofType (qtype : ℕ) (rrs : List RR) : List RR := rrs.filter fun rr => rr.header.rrtype = qtype

section Headers

variable {rrs rrs' : List RR}

/-- The records have the same headers, one by one. -/
abbrev SameHeaders (rrs rrs' : List RR) : Prop :=
  List.Forall₂ (fun rr rr' : RR => rr.header = rr'.header) rrs rrs'

theorem sameHeaders_of_blank (h : rrs.map blank = rrs'.map blank) : SameHeaders rrs rrs' := by
  induction rrs generalizing rrs' with
  | nil =>
    rw [List.map_nil,eq_comm,List.map_eq_nil_iff] at h
    rw [h]
    exact .nil
  | cons rr rrs ih =>
    cases rrs' with
    | nil => simp at h
    | cons rr' rrs' =>
      obtain ⟨hrr,hrest⟩ := List.cons.inj h
      have hheader : (blank rr).header = (blank rr').header := by rw [hrr]
      exact .cons hheader (ih hrest)

theorem foldl_consider_congr (h : SameHeaders rrs rrs') (minTTL : ℕ) :
    rrs.foldl consider minTTL = rrs'.foldl consider minTTL := by
  induction h generalizing minTTL with
  | nil => rfl
  | @cons rr rr' rrs rrs' hrr hrest ih =>
    rw [List.foldl_cons,List.foldl_cons,ih,consider,consider,hrr]

theorem fallbackFakeTTL_congr {resp resp' : Msg} (h : blankMsg resp = blankMsg resp') :
    fallbackFakeTTL resp = fallbackFakeTTL resp' := by
  have hanswer : resp.answer.map blank = resp'.answer.map blank := congrArg Msg.answer h
  have hns : resp.ns.map blank = resp'.ns.map blank := congrArg Msg.ns h
  have hextra : resp.extra.map blank = resp'.extra.map blank := congrArg Msg.extra h
  have hall : (resp.answer++resp.ns++resp.extra).map blank =
      (resp'.answer++resp'.ns++resp'.extra).map blank := by
    simp only [List.map_append,hanswer,hns,hextra]
  simp only [fallbackFakeTTL,foldl_consider_congr (sameHeaders_of_blank hall)]

end Headers

section Replies

variable (mapLower : Str → Str) (domain : Str) {qtype : ℕ} (now : ℤ)

/-- The same records of the type so far, and the same state of the loop. -/
structure SameSoFar (qtype : ℕ) (acc acc' : Rewrite) : Prop where
  answer : ofType qtype acc.answer = ofType qtype acc'.answer
  replacedNames : acc.replacedNames = acc'.replacedNames
  fakeIP : acc.fakeIP = acc'.fakeIP
  replaced : acc.replaced = acc'.replaced

theorem ofType_append {before after : List RR} (h : ofType qtype before = ofType qtype after)
    {rr rr' : RR} (hrr : ofType qtype [rr] = ofType qtype [rr']) :
    ofType qtype (before++[rr]) = ofType qtype (after++[rr']) := by
  rw [ofType,ofType] at h hrr ⊢
  rw [List.filter_append,List.filter_append,h,hrr]

/-- The loop treats two answers with the same headers alike. -/
theorem rewriteAnswer_related {rrs rrs' : List RR} (h : SameHeaders rrs rrs') {acc acc' : Rewrite}
    (hacc : SameSoFar qtype acc acc') :
    Proc.Related (SameSoFar qtype) (rewriteAnswer mapLower domain qtype now rrs acc)
      (rewriteAnswer mapLower domain qtype now rrs' acc') := by
  induction h generalizing acc acc' with
  | nil => exact .pure hacc
  | @cons rr rr' rrs rrs' hrr hrest ih =>
    obtain ⟨hans,hnames,hip,hrep⟩ := hacc
    rw [rewriteAnswer,rewriteAnswer,← hrr]
    by_cases htype : rr.header.rrtype ≠ qtype
    · rw [if_pos htype,if_pos htype]
      have hskip : ofType qtype [rr] = ofType qtype [rr'] := by
        simp [ofType,htype,← hrr]
      exact ih ⟨ofType_append hans hskip,hnames,hip,hrep⟩
    rw [if_neg htype,if_neg htype,← hip]
    refine (Proc.Related.refl _).bind ?_
    rintro fakeIP _ rfl
    rw [← hnames]
    by_cases hname : rr.header.name ∈ acc.replacedNames
    · rw [if_pos hname,if_pos hname]
      exact ih ⟨hans,rfl,rfl,rfl⟩
    · rw [if_neg hname,if_neg hname]
      refine (Proc.Related.refl _).bind ?_
      rintro fakeRR _ rfl
      exact ih ⟨ofType_append hans rfl,rfl,rfl,rfl⟩

theorem fakeAnswer_related {resp resp' : Msg} (h : blankMsg resp = blankMsg resp')
    (question : Question) :
    Proc.Related (fun msg msg' : Msg => ofType qtype msg.answer = ofType qtype msg'.answer)
      (fakeAnswer mapLower domain qtype now question resp)
      (fakeAnswer mapLower domain qtype now question resp') := by
  have hanswer : resp.answer.map blank = resp'.answer.map blank := congrArg Msg.answer h
  rw [fakeAnswer,fakeAnswer]
  refine (rewriteAnswer_related mapLower domain now (sameHeaders_of_blank hanswer)
    ⟨rfl,rfl,rfl,rfl⟩).bind fun acc acc' hacc => ?_
  rw [← hacc.replaced]
  cases acc.replaced with
  | true => exact .pure hacc.answer
  | false =>
    rw [if_neg (by simp),if_neg (by simp),fallbackAnswer,fallbackAnswer,fallbackFakeTTL_congr h]
    refine (Proc.Related.refl _).bind ?_
    rintro fakeIP _ rfl
    refine (Proc.Related.refl _).bind ?_
    rintro fakeRR _ rfl
    exact .pure rfl

/-- Without a record to replace, the answer is the one fake record. -/
theorem fakeAnswer_single {resp reply : Msg} {question : Question} {s s' : Stores}
    (hnone : ∀ rr ∈ resp.answer, rr.header.rrtype ≠ qtype)
    (h : fakeAnswer mapLower domain qtype now question resp s = .ok (.ok reply,s')) :
    ∃ rr, reply.answer = [rr] := by
  have hfind : resp.answer.find? (fun rr => rr.header.rrtype = qtype) = none := by simpa using hnone
  rw [fakeAnswer,Proc.bind_run (rewriteAnswer_untouched mapLower domain now hfind s),
    if_neg (by simp),fallbackAnswer] at h
  obtain ⟨fakeIP,s₁,-,h⟩ := Proc.bind_ok h
  obtain ⟨fakeRR,s₂,-,h⟩ := Proc.bind_ok h
  obtain ⟨hreply,-⟩ := Prod.mk.inj (Except.ok.inj h)
  exact ⟨fakeRR,by rw [← Except.ok.inj hreply]⟩

end Replies

/-- A record with the text of an address of the store carries that address and no other. -/
theorem addresses_of_text {rr : RR} {text : Str} (h : addressText rr = text) (hne : text ≠ [])
    {ip : Bytes} (hip : ip ∈ addresses rr) : ipString ip = text := by
  rw [addressText] at h
  rw [addresses] at hip
  split at h
  · rename_i hdata
    rw [hdata] at hip
    rwa [List.mem_singleton.mp hip]
  · rename_i hdata
    rw [hdata] at hip
    rwa [List.mem_singleton.mp hip]
  · exact absurd h.symm hne
  · exact absurd h.symm hne

/-- An HTTPS record with a hint. -/
def hintRecord : RR :=
  ⟨⟨str "a.b.",typeHTTPS,classINET,300⟩,.https 1 (str ".") [.ipv4Hint [[1,2,3,4]]]⟩

/-- An upstream response with an address of the other type, and one more behind the answer. -/
def mixedResponse : Msg where
  answer := [⟨⟨str "a.b.",typeA,classINET,300⟩,.a [1,2,3,4]⟩,
    ⟨⟨str "a.b.",typeAAAA,classINET,300⟩,.aaaa (bytesOf 16 1)⟩]
  extra := [⟨⟨str "a.b.",typeA,classINET,300⟩,.a [1,2,3,4]⟩]

end DNSHijack
end Enimul
