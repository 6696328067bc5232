import Enimul.DNSHijack

/-! What a query does to the stores and what it answers.
Every query with a fake answer makes exactly one allocation, and all fake records of the
reply carry the address of that allocation. -/
namespace Enimul
namespace DNSHijack

open GoSlice GoText NetIP GoRun Resolve FakeIP FakeIPStore

section Family

def family (qtype : ℕ) (s : Stores) : FakeIPStore :=
  if qtype = typeA then s.defaultFakeIPv4Store else s.defaultFakeIPv6Store

def setFamily (qtype : ℕ) (st : FakeIPStore) (s : Stores) : Stores :=
  if qtype = typeA then {s with defaultFakeIPv4Store := st} else {s with defaultFakeIPv6Store := st}

def familyCIDR (qtype : ℕ) : Prefix := if qtype = typeA then fakeIPv4CIDR else fakeIPv6CIDR

/-- The types that have fake addresses. -/
def IsAddressType (qtype : ℕ) : Prop := qtype = typeA ∨ qtype = typeAAAA

structure StoresConsistent (s : Stores) : Prop where
  v4 : Consistent fakeIPv4CIDR s.defaultFakeIPv4Store
  v6 : Consistent fakeIPv6CIDR s.defaultFakeIPv6Store

variable {qtype : ℕ} {s : Stores} {st : FakeIPStore}

theorem familyCIDR_pool (qtype : ℕ) : (familyCIDR qtype).masked = (familyCIDR qtype).addr ∧
    2 ≤ (familyCIDR qtype).size := by
  rw [familyCIDR]
  split <;> decide +kernel

theorem StoresConsistent.get (h : StoresConsistent s) (qtype : ℕ) :
    Consistent (familyCIDR qtype) (family qtype s) := by
  rw [family,familyCIDR]
  split
  · exact h.v4
  · exact h.v6

theorem StoresConsistent.set (h : StoresConsistent s) (hst : Consistent (familyCIDR qtype) st) :
    StoresConsistent (setFamily qtype st s) := by
  rw [familyCIDR] at hst
  rw [setFamily]
  split
  · rename_i hq
    rw [if_pos hq] at hst
    exact ⟨hst,h.v6⟩
  · rename_i hq
    rw [if_neg hq] at hst
    exact ⟨h.v4,hst⟩

theorem family_setFamily (qtype : ℕ) (st : FakeIPStore) (s : Stores) :
    family qtype (setFamily qtype st s) = st := by
  rw [family,setFamily]
  split <;> rfl

/-- Changing one store leaves the other as it is. -/
theorem family_setFamily_ne {qtype' : ℕ} (hq : IsAddressType qtype) (hq' : IsAddressType qtype')
    (hne : qtype' ≠ qtype) (st : FakeIPStore) (s : Stores) :
    family qtype' (setFamily qtype st s) = family qtype' s := by
  rcases hq with rfl | rfl <;> rcases hq' with rfl | rfl
  · exact absurd rfl hne
  · rfl
  · rfl
  · exact absurd rfl hne

theorem allocateFakeIP_eq (mapLower : Str → Str) (domain : Str) (hq : IsAddressType qtype) (ttl : ℕ)
    (now : ℤ) (s : Stores) : allocateFakeIP mapLower domain qtype ttl now s = do
      let r ← (family qtype s).allocate mapLower domain (fakeIPLifetime ttl) now
      return (r.1,setFamily qtype r.2 s) := by
  rcases hq with rfl | rfl <;> rfl

theorem fakeIPLifetime_pos (ttl : ℕ) : 0 < fakeIPLifetime ttl := by
  rw [fakeIPLifetime]
  split
  · decide
  · rename_i h
    have hfloor : (0 : ℤ) < fakeIPTTLFloor := by decide
    omega

/-- A record with the TTL of the allocation does not outlive it. -/
theorem fakeTTL_le_lifetime (ttl : ℕ) : fakeTTL ttl*second ≤ fakeIPLifetime ttl := by
  rw [fakeIPLifetime,fakeTTL]
  split <;> omega

/-- An allocation in one of the stores. -/
theorem allocateFakeIP_spec (h : StoresConsistent s) (hq : IsAddressType qtype) (mapLower : Str → Str)
    (domain : Str) (ttl : ℕ) (now : ℤ) :
    ∃ r st, allocateFakeIP mapLower domain qtype ttl now s = .ok (r,setFamily qtype st s) ∧
      Consistent (familyCIDR qtype) st ∧ Allocates now (family qtype s) (toLower mapLower domain)
        (now+fakeIPLifetime ttl) (r,st) := by
  obtain ⟨hm,hsize⟩ := familyCIDR_pool qtype
  obtain ⟨⟨r,st⟩,hr,hinv,halloc⟩ :=
    (h.get qtype).allocate hm hsize mapLower domain (fakeIPLifetime ttl) now
  have hlife : effectiveLifetime (fakeIPLifetime ttl) = fakeIPLifetime ttl :=
    if_neg (not_le.mpr (fakeIPLifetime_pos ttl))
  rw [hlife] at halloc
  refine ⟨r,st,?_,hinv,halloc⟩
  rw [allocateFakeIP_eq mapLower domain hq ttl now s,hr]
  rfl

end Family

section Records

/-- The address of a record as text. -/
def addressText (rr : RR) : Str :=
  match rr.data with
  | .a ip => ipString ip
  | .aaaa ip => ipString ip
  | .https _ _ _ => []
  | .other _ => []

theorem ipString_bytesOf4 (b : BitVec 32) : ipString (bytesOf 4 b.toNat) = string4 b := by
  have hlen := bytesOf_length 4 b.toNat
  have hbig : bigEndian (fieldsOf 256 4 b.toNat) = b.toNat := bigEndian_fieldsOf b.isLt
  rw [ipString,fieldsOf_bytesOf,hbig,if_neg (fun h => by simp [h] at hlen),if_pos hlen,
    BitVec.ofNat_toNat,BitVec.setWidth_eq,Addr.string]

theorem ipString_bytesOf16 {b : BitVec 128} (h : (Addr.v6 b []).is4In6 = false) :
    ipString (bytesOf 16 b.toNat) = string6 b := by
  have hlen := bytesOf_length 16 b.toNat
  have hlt : b.toNat < 256^16 := lt_of_lt_of_eq b.isLt (by decide)
  have hbig : bigEndian (fieldsOf 256 16 b.toNat) = b.toNat := bigEndian_fieldsOf hlt
  rw [ipString,fieldsOf_bytesOf,hbig,if_neg (fun h => by simp [h] at hlen),if_neg (by omega),
    if_pos hlen,BitVec.ofNat_toNat,BitVec.setWidth_eq]
  have hunmap : (Addr.v6 b []).unmap = .v6 b [] := by simp [Addr.unmap,h]
  rw [hunmap,string_v6 h]

theorem fakeIPv4_string {i : ℕ} (hi : i < fakeIPv4CIDR.size) :
    ∃ b, (fakeIPv4CIDR.addrAt i).string = string4 b := by
  have hsize : i < 2^17 := hi
  have hbase : (0xC6120000 : BitVec 32).toNat = 0xC6120000 := by decide
  have hlt : (0xC6120000 : BitVec 32).toNat+i < 2^32 := by omega
  exact ⟨_,by rw [Prefix.addrAt,fakeIPv4CIDR]; simp only [if_pos hlt,Addr.string]; rfl⟩

theorem fakeIPv6_string {i : ℕ} (hi : i < fakeIPv6CIDR.size) :
    ∃ b : BitVec 128, (fakeIPv6CIDR.addrAt i).string = string6 b ∧ b.toNat/2^120 = 0xfd := by
  have hsize : i < 2^72 := hi
  have hbase : (0xFD666C756D6901000000000000000000 : BitVec 128).toNat =
      0xFD666C756D6901000000000000000000 := by decide
  have hlt : (0xFD666C756D6901000000000000000000 : BitVec 128).toNat+i < 2^128 := by omega
  have hbyte : (BitVec.ofNat 128
      ((0xFD666C756D6901000000000000000000 : BitVec 128).toNat+i)).toNat/2^120 = 0xfd := by
    rw [BitVec.toNat_ofNat,Nat.mod_eq_of_lt hlt,hbase]
    omega
  refine ⟨_,?_,hbyte⟩
  rw [Prefix.addrAt,fakeIPv6CIDR]
  simp only [if_pos hlt]
  refine string_v6 ?_
  simp only [Addr.is4In6,decide_eq_false_iff_not]
  omega

/-- A text that the store of this type gives out. -/
def IsFakeText (qtype : ℕ) (ip : Str) : Prop :=
  ∃ i < (familyCIDR qtype).size, ip = ((familyCIDR qtype).addrAt i).string

/-- The record in the place of one with this header. -/
def fakeRecord (data : RData) (header : RRHeader) : RR :=
  ⟨{header with ttl := fakeTTL header.ttl},data⟩

/-- The data of a record of this type with this address. -/
def Carries (qtype : ℕ) (ip : Str) : RData → Prop
  | .a bytes => qtype = typeA ∧ bytes.length = 4 ∧ ipString bytes = ip
  | .aaaa bytes => qtype = typeAAAA ∧ bytes.length = 16 ∧ ipString bytes = ip
  | .https _ _ _ => False
  | .other _ => False

theorem Carries.addressText {qtype : ℕ} {ip : Str} {data : RData} (h : Carries qtype ip data)
    (header : RRHeader) : addressText (fakeRecord data header) = ip := by
  cases data with
  | a bytes => exact h.2.2
  | aaaa bytes => exact h.2.2
  | https priority target value => cases h
  | other data => cases h

/-- All records with the address have the same data. -/
def Builds (qtype : ℕ) (ip : Str) (data : RData) : Prop :=
  ∀ header : RRHeader, header.rrtype = qtype →
    buildFakeAnswerRR header ip = .ok (fakeRecord data header)

theorem buildFakeAnswerRR_spec {qtype : ℕ} (hq : IsAddressType qtype) {fakeIP : Str}
    (hip : IsFakeText qtype fakeIP) : ∃ data, Carries qtype fakeIP data ∧ Builds qtype fakeIP data := by
  obtain ⟨i,hi,rfl⟩ := hip
  rcases hq with rfl | rfl
  · obtain ⟨b,hb⟩ := fakeIPv4_string hi
    have htext : ((familyCIDR typeA).addrAt i).string = string4 b := hb
    rw [htext]
    refine ⟨.a (bytesOf 4 b.toNat),⟨rfl,bytesOf_length 4 _,ipString_bytesOf4 b⟩,?_⟩
    intro header hq
    rw [buildFakeAnswerRR,if_pos hq,parseIP_string4,fakeRecord,hq]
  · obtain ⟨b,hb,hbyte⟩ := fakeIPv6_string hi
    have htext : ((familyCIDR typeAAAA).addrAt i).string = string6 b := hb
    have hto4 : to4 (bytesOf 16 b.toNat) = none := to4_bytesOf (by omega)
    have h6 : (Addr.v6 b []).is4In6 = false := by
      simp only [Addr.is4In6,decide_eq_false_iff_not]
      omega
    rw [htext]
    refine ⟨.aaaa (bytesOf 16 b.toNat),⟨rfl,bytesOf_length 16 _,ipString_bytesOf16 h6⟩,?_⟩
    intro header hq
    rw [buildFakeAnswerRR,if_neg (by rw [hq]; decide),if_pos hq,parseIP_string6,fakeRecord,hq]
    simp only [hto4]
    rfl

/-- A fake text is read back as an address of its family. -/
theorem IsFakeText.parseAddr {qtype : ℕ} {ip : Str} (h : IsFakeText qtype ip) :
    ∃ a, NetIP.parseAddr ip = some a ∧ a.zone = [] ∧ (a.is4 = true ↔ qtype = typeA) := by
  obtain ⟨i,hi,rfl⟩ := h
  by_cases hq : qtype = typeA
  · rw [familyCIDR,if_pos hq] at hi ⊢
    obtain ⟨b,hb⟩ := fakeIPv4_string hi
    exact ⟨.v4 b,hb ▸ parseAddr_string4 b,rfl,by simp [Addr.is4,hq]⟩
  · rw [familyCIDR,if_neg hq] at hi ⊢
    obtain ⟨b,hb,-⟩ := fakeIPv6_string hi
    exact ⟨.v6 b [],hb ▸ parseAddr_string6 b,rfl,by simp [Addr.is4,hq]⟩

theorem IsFakeText.ne_nil {qtype : ℕ} {ip : Str} (h : IsFakeText qtype ip) : ip ≠ [] := by
  rintro rfl
  obtain ⟨a,ha,-⟩ := h.parseAddr
  simp [NetIP.parseAddr] at ha

end Records

section Rewriting

/-- The records that are replaced: for each owner name the first one of the type. -/
def firstPerOwner (qtype : ℕ) : List Str → List RR → List RR
  | _, [] => []
  | seen, rr::rrs =>
    if rr.header.rrtype ≠ qtype ∨ rr.header.name ∈ seen then firstPerOwner qtype seen rrs
    else rr::firstPerOwner qtype (rr.header.name::seen) rrs

/-- Every record of the type in `after` was in `before`, or it has this address and the TTL of
one of the replaced records. -/
def Replaces (qtype : ℕ) (ip : Str) (replaced before after : List RR) : Prop :=
  ∀ rr ∈ after, rr.header.rrtype = qtype → rr ∈ before ∨
    (addressText rr = ip ∧ ∃ up ∈ replaced, rr.header.ttl = fakeTTL up.header.ttl)

/-- The records behind those whose owners were seen, with the fake ones in their places. -/
def withFake (qtype : ℕ) (data : RData) : List Str → List RR → List RR
  | _, [] => []
  | seen, rr::rrs =>
    if rr.header.rrtype ≠ qtype then rr::withFake qtype data seen rrs
    else if rr.header.name ∈ seen then withFake qtype data seen rrs
    else fakeRecord data rr.header::withFake qtype data (rr.header.name::seen) rrs

variable (mapLower : Str → Str) (domain : Str) {qtype : ℕ} (now : ℤ)

/-- A record of another type is kept. -/
theorem Replaces.of_kept {rr : RR} (htype : rr.header.rrtype ≠ qtype) {ip : Str}
    {replaced before after : List RR} (h : Replaces qtype ip replaced (before++[rr]) after) :
    Replaces qtype ip replaced before after := by
  intro rr' hrr' ht
  rcases h rr' hrr' ht with hmem | hfake
  · rcases List.mem_append.mp hmem with hmem | hmem
    · exact .inl hmem
    · rw [List.mem_singleton.mp hmem] at ht
      exact absurd ht htype
  · exact .inr hfake

/-- A record of the type is replaced. -/
theorem Replaces.of_fake {rr fakeRR : RR} {ip : Str} (htext : addressText fakeRR = ip)
    (httl : fakeRR.header.ttl = fakeTTL rr.header.ttl) {replaced before after : List RR}
    (h : Replaces qtype ip replaced (before++[fakeRR]) after) :
    Replaces qtype ip (rr::replaced) before after := by
  intro rr' hrr' ht
  rcases h rr' hrr' ht with hmem | ⟨haddr,up,hup,hupttl⟩
  · rcases List.mem_append.mp hmem with hmem | hmem
    · exact .inl hmem
    · rw [List.mem_singleton.mp hmem]
      exact .inr ⟨htext,rr,List.mem_cons_self,httl⟩
  · exact .inr ⟨haddr,up,List.mem_cons_of_mem rr hup,hupttl⟩

theorem withFake_replaces {ip : Str} {data : RData} (hdata : Carries qtype ip data)
    (seen : List Str) (rrs before : List RR) :
    Replaces qtype ip (firstPerOwner qtype seen rrs) before
      (before++withFake qtype data seen rrs) := by
  induction rrs generalizing seen before with
  | nil =>
    rw [withFake,List.append_nil]
    exact fun rr hrr _ => .inl hrr
  | cons rr rrs ih =>
    rw [firstPerOwner,withFake]
    by_cases htype : rr.header.rrtype ≠ qtype
    · rw [if_pos (.inl htype),if_pos htype,List.append_cons]
      exact (ih seen (before++[rr])).of_kept htype
    rw [if_neg htype]
    by_cases hname : rr.header.name ∈ seen
    · rw [if_pos (.inr hname),if_pos hname]
      exact ih seen before
    · rw [if_neg (not_or.mpr ⟨htype,hname⟩),if_neg hname,List.append_cons]
      exact Replaces.of_fake (hdata.addressText _) rfl (ih _ _)

/-- Once there is an address, the loop does not touch the stores. -/
theorem rewriteAnswer_filled {data : RData} (rrs : List RR) (acc : Rewrite) (hip : acc.fakeIP ≠ [])
    (hbuild : Builds qtype acc.fakeIP data) (s : Stores) :
    ∃ acc', rewriteAnswer mapLower domain qtype now rrs acc s = .ok (.ok acc',s) ∧
      (acc.replaced = true ∨ (∃ rr ∈ rrs, rr.header.rrtype = qtype) → acc'.replaced = true) ∧
      acc'.answer = acc.answer++withFake qtype data acc.replacedNames rrs := by
  induction rrs generalizing acc with
  | nil => exact ⟨acc,rfl,fun h => h.resolve_right (by simp),by rw [withFake,List.append_nil]⟩
  | cons rr rrs ih =>
    rw [withFake]
    by_cases htype : rr.header.rrtype ≠ qtype
    · obtain ⟨acc',hrun,hrep,hans⟩ := ih {acc with answer := acc.answer++[rr]} hip hbuild
      refine ⟨acc',by rw [rewriteAnswer,if_pos htype,hrun],fun h => hrep ?_,?_⟩
      · simpa [htype] using h
      · rw [if_pos htype,List.append_cons]
        exact hans
    have hensure : ensureFakeIP mapLower domain qtype rr.header.ttl now acc.fakeIP s =
        .ok (.ok acc.fakeIP,s) := by
      rw [ensureFakeIP,if_neg hip]
      rfl
    rw [rewriteAnswer,if_neg htype,if_neg htype,Proc.bind_run hensure]
    by_cases hname : rr.header.name ∈ acc.replacedNames
    · obtain ⟨acc',hrun,hrep,hans⟩ := ih {acc with replaced := true} hip hbuild
      rw [if_pos hname,if_pos hname]
      exact ⟨acc',hrun,fun _ => hrep (.inl rfl),hans⟩
    · have hfake : Proc.ofExcept (buildFakeAnswerRR rr.header acc.fakeIP) s =
          .ok (.ok (fakeRecord data rr.header),s) := by
        rw [hbuild rr.header (not_not.mp htype)]
        rfl
      obtain ⟨acc',hrun,hrep,hans⟩ := ih ⟨acc.answer++[fakeRecord data rr.header],
        rr.header.name::acc.replacedNames,acc.fakeIP,true⟩ hip hbuild
      rw [if_neg hname,if_neg hname,Proc.bind_run hfake]
      exact ⟨acc',hrun,fun _ => hrep (.inl rfl),hans.trans (List.append_cons ..).symm⟩

theorem rewriteAnswer_skip {before : List RR} (hbefore : ∀ rr ∈ before, rr.header.rrtype ≠ qtype)
    (rest : List RR) (acc : Rewrite) :
    rewriteAnswer mapLower domain qtype now (before++rest) acc =
      rewriteAnswer mapLower domain qtype now rest {acc with answer := acc.answer++before} := by
  induction before generalizing acc with
  | nil => simp
  | cons rr before ih =>
    rw [List.cons_append,rewriteAnswer,if_pos (hbefore rr List.mem_cons_self),
      ih fun x hx => hbefore x (List.mem_cons_of_mem rr hx)]
    simp

theorem withFake_skip {before : List RR} (hbefore : ∀ rr ∈ before, rr.header.rrtype ≠ qtype)
    (data : RData) (seen : List Str) (rest : List RR) :
    withFake qtype data seen (before++rest) = before++withFake qtype data seen rest := by
  induction before with
  | nil => rfl
  | cons rr before ih =>
    rw [List.cons_append,withFake,if_pos (hbefore rr List.mem_cons_self),
      ih fun x hx => hbefore x (List.mem_cons_of_mem rr hx),List.cons_append]

/-- The first record of the type brings the address; from then on it is as if it had been
there before. -/
theorem rewriteAnswer_first {rr : RR} (htype : rr.header.rrtype = qtype) {acc : Rewrite}
    (hacc : acc.fakeIP = []) {ip : Str} (hip : ip ≠ []) {s s' : Stores}
    (halloc : allocateFakeIP mapLower domain qtype rr.header.ttl now s = .ok (.ok ip,s'))
    (rrs : List RR) :
    rewriteAnswer mapLower domain qtype now (rr::rrs) acc s =
      rewriteAnswer mapLower domain qtype now (rr::rrs) {acc with fakeIP := ip} s' := by
  have hensure : ensureFakeIP mapLower domain qtype rr.header.ttl now acc.fakeIP s =
      .ok (.ok ip,s') := by
    rw [ensureFakeIP,if_pos hacc,Proc.withStr,halloc]
  have hensure' : ensureFakeIP mapLower domain qtype rr.header.ttl now ip s' = .ok (.ok ip,s') := by
    rw [ensureFakeIP,if_neg hip]
    rfl
  rw [rewriteAnswer,if_neg (not_not.mpr htype),Proc.bind_run hensure,rewriteAnswer,
    if_neg (not_not.mpr htype),Proc.bind_run hensure']

/-- The place of the first record of the type. -/
theorem find_type {answer : List RR} {rr : RR}
    (h : answer.find? (fun rr => rr.header.rrtype = qtype) = some rr) :
    rr.header.rrtype = qtype ∧ ∃ before rest, answer = before++rr::rest ∧
      ∀ rr ∈ before, rr.header.rrtype ≠ qtype := by
  obtain ⟨hmatch,before,rest,hanswer,hbefore⟩ := List.find?_eq_some_iff_append.mp h
  exact ⟨of_decide_eq_true hmatch,before,rest,hanswer,by simpa using hbefore⟩

section First

variable {answer : List RR} {rr : RR} {s s' : Stores}
variable (hfind : answer.find? (fun rr => rr.header.rrtype = qtype) = some rr)
include hfind

theorem rewriteAnswer_refused {err : String}
    (halloc : allocateFakeIP mapLower domain qtype rr.header.ttl now s = .ok (.error err,s')) :
    rewriteAnswer mapLower domain qtype now answer {} s =
      .ok (.error ("allocate fake ip" ++ ": " ++ err),s') := by
  obtain ⟨htype,before,rest,rfl,hbefore⟩ := find_type hfind
  have hensure : ensureFakeIP mapLower domain qtype rr.header.ttl now [] s =
      .ok (.error ("allocate fake ip" ++ ": " ++ err),s') := by
    rw [ensureFakeIP,if_pos rfl,Proc.withStr,halloc]
  rw [rewriteAnswer_skip mapLower domain now hbefore,rewriteAnswer,if_neg (not_not.mpr htype),
    Proc.bind_error hensure]

/-- All records of the type get the address that was allocated. -/
theorem rewriteAnswer_granted {ip : Str} (hip : ip ≠ []) {data : RData}
    (hbuild : Builds qtype ip data)
    (halloc : allocateFakeIP mapLower domain qtype rr.header.ttl now s = .ok (.ok ip,s')) :
    ∃ acc, rewriteAnswer mapLower domain qtype now answer {} s = .ok (.ok acc,s') ∧
      acc.replaced = true ∧ acc.answer = withFake qtype data [] answer := by
  obtain ⟨htype,before,rest,rfl,hbefore⟩ := find_type hfind
  obtain ⟨acc,hrun,hrep,hans⟩ := rewriteAnswer_filled mapLower domain now (rr::rest)
    {answer := []++before, fakeIP := ip} hip hbuild s'
  refine ⟨acc,?_,hrep (.inr ⟨rr,List.mem_cons_self,htype⟩),?_⟩
  · rw [rewriteAnswer_skip mapLower domain now hbefore,
      rewriteAnswer_first mapLower domain now htype rfl hip halloc]
    exact hrun
  · rw [hans,withFake_skip hbefore]
    rfl

end First

theorem rewriteAnswer_untouched {answer : List RR}
    (hfind : answer.find? (fun rr => rr.header.rrtype = qtype) = none) (s : Stores) :
    rewriteAnswer mapLower domain qtype now answer {} s = .ok (.ok {answer},s) := by
  have hnone : ∀ rr ∈ answer, rr.header.rrtype ≠ qtype := by simpa using hfind
  have hskip := rewriteAnswer_skip mapLower domain now hnone [] {}
  rw [List.append_nil] at hskip
  rw [hskip]
  rfl

/-- The TTL that the address is allocated with. -/
def grantTTL (qtype : ℕ) (resp : Msg) : ℕ :=
  match resp.answer.find? fun rr => rr.header.rrtype = qtype with
  | some rr => rr.header.ttl
  | none => fallbackFakeTTL resp

/-- The TTLs of the records with the fake address. -/
def IsGrantedTTL (qtype : ℕ) (resp : Msg) (ttl : ℕ) : Prop :=
  ttl = fakeTTL (grantTTL qtype resp) ∨
    ∃ up ∈ firstPerOwner qtype [] resp.answer, ttl = fakeTTL up.header.ttl

/-- A reply comes from an allocation that succeeded, and all its records of the type have the
address of that allocation. -/
def Answers (qtype : ℕ) (resp : Msg) (ra : Except String Str) (r : Except String Msg) : Prop :=
  ∀ msg, r = .ok msg → ∃ ip, ra = .ok ip ∧ ∀ rr ∈ msg.answer, rr.header.rrtype = qtype →
    addressText rr = ip ∧ IsGrantedTTL qtype resp rr.header.ttl

theorem answers_error {resp : Msg} (ra : Except String Str) (err : String) :
    Answers qtype resp ra (.error err) := by
  intro msg hmsg
  simp at hmsg

/-- The reply with a fake address: the upstream message with another answer. -/
def fakeReply (question : Question) (resp : Msg) (data : RData) : Msg :=
  {resp with answer :=
    match resp.answer.find? fun rr => rr.header.rrtype = question.qtype with
    | some _ => withFake question.qtype data [] resp.answer
    | none => [fakeRecord data ⟨question.name,question.qtype,question.qclass,fallbackFakeTTL resp⟩]}

theorem fakeReply_answers {question : Question} {ip : Str} {data : RData}
    (hdata : Carries question.qtype ip data) (resp : Msg) :
    Answers question.qtype resp (.ok ip) (.ok (fakeReply question resp data)) := by
  rintro msg hmsg
  obtain rfl := Except.ok.inj hmsg
  refine ⟨ip,rfl,fun rr hrr htype => ?_⟩
  rw [fakeReply] at hrr
  dsimp only at hrr
  cases hfind : resp.answer.find? fun rr => rr.header.rrtype = question.qtype with
  | some up =>
    rw [hfind] at hrr
    have hreplaces := withFake_replaces hdata [] resp.answer []
    obtain ⟨haddr,hup⟩ := (hreplaces rr hrr htype).resolve_left (by simp)
    exact ⟨haddr,.inr hup⟩
  | none =>
    rw [hfind] at hrr
    rw [List.mem_singleton.mp hrr]
    refine ⟨hdata.addressText _,.inl ?_⟩
    rw [grantTTL,hfind]
    rfl

section Answer

variable {s s' : Stores} {question : Question} {resp : Msg}

theorem fakeAnswer_refused {err : String}
    (halloc : allocateFakeIP mapLower domain question.qtype (grantTTL question.qtype resp) now s =
      .ok (.error err,s')) :
    ∃ err', fakeAnswer mapLower domain question.qtype now question resp s =
      .ok (.error err',s') := by
  rw [grantTTL] at halloc
  rw [fakeAnswer]
  cases hfind : resp.answer.find? fun rr => rr.header.rrtype = question.qtype with
  | some rr =>
    rw [hfind] at halloc
    exact ⟨_,Proc.bind_error (rewriteAnswer_refused mapLower domain now hfind halloc)⟩
  | none =>
    rw [hfind] at halloc
    have herr : Proc.withStr "allocate fallback fake ip"
        (allocateFakeIP mapLower domain question.qtype (fallbackFakeTTL resp) now) s =
          .ok (.error ("allocate fallback fake ip" ++ ": " ++ err),s') := by
      rw [Proc.withStr,halloc]
    rw [Proc.bind_run (rewriteAnswer_untouched mapLower domain now hfind s),if_neg (by simp),
      fallbackAnswer]
    exact ⟨_,Proc.bind_error herr⟩

theorem fakeAnswer_granted {ip : Str} (hip : ip ≠ []) {data : RData}
    (hbuild : Builds question.qtype ip data)
    (halloc : allocateFakeIP mapLower domain question.qtype (grantTTL question.qtype resp) now s =
      .ok (.ok ip,s')) :
    fakeAnswer mapLower domain question.qtype now question resp s =
      .ok (.ok (fakeReply question resp data),s') := by
  rw [grantTTL] at halloc
  rw [fakeAnswer,fakeReply]
  cases hfind : resp.answer.find? fun rr => rr.header.rrtype = question.qtype with
  | some rr =>
    rw [hfind] at halloc
    obtain ⟨acc,hrun,hrep,hans⟩ :=
      rewriteAnswer_granted mapLower domain now hfind hip hbuild halloc
    rw [Proc.bind_run hrun,if_pos hrep,hans]
    rfl
  | none =>
    rw [hfind] at halloc
    have hok : Proc.withStr "allocate fallback fake ip"
        (allocateFakeIP mapLower domain question.qtype (fallbackFakeTTL resp) now) s =
          .ok (.ok ip,s') := by
      rw [Proc.withStr,halloc]
    have hrecord : Proc.ofExcept (buildQuestionFakeAnswerRR question ip (fallbackFakeTTL resp)) s' =
        .ok (.ok (fakeRecord data
          ⟨question.name,question.qtype,question.qclass,fallbackFakeTTL resp⟩),s') := by
      rw [buildQuestionFakeAnswerRR,
        hbuild ⟨question.name,question.qtype,question.qclass,fallbackFakeTTL resp⟩ rfl]
      rfl
    rw [Proc.bind_run (rewriteAnswer_untouched mapLower domain now hfind s),if_neg (by simp),
      fallbackAnswer,Proc.bind_run hok,Proc.bind_run hrecord]
    rfl

end Answer

theorem fakeAnswer_spec {s : Stores} (h : StoresConsistent s) {question : Question}
    (hq : IsAddressType question.qtype) (resp : Msg) :
    ∃ r ra st, fakeAnswer mapLower domain question.qtype now question resp s =
        .ok (r,setFamily question.qtype st s) ∧
      Consistent (familyCIDR question.qtype) st ∧
      Allocates now (family question.qtype s) (toLower mapLower domain)
        (now+fakeIPLifetime (grantTTL question.qtype resp)) (ra,st) ∧
      Answers question.qtype resp ra r := by
  obtain ⟨ra,st,halloc,hst,hspec⟩ :=
    allocateFakeIP_spec h hq mapLower domain (grantTTL question.qtype resp) now
  cases ra with
  | error err =>
    obtain ⟨err',hr⟩ := fakeAnswer_refused mapLower domain now halloc
    exact ⟨_,_,st,hr,hst,hspec,answers_error _ _⟩
  | ok ip =>
    have hfake : IsFakeText question.qtype ip := hst.address ip _ hspec.granted
    obtain ⟨data,hdata,hbuild⟩ := buildFakeAnswerRR_spec hq hfake
    exact ⟨_,_,st,fakeAnswer_granted mapLower domain now hfake.ne_nil hbuild halloc,hst,hspec,
      fakeReply_answers hdata resp⟩

end Rewriting

end DNSHijack
end Enimul
