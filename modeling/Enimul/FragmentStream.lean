import Enimul.Fragment

/-! What a fragmented ClientHello carries.
For a record in which the parser has found a server name, the in-band stream of
`sendRecords` is the record itself or a sequence of records with the same handshake.
The records-only mode keeps this only when an out-of-band variant is on. -/
namespace Enimul
namespace Fragment

open GoSlice ClientHello PeerProgram Policies

/-- The record with its minor version replaced, where one is configured. -/
def adjust (minorVersion : Byte) (clientHello : Bytes) : Bytes :=
  if minorVersion.isUnset then clientHello else clientHello.set 2 minorVersion.b

section Records

variable (minorVersion : Byte) (oob oobex enabled : Bool) (interval : ℤ)

@[simp] theorem adjust_length (clientHello : Bytes) :
    (adjust minorVersion clientHello).length = clientHello.length := by
  rw [adjust]
  split <;> simp

theorem adjust_drop (clientHello : Bytes) :
    (adjust minorVersion clientHello).drop 5 = clientHello.drop 5 := by
  rw [adjust]
  split
  · rfl
  · exact List.drop_set_of_lt (by omega)

theorem setMinorVersion_eq {clientHello : Bytes} (h : 5 ≤ clientHello.length) :
    setMinorVersion minorVersion clientHello = .ok (adjust minorVersion clientHello) := by
  rw [setMinorVersion,adjust]
  split
  · rfl
  · exact store_of_lt (by omega)

/-- The payloads of the records for a cut. -/
def payloadsAt (clientHello : Bytes) (cut : ℕ) (records : ℤ) : List Bytes :=
  parts ((clientHello.drop 5).take (cut-5)) (records/2)++
    parts (clientHello.drop cut) (records-records/2)

theorem recordChunks_of_cut {clientHello : Bytes} {offset length records : ℤ} {cut : ℕ}
    (hcut : findLastDotOrMidPos clientHello offset length = .ok cut) (h5 : 5 ≤ cut)
    (hle : cut ≤ clientHello.length) (hr : 2 ≤ records) :
    recordChunks clientHello offset length records =
      .ok ((payloadsAt clientHello cut records).map (tlsRecord (clientHello.take 3))) := by
  have hr5 : tlsRecordHeaderLen = 5 := rfl
  have hheader : (clientHello.take 3).length = 3 := by simp; omega
  have hadd : addHeader (some (clientHello.take 3)) = tlsRecord (clientHello.take 3) :=
    funext fun p => makeRecord_eq p hheader
  simp only [recordChunks,hcut,ok_bind,sliceTo_of_le (show 3 ≤ clientHello.length by omega),
    slice_of_le (s := clientHello) (show tlsRecordHeaderLen ≤ cut by omega) (by omega),
    sliceFrom_of_le hle]
  rw [splitAndAppend_eq _ _ (by omega),ok_bind,splitAndAppend_eq _ _ (by omega),hadd,hr5,
    List.nil_append,payloadsAt,List.map_append]

theorem payloadsAt_flatten {clientHello : Bytes} {cut : ℕ} {records : ℤ} (h5 : 5 ≤ cut)
    (hr : 2 ≤ records) : (payloadsAt clientHello cut records).flatten = clientHello.drop 5 := by
  have hleft := List.take_append_drop (cut-5) (clientHello.drop 5)
  rw [List.drop_drop,show 5+(cut-5) = cut by omega] at hleft
  rw [payloadsAt,List.flatten_append,parts_flatten _ (by omega),parts_flatten _ (by omega),hleft]

/-- The records of the handshake: not empty, at most `records` of them, and together the
handshake. The cut must leave bytes on both sides. -/
theorem recordChunks_returns (clientHello : Bytes) {offset records : ℤ} (length : ℤ)
    (hl : 12 ≤ clientHello.length) (ho : 6 ≤ offset) (hr : 2 ≤ records) :
    ∃ payloads : List Bytes,
      recordChunks clientHello offset length records =
        .ok (payloads.map (tlsRecord (clientHello.take 3))) ∧
      payloads.flatten = clientHello.drop 5 ∧ payloads.length ≤ records ∧
      ∀ p ∈ payloads, p ≠ [] := by
  obtain ⟨cut,hcut,hle,hlt,hlo⟩ := findLastDotOrMidPos_returns clientHello offset length
  have hcut6 := hlo 6 (by omega) (by omega)
  have hcutlt := hlt (List.ne_nil_of_length_pos (by omega))
  refine ⟨payloadsAt clientHello cut records,recordChunks_of_cut hcut (by omega) hle hr,
    payloadsAt_flatten (by omega) hr,?_,?_⟩
  · have h₁ := parts_length_le ((clientHello.drop 5).take (cut-5)) (n := records/2) (by omega)
    have h₂ := parts_length_le (clientHello.drop cut) (n := records-records/2) (by omega)
    rw [payloadsAt,List.length_append]
    omega
  · intro p hp
    rcases List.mem_append.mp hp with hp | hp
    · refine parts_ne_nil (List.ne_nil_of_length_pos ?_) (by omega) hp
      simp only [List.length_take,List.length_drop]
      omega
    · refine parts_ne_nil (List.ne_nil_of_length_pos ?_) (by omega) hp
      simp only [List.length_drop]
      omega

theorem records_ne_nil (header : Bytes) (payloads : List Bytes) :
    ∀ c ∈ payloads.map (tlsRecord header), c ≠ [] := by
  intro c hc
  obtain ⟨p,-,rfl⟩ := List.mem_map.mp hc
  simp [tlsRecord,putUint16]

theorem length_flatten_records (header : Bytes) {payloads : List Bytes} (h : payloads ≠ []) :
    payloads.flatten.length+header.length+2 ≤
      (payloads.map (tlsRecord header)).flatten.length := by
  induction payloads with
  | nil => exact absurd rfl h
  | cons p ps ih =>
    simp only [List.flatten_cons,List.map_cons,List.length_append,tlsRecord,putUint16_length]
    by_cases hps : ps = []
    · simp [hps]
      omega
    · have := ih hps
      omega

/-- The records are together no shorter than the record they came from. -/
theorem length_le_records {clientHello : Bytes} {payloads : List Bytes}
    (hl : 5 < clientHello.length) (hflat : payloads.flatten = clientHello.drop 5) :
    clientHello.length ≤ (payloads.map (tlsRecord (clientHello.take 3))).flatten.length := by
  have hne : payloads ≠ [] := by
    rintro rfl
    have hlen := congrArg List.length hflat
    simp only [List.flatten_nil,List.length_nil,List.length_drop] at hlen
    omega
  have hrec := length_flatten_records (clientHello.take 3) hne
  simp only [hflat,List.length_drop,List.length_take] at hrec
  omega

theorem sendRecords_single {clientHello : Bytes} (offset length : ℤ) {records : ℤ}
    (segments : ℤ) (hl : 35 ≤ clientHello.length) (hr : records ≤ 1) :
    Sends (sendRecords clientHello offset length records segments minorVersion oob oobex enabled
      interval) (adjust minorVersion clientHello) () := by
  have hone : (if records < 1 then 1 else records) = 1 := by split <;> omega
  simp only [sendRecords,hone]
  rw [if_neg (by omega),if_neg (by omega)]
  refine Sends.checked (setMinorVersion_eq minorVersion (by omega)) ?_
  rw [if_pos trivial]
  exact sendSingle_sends oob oobex enabled interval _ _ _ fun _ => by simpa using hl

section Multi

variable {clientHello : Bytes} {offset length records segments : ℤ} {chunks : List Bytes}
  (hl : 35 ≤ clientHello.length) (hr : 2 ≤ records)
  (hc : recordChunks (adjust minorVersion clientHello) offset length records = .ok chunks)

include hl hr hc

theorem sendRecords_merged (hs : 0 ≤ segments) (h35 : 35 ≤ chunks.flatten.length) :
    Sends (sendRecords clientHello offset length records segments minorVersion oob oobex enabled
      interval) chunks.flatten () := by
  have hrecords : (if records < 1 then 1 else records) = records := if_neg (by omega)
  have hsegments : 1 ≤ if segments = 0 then 1 else if segments < 0 then -1 else segments := by
    split
    · omega
    · rw [if_neg (by omega)]
      omega
  simp only [sendRecords,hrecords]
  generalize (if segments = 0 then 1 else if segments < 0 then -1 else segments) = n
    at hsegments ⊢
  rw [if_neg (by omega),if_neg (by omega)]
  refine Sends.checked (setMinorVersion_eq minorVersion (by omega)) ?_
  rw [if_neg (by omega)]
  refine Sends.checked hc ?_
  rw [if_neg (by omega)]
  exact sendMerged_sends oob oobex enabled interval hsegments fun _ => h35

theorem sendRecords_chunks (hs : segments < 0) (hne : ∀ c ∈ chunks, c ≠ []) :
    Emits (sendRecords clientHello offset length records segments minorVersion oob oobex enabled
      interval)
      (chunks.zipIdx.flatMap fun c => chunkEvents oob oobex enabled interval c.2 c.1) () := by
  have hrecords : (if records < 1 then 1 else records) = records := if_neg (by omega)
  have hsegments : (if segments = 0 then 1 else if segments < 0 then -1 else segments) = -1 := by
    rw [if_neg (by omega),if_pos hs]
  simp only [sendRecords,hrecords,hsegments]
  rw [if_neg (by omega),if_neg (by omega)]
  refine Emits.checked (setMinorVersion_eq minorVersion (by omega)) ?_
  rw [if_neg (by omega)]
  refine Emits.checked hc ?_
  refine Emits.forEach fun c hmem => sendChunk_emits oob oobex enabled interval (hne c.1 ?_)
  exact List.fst_mem_of_mem_zipIdx hmem

end Multi

end Records

/-- The precondition under which the fragmenter is called: one whole record in which the
parser has found a server name. -/
structure Located (clientHello : Bytes) (r : Parsed) : Prop where
  oneRecord : ∃ recordLen, uint16At clientHello 3 = .ok recordLen ∧
    clientHello.length = 5+recordLen
  parsed : parseClientHello clientHello = .ok r
  accepted : r.err = none
  found : 0 ≤ r.sniStart

theorem Located.bounds {clientHello : Bytes} {r : Parsed} (h : Located clientHello r) :
    58 ≤ r.sniStart ∧ r.sniStart+r.sniLen ≤ clientHello.length ∧ clientHello.length < 65541 := by
  obtain ⟨recordLen,hlen,hall⟩ := h.oneRecord
  obtain ⟨n,hn,hlt⟩ := uint16At_of_le (s := clientHello) (i := 3) (by omega)
  rw [hlen,Except.ok.injEq] at hn
  obtain ⟨r',hp,hs⟩ := parseClientHello_returns clientHello (by omega)
  rw [h.parsed,Except.ok.injEq] at hp
  subst hp
  have hfound := h.found
  rcases (hs h.accepted).2 with hname | hname
  · omega
  · omega

/-- A stream of records under `header` whose payloads are the handshake. -/
def Carries (header handshake stream : Bytes) : Prop :=
  ∃ payloads : List Bytes, stream = (payloads.map (tlsRecord header)).flatten ∧
    payloads.flatten = handshake

/-- In addition, at most `n` records, none of them empty, with exact length fields. -/
def InRecords (header : Bytes) (n : ℤ) (handshake stream : Bytes) : Prop :=
  ∃ payloads : List Bytes, stream = (payloads.map (tlsRecord header)).flatten ∧
    payloads.flatten = handshake ∧ payloads.length ≤ n ∧
    ∀ p ∈ payloads, p ≠ [] ∧ p.length < 65536

section Uniqueness

variable {header : Bytes}

/-- Records with exact length fields can be told apart in the stream. -/
theorem records_inj {ps qs : List Bytes} (hp : ∀ p ∈ ps, p.length < 65536)
    (hq : ∀ q ∈ qs, q.length < 65536)
    (h : (ps.map (tlsRecord header)).flatten = (qs.map (tlsRecord header)).flatten) : ps = qs := by
  induction ps generalizing qs with
  | nil =>
    cases qs with
    | nil => rfl
    | cons q qs => simp [tlsRecord,putUint16] at h
  | cons p ps ih =>
    cases qs with
    | nil => simp [tlsRecord,putUint16] at h
    | cons q qs =>
      simp only [List.map_cons,List.flatten_cons,tlsRecord,List.append_assoc] at h
      obtain ⟨hlen,hrest⟩ := List.append_inj (List.append_cancel_left h) rfl
      have hpq := putUint16_inj (hp p List.mem_cons_self) (hq q List.mem_cons_self) hlen
      obtain ⟨rfl,htail⟩ := List.append_inj hrest hpq
      rw [ih (fun p hm => hp p (List.mem_cons_of_mem _ hm))
        (fun q hm => hq q (List.mem_cons_of_mem _ hm)) htail]

theorem length_lt_of_mem_flatten {ps : List Bytes} {n : ℕ} (h : ps.flatten.length < n)
    {p : Bytes} (hp : p ∈ ps) : p.length < n :=
  Nat.lt_of_le_of_lt (List.sublist_flatten_of_mem hp).length_le h

/-- The handshake that a stream of records carries is determined by the stream. -/
theorem Carries.unique {handshake stream : Bytes} (h : Carries header handshake stream)
    (payloads : List Bytes) (hs : handshake.length < 65536)
    (hst : stream = (payloads.map (tlsRecord header)).flatten)
    (hp : ∀ p ∈ payloads, p.length < 65536) : payloads.flatten = handshake := by
  obtain ⟨ps,hps,rfl⟩ := h
  rw [records_inj hp (fun p hm => length_lt_of_mem_flatten hs hm) (hst.symm.trans hps)]

end Uniqueness

/-- A ClientHello of 64 bytes with the server name `a.b` at byte 61. -/
def shortHello : Bytes :=
  [0x16,3,1,0,59,1,0,0,55,3,3]++List.replicate 32 0++[0,0,2,0x13,1,1,0]++
    [0,12,0,0,0,8,0,6,0,0,3,0x61,0x2e,0x62]

def shortParsed : Parsed := ⟨[3,3],61,3,false,false,none⟩

theorem shortHello_located : Located shortHello shortParsed :=
  ⟨⟨59,rfl,rfl⟩,by decide +kernel,rfl,by decide⟩

section Results

variable {clientHello : Bytes} {r : Parsed} (minorVersion : Byte) (oob oobex enabled : Bool)
  (interval : ℤ)

theorem Located.chunks (h : Located clientHello r) {records : ℤ} (hr : 2 ≤ records) :
    ∃ payloads : List Bytes,
      recordChunks (adjust minorVersion clientHello) r.sniStart r.sniLen records =
        .ok (payloads.map (tlsRecord ((adjust minorVersion clientHello).take 3))) ∧
      payloads.flatten = clientHello.drop 5 ∧ payloads.length ≤ records ∧
      ∀ p ∈ payloads, p ≠ [] ∧ p.length < 65536 := by
  have hb := h.bounds
  obtain ⟨payloads,hc,hflat,hle,hne⟩ := recordChunks_returns (adjust minorVersion clientHello)
    r.sniLen (by rw [adjust_length]; omega) (show 6 ≤ r.sniStart by omega) hr
  rw [adjust_drop] at hflat
  have hlt : payloads.flatten.length < 65536 := by
    rw [hflat,List.length_drop]
    omega
  exact ⟨payloads,hc,hflat,hle,fun p hp => ⟨hne p hp,length_lt_of_mem_flatten hlt hp⟩⟩

/-- With a number of segments the records are sent in one stream. -/
theorem Located.sends_merged (h : Located clientHello r) {records segments : ℤ}
    (hr : 2 ≤ records) (hs : 0 ≤ segments) :
    ∃ es, Emits (sendRecords clientHello r.sniStart r.sniLen records segments minorVersion oob
        oobex enabled interval) es () ∧
      InRecords ((adjust minorVersion clientHello).take 3) records (clientHello.drop 5)
        (wire es) := by
  have hb := h.bounds
  obtain ⟨payloads,hc,hflat,hle,hp⟩ := h.chunks minorVersion hr
  have hlen := length_le_records (by rw [adjust_length]; omega)
    (hflat.trans (adjust_drop minorVersion clientHello).symm)
  rw [adjust_length] at hlen
  obtain ⟨es,he,hw⟩ := sendRecords_merged minorVersion oob oobex enabled interval
    (show 35 ≤ clientHello.length by omega) (by omega) hc hs (by omega)
  exact ⟨es,he,payloads,hw,hflat,hle,hp⟩

theorem Located.adjust_eq (h : Located clientHello r) :
    adjust minorVersion clientHello =
      tlsRecord ((adjust minorVersion clientHello).take 3) (clientHello.drop 5) := by
  obtain ⟨n,hn,hall⟩ := h.oneRecord
  have hdrop : (adjust minorVersion clientHello).drop 3 = clientHello.drop 3 := by
    rw [adjust]
    split
    · rfl
    · exact List.drop_set_of_lt (by omega)
  have hlen : (clientHello.drop 5).length = n := by rw [List.length_drop]; omega
  rw [tlsRecord,hlen,← drop_of_uint16At hn,← hdrop,List.take_append_drop]

/-- In the records-only mode without an out-of-band variant the first record is not sent. -/
def DropsFirst (records segments : ℤ) (oob oobex : Bool) : Prop :=
  2 ≤ records ∧ segments < 0 ∧ oob = false ∧ oobex = false

instance (records segments : ℤ) (oob oobex : Bool) :
    Decidable (DropsFirst records segments oob oobex) :=
  inferInstanceAs (Decidable (_ ∧ _))

/-- The records that the handshake is cut into are all sent, or all but the first. -/
theorem Located.sends_chunks (h : Located clientHello r) {records : ℤ} (hr : 2 ≤ records)
    {payloads : List Bytes} (hflat : payloads.flatten = clientHello.drop 5)
    (hc : recordChunks (adjust minorVersion clientHello) r.sniStart r.sniLen records =
      .ok (payloads.map (tlsRecord ((adjust minorVersion clientHello).take 3)))) (segments : ℤ) :
    ∃ es, Emits (sendRecords clientHello r.sniStart r.sniLen records segments minorVersion
        oob oobex enabled interval) es () ∧
      wire es = ((if DropsFirst records segments oob oobex then payloads.tail else payloads).map
        (tlsRecord ((adjust minorVersion clientHello).take 3))).flatten := by
  have hb := h.bounds
  have h35 : 35 ≤ clientHello.length := by omega
  by_cases hs : 0 ≤ segments
  · have hlen := length_le_records (by rw [adjust_length]; omega)
      (hflat.trans (adjust_drop minorVersion clientHello).symm)
    rw [adjust_length] at hlen
    obtain ⟨es,he,hw⟩ := sendRecords_merged minorVersion oob oobex enabled interval h35 hr hc hs
      (by omega)
    have hkeeps : ¬ DropsFirst records segments oob oobex := fun hd => by
      have := hd.2.1
      omega
    exact ⟨es,he,by rw [hw,if_neg hkeeps]⟩
  have he := sendRecords_chunks minorVersion oob oobex enabled interval h35 (by omega) hc
    (show segments < 0 by omega) (records_ne_nil _ payloads)
  refine ⟨_,he,?_⟩
  rw [wire_eq_flatten_sends]
  by_cases hd : DropsFirst records segments oob oobex
  · obtain ⟨-,-,rfl,rfl⟩ := id hd
    rw [if_pos hd]
    cases payloads with
    | nil => rfl
    | cons p ps => rw [List.map_cons,sends_chunkLoop_first enabled interval
        (records_ne_nil _ ps),List.tail_cons]
  · have hoob : oob ∨ oobex := by
      by_contra hno
      exact hd ⟨by omega,by omega,by simpa using hno⟩
    rw [if_neg hd,sends_chunkLoop oob oobex enabled interval (records_ne_nil _ payloads) 0
      (.inr hoob)]

/-- Whatever the policy, the handshake is cut into records, and all of them are sent or all but the
first. -/
theorem Located.sends_records (h : Located clientHello r) (records segments : ℤ) :
    ∃ es, ∃ payloads : List Bytes,
      Emits (sendRecords clientHello r.sniStart r.sniLen records segments minorVersion
        oob oobex enabled interval) es () ∧
      payloads.flatten = clientHello.drop 5 ∧ (∀ p ∈ payloads, p ≠ [] ∧ p.length < 65536) ∧
      wire es = ((if DropsFirst records segments oob oobex then payloads.tail else payloads).map
        (tlsRecord ((adjust minorVersion clientHello).take 3))).flatten := by
  have hb := h.bounds
  by_cases hr : records ≤ 1
  · obtain ⟨es,he,hw⟩ := sendRecords_single minorVersion oob oobex enabled interval r.sniStart
      r.sniLen segments (show 35 ≤ clientHello.length by omega) hr
    have hkeeps : ¬ DropsFirst records segments oob oobex := fun hd => by
      have := hd.1
      omega
    refine ⟨es,[clientHello.drop 5],he,by simp,?_,?_⟩
    · intro p hp
      rw [List.mem_singleton.mp hp]
      have hpos : 0 < (clientHello.drop 5).length := by rw [List.length_drop]; omega
      exact ⟨List.ne_nil_of_length_pos hpos,by rw [List.length_drop]; omega⟩
    · rw [hw,if_neg hkeeps,List.map_singleton,List.flatten_singleton]
      exact h.adjust_eq minorVersion
  obtain ⟨payloads,hc,hflat,-,hp⟩ := h.chunks minorVersion (show 2 ≤ records by omega)
  obtain ⟨es,he,hw⟩ := h.sends_chunks minorVersion oob oobex enabled interval (by omega) hflat hc
    segments
  exact ⟨es,payloads,he,hflat,hp,hw⟩

theorem sendRecords_preserves_handshake (h : Located clientHello r) (records : ℤ)
    {segments : ℤ} (hs : 0 ≤ segments) :
    ∃ es, Emits (sendRecords clientHello r.sniStart r.sniLen records segments minorVersion oob
        oobex enabled interval) es () ∧
      (records ≤ 1 → wire es = adjust minorVersion clientHello) ∧
      (2 ≤ records → InRecords ((adjust minorVersion clientHello).take 3) records
        (clientHello.drop 5) (wire es)) := by
  have hb := h.bounds
  by_cases hr : records ≤ 1
  · obtain ⟨es,he,hw⟩ := sendRecords_single minorVersion oob oobex enabled interval r.sniStart
      r.sniLen segments (show 35 ≤ clientHello.length by omega) hr
    exact ⟨es,he,fun _ => hw,fun h₂ => by omega⟩
  · obtain ⟨es,he,hrecords⟩ := h.sends_merged minorVersion oob oobex enabled interval
      (show 2 ≤ records by omega) hs
    exact ⟨es,he,fun h₁ => absurd h₁ hr,fun _ => hrecords⟩

theorem sendRecords_preserves_handshake_short :
    ∃ es, Emits (sendRecords shortHello 61 3 4 3 ⟨3,true⟩ true true false 0) es () ∧
      ((4 : ℤ) ≤ 1 → wire es = adjust ⟨3,true⟩ shortHello) ∧
      ((2 : ℤ) ≤ 4 → InRecords ((adjust ⟨3,true⟩ shortHello).take 3) 4 (shortHello.drop 5)
        (wire es)) :=
  sendRecords_preserves_handshake ⟨3,true⟩ true true false 0 shortHello_located 4 (by decide)

/-- In the records-only mode every record is sent, and the stream carries the handshake,
exactly when one of the out-of-band variants is on. -/
theorem sendRecords_recordsOnly_iff (h : Located clientHello r) {records : ℤ}
    (hr : 2 ≤ records) :
    ∃ es chunks, Emits (sendRecords clientHello r.sniStart r.sniLen records (-1) minorVersion oob
        oobex enabled interval) es () ∧
      recordChunks (adjust minorVersion clientHello) r.sniStart r.sniLen records = .ok chunks ∧
      (sends es = chunks ↔ oob ∨ oobex) ∧
      (Carries ((adjust minorVersion clientHello).take 3) (clientHello.drop 5) (wire es) ↔
        oob ∨ oobex) := by
  have hb := h.bounds
  obtain ⟨payloads,hc,hflat,-,hp⟩ := h.chunks minorVersion hr
  have he := sendRecords_chunks minorVersion oob oobex enabled interval
    (show 35 ≤ clientHello.length by omega) hr hc (show (-1 : ℤ) < 0 by omega)
    (records_ne_nil _ payloads)
  refine ⟨_,_,he,hc,?_⟩
  by_cases hoob : oob ∨ oobex
  · have hsends := sends_chunkLoop oob oobex enabled interval
      (records_ne_nil ((adjust minorVersion clientHello).take 3) payloads) 0 (.inr hoob)
    refine ⟨iff_of_true hsends hoob,iff_of_true ⟨payloads,?_,hflat⟩ hoob⟩
    rw [wire_eq_flatten_sends,hsends]
  obtain ⟨rfl,rfl⟩ : oob = false ∧ oobex = false := by simpa using hoob
  cases payloads with
  | nil =>
    have hl := congrArg List.length hflat
    simp only [List.flatten_nil,List.length_nil,List.length_drop] at hl
    omega
  | cons p ps =>
    have hsends := sends_chunkLoop_first enabled interval
      (c := tlsRecord ((adjust minorVersion clientHello).take 3) p)
      (records_ne_nil ((adjust minorVersion clientHello).take 3) ps)
    rw [List.map_cons,wire_eq_flatten_sends,hsends]
    refine ⟨iff_of_false ?_ hoob,iff_of_false ?_ hoob⟩
    · intro heq
      simpa using congrArg List.length heq
    · intro hcar
      have hrest := hcar.unique ps (by rw [List.length_drop]; omega) rfl fun q hq =>
        (hp q (List.mem_cons_of_mem p hq)).2
      rw [← hflat,List.flatten_cons,List.self_eq_append_left] at hrest
      exact (hp p List.mem_cons_self).1 hrest

end Results

theorem sendRecords_recordsOnly_short :
    ∃ es chunks, Emits (sendRecords shortHello 61 3 2 (-1) ⟨0,false⟩ true false false 0) es () ∧
      recordChunks (adjust ⟨0,false⟩ shortHello) 61 3 2 = .ok chunks ∧
      (sends es = chunks ↔ true ∨ false) ∧
      (Carries ((adjust ⟨0,false⟩ shortHello).take 3) (shortHello.drop 5) (wire es) ↔
        true ∨ false) :=
  sendRecords_recordsOnly_iff ⟨0,false⟩ true false false 0 shortHello_located (by decide)

/-- Two records and no variant: the peer sees the second record only. -/
theorem sendRecords_recordsOnly_drops :
    ∃ q, sendRecords shortHello 61 3 2 (-1) ⟨0,false⟩ false false false 0 ⟨fun _ _ => none,[]⟩ =
        .ok (.ok (),q) ∧
      sends q.log = [[0x16,3,1,0,2,0x2e,0x62]] ∧
      ¬ Carries (shortHello.take 3) (shortHello.drop 5) (wire q.log) := by
  refine ⟨_,rfl,rfl,fun hcar => ?_⟩
  have hrest := hcar.unique [[0x2e,0x62]] (by decide) rfl (by decide)
  exact absurd hrest (by decide)

/-- On a record whose server name starts behind byte 58 the fragmenter sends a fixed
sequence of events, for every value of the policy. -/
theorem sendRecords_emits {clientHello : Bytes} {offset : ℤ} (length records segments : ℤ)
    (minorVersion : Byte) (oob oobex enabled : Bool) (interval : ℤ) (ho : 58 ≤ offset)
    (hl : offset ≤ clientHello.length) :
    ∃ es, Emits (sendRecords clientHello offset length records segments minorVersion oob oobex
      enabled interval) es () := by
  by_cases hr : records ≤ 1
  · obtain ⟨es,he,-⟩ := sendRecords_single minorVersion oob oobex enabled interval offset length
      segments (show 35 ≤ clientHello.length by omega) hr
    exact ⟨es,he⟩
  obtain ⟨payloads,hc,hflat,-,-⟩ := recordChunks_returns (adjust minorVersion clientHello)
    length (by rw [adjust_length]; omega) (show 6 ≤ offset by omega) (show 2 ≤ records by omega)
  by_cases hs : segments < 0
  · exact ⟨_,sendRecords_chunks minorVersion oob oobex enabled interval
      (show 35 ≤ clientHello.length by omega) (by omega) hc hs (records_ne_nil _ _)⟩
  have h35 := length_le_records (by rw [adjust_length]; omega) hflat
  rw [adjust_length] at h35
  obtain ⟨es,he,-⟩ := sendRecords_merged minorVersion oob oobex enabled interval
    (show 35 ≤ clientHello.length by omega) (by omega) hc (show 0 ≤ segments by omega) (by omega)
  exact ⟨es,he⟩

theorem parseClientHello_sendRecords_safe (data : Bytes) (h : 5 ≤ data.length) :
    ∃ r, parseClientHello data = .ok r ∧
      (r.err = none → 0 ≤ r.sniStart →
        0 < r.sniStart ∧ r.sniStart+r.sniLen ≤ data.length ∧
        ∀ (records segments : ℤ) (minorVersion : Byte) (oob oobex enabled : Bool) (interval : ℤ)
          (p : Peer Event), ∃ out, sendRecords data r.sniStart r.sniLen records segments
            minorVersion oob oobex enabled interval p = .ok out) := by
  obtain ⟨r,hr,hs⟩ := parseClientHello_returns data h
  refine ⟨r,hr,fun hacc hfound => ?_⟩
  rcases (hs hacc).2 with hname | ⟨hlo,hhi⟩
  · omega
  refine ⟨by omega,hhi,fun records segments minorVersion oob oobex enabled interval p => ?_⟩
  obtain ⟨es,he⟩ := sendRecords_emits r.sniLen records segments minorVersion oob oobex enabled
    interval hlo (show r.sniStart ≤ data.length by omega)
  exact he.no_fault p

theorem parseClientHello_sendRecords_safe_short :
    ∃ r, parseClientHello shortHello = .ok r ∧
      (r.err = none → 0 ≤ r.sniStart →
        0 < r.sniStart ∧ r.sniStart+r.sniLen ≤ shortHello.length ∧
        ∀ (records segments : ℤ) (minorVersion : Byte) (oob oobex enabled : Bool) (interval : ℤ)
          (p : Peer Event), ∃ out, sendRecords shortHello r.sniStart r.sniLen records segments
            minorVersion oob oobex enabled interval p = .ok out) :=
  parseClientHello_sendRecords_safe shortHello (by decide)

end Fragment
end Enimul
