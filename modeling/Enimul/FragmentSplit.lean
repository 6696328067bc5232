import Enimul.FragmentStream

/-! Where a fragmented ClientHello is cut.
The pieces on both sides of the cut are split again, but none of them reaches over it. So a
piece holds all of the server name only if the cut is not inside the name. -/
namespace Enimul
namespace Fragment

open GoSlice ClientHello PeerProgram Policies

section Pieces

/-- One of the pieces, laid end to end from `base` on, holds the bytes from `start` up to
`stop`. -/
def Holds (pieces : List Bytes) (base start stop : ℕ) : Prop :=
  ∃ before piece after, pieces = before++piece::after ∧ base+before.flatten.length ≤ start ∧
    stop ≤ base+before.flatten.length+piece.length

theorem not_holds_of_cut {left right : List Bytes} {base cut start stop : ℕ}
    (hcut : base+left.flatten.length = cut) (hstart : start < cut) (hstop : cut < stop) :
    ¬ Holds (left++right) base start stop := by
  rintro ⟨before,piece,after,hpieces,hlo,hhi⟩
  rcases List.append_eq_append_iff.mp hpieces with ⟨mid,hbefore,-⟩ | ⟨mid,hleft,hright⟩
  · -- the piece lies behind the cut
    have hlen := congrArg (fun ps => ps.flatten.length) hbefore
    simp only [List.flatten_append,List.length_append] at hlen
    omega
  · cases mid with
    | nil =>
      have hlen := congrArg (fun ps => ps.flatten.length) hleft
      simp only [List.append_nil] at hlen
      omega
    | cons p mid =>
      -- the piece lies before the cut
      rw [List.cons_append,List.cons.injEq] at hright
      obtain ⟨rfl,-⟩ := hright
      have hlen := congrArg (fun ps => ps.flatten.length) hleft
      simp only [List.flatten_append,List.flatten_cons,List.length_append] at hlen
      omega

end Pieces

section Cut

/-- A name with its last dot behind its first byte, or without a dot and of two bytes at
least. -/
def Divisible (data : Bytes) (sniStart sniLen : ℕ) : Prop :=
  match lastIndexByte ((data.drop sniStart).take sniLen) 46 with
  | some subIdx => 0 < subIdx
  | none => 2 ≤ sniLen

instance (data : Bytes) (sniStart sniLen : ℕ) : Decidable (Divisible data sniStart sniLen) := by
  unfold Divisible
  cases lastIndexByte ((data.drop sniStart).take sniLen) 46 <;> infer_instance

/-- The cut goes through the name. -/
theorem findLastDotOrMidPos_divides {data : Bytes} {sniStart sniLen : ℕ}
    (hle : sniStart+sniLen ≤ data.length) (h : Divisible data sniStart sniLen) :
    ∃ cut, findLastDotOrMidPos data sniStart sniLen = .ok cut ∧ sniStart < cut ∧
      cut < sniStart+sniLen := by
  have hpos : 0 < sniLen := by
    by_contra hzero
    have hnil : sniLen = 0 := by omega
    subst hnil
    simp [Divisible,lastIndexByte] at h
  rw [findLastDotOrMidPos,if_neg (by omega),Int.toNat_natCast,Int.toNat_natCast,
    slice_of_le (by omega) hle,Nat.add_sub_cancel_left,ok_bind]
  unfold Divisible at h
  cases hdot : lastIndexByte ((data.drop sniStart).take sniLen) 46 with
  | none =>
    rw [hdot] at h
    exact ⟨_,rfl,by dsimp only at h; omega,by dsimp only at h; omega⟩
  | some subIdx =>
    rw [hdot] at h
    have hlt := lastIndexByte_lt hdot
    simp only [List.length_take,List.length_drop] at hlt
    exact ⟨_,rfl,by dsimp only at h; omega,by omega⟩

theorem Divisible.drop {data : Bytes} {sniStart sniLen k : ℕ} (hk : k ≤ sniStart)
    (h : Divisible data sniStart sniLen) : Divisible (data.drop k) (sniStart-k) sniLen := by
  unfold Divisible at h ⊢
  rwa [List.drop_drop,Nat.add_sub_cancel' hk]

/-- The version byte lies before the name. -/
theorem Divisible.adjust {clientHello : Bytes} {sniStart sniLen : ℕ} (hk : 5 ≤ sniStart)
    (minorVersion : Byte) (h : Divisible clientHello sniStart sniLen) :
    Divisible (adjust minorVersion clientHello) sniStart sniLen := by
  have hdrop : (Fragment.adjust minorVersion clientHello).drop sniStart =
      clientHello.drop sniStart := by
    have htail := congrArg (List.drop (sniStart-5)) (adjust_drop minorVersion clientHello)
    simpa only [List.drop_drop,Nat.add_sub_cancel' hk] using htail
  unfold Divisible at h ⊢
  rwa [hdrop]

end Cut

section SendBySend

/-- The action sends these pieces, one send after the other, and returns `a`. -/
def SendsEach {α : Type} (m : Act Event α) (pieces : List Bytes) (a : α) : Prop :=
  ∃ es, Emits m es a ∧ sends es = pieces

namespace SendsEach

variable {α β : Type} {m : Act Event α} {ps qs : List Bytes} {a : α} {b : β}

theorem pure (a : α) : SendsEach (pure a) [] a := ⟨[],Emits.pure a,rfl⟩

theorem write (data : Bytes) : SendsEach (write data) [data] () := ⟨_,Emits.perform _,rfl⟩

theorem sendWithOOB (site : OOBSite) (data : Bytes) (oob : UInt8) :
    SendsEach (sendWithOOB site data oob) [(Event.oob site data oob).inBand] () :=
  ⟨_,Emits.withStr _ (Emits.perform _),rfl⟩

theorem withStr (op : String) (h : SendsEach m ps a) : SendsEach (withStr op m) ps a := by
  obtain ⟨es,he,hs⟩ := h
  exact ⟨es,Emits.withStr op he,hs⟩

theorem bind {f : α → Act Event β} (hm : SendsEach m ps a) (hf : SendsEach (f a) qs b) :
    SendsEach (m >>= f) (ps++qs) b := by
  obtain ⟨es,he,rfl⟩ := hm
  obtain ⟨fs,hf,rfl⟩ := hf
  exact ⟨es++fs,Emits.bind he hf,sends_append es fs⟩

theorem checked {c : Checked α} {f : α → Act Event β} (hc : c = .ok a)
    (hf : SendsEach (f a) ps b) : SendsEach (fromChecked c >>= f) ps b := by
  obtain ⟨es,he,hs⟩ := hf
  exact ⟨es,Emits.checked hc he,hs⟩

/-- Waiting sends nothing. -/
theorem waitForAck (enabled : Bool) (delay : ℤ) : SendsEach (waitForAck enabled delay) [] () :=
  ⟨_,Emits.perform _,rfl⟩

theorem congr (h : SendsEach m ps a) (hp : ps = qs) : SendsEach m qs a := hp ▸ h

theorem forEach {f : α → Act Event Unit} {g : α → Bytes} {as : List α}
    (h : ∀ a ∈ as, SendsEach (f a) [g a] ()) : SendsEach (forEach f as) (as.map g) () := by
  induction as with
  | nil => exact SendsEach.pure ()
  | cons a as ih =>
    exact bind (h a List.mem_cons_self) (ih fun b hb => h b (List.mem_cons_of_mem a hb))

end SendsEach

variable (oob oobex enabled : Bool) (interval : ℤ)

theorem sendPacket_sendsEach (op : String) (i : ℕ) (packet : Bytes) :
    SendsEach (sendPacket oob enabled interval op i packet) [packet] () := by
  have hw : SendsEach (writePacket oob op i packet) [packet] () := by
    rw [writePacket]
    split
    · exact SendsEach.sendWithOOB .oob packet 0
    · exact SendsEach.withStr _ (SendsEach.write packet)
  exact SendsEach.bind hw (SendsEach.waitForAck enabled interval)

/-- The sends of the oob_ex pair: the urgent byte of the first belongs to the stream. -/
def pairPieces (data : Bytes) : List Bytes :=
  if oobex then [data.take 16,(data.drop 16).take 19] else []

theorem sendOOBExPart_sendsEach {data : Bytes} (h : oobex → 35 ≤ data.length) :
    SendsEach (sendOOBExPart oobex enabled interval data) (pairPieces oobex data)
      (afterPair oobex data) := by
  cases oobex with
  | false => exact SendsEach.pure data
  | true =>
    have h35 := h rfl
    have hurgent : data.take 15++[data[15]] = data.take 16 := List.take_append_getElem (by omega)
    refine SendsEach.checked (sliceTo_of_le (show 15 ≤ data.length by omega)) ?_
    refine SendsEach.checked (index_of_lt (show 15 < data.length by omega)) ?_
    refine (SendsEach.bind (SendsEach.sendWithOOB .oob1 _ _) ?_).congr
      (congrArg (fun head => [head,(data.drop 16).take 19]) hurgent)
    refine SendsEach.checked (slice_of_le (by omega) h35) ?_
    refine SendsEach.bind (SendsEach.sendWithOOB .oob2 _ 0) ?_
    refine SendsEach.bind (SendsEach.waitForAck enabled interval) ?_
    exact ⟨[],Emits.fromChecked (sliceFrom_of_le h35),rfl⟩

theorem pairPieces_flatten (data : Bytes) :
    (pairPieces oobex data).flatten++afterPair oobex data = data := by
  cases oobex with
  | false => rfl
  | true =>
    have hpair : data.take 16++(data.drop 16).take 19 = data.take 35 := (List.take_add).symm
    simp only [pairPieces,afterPair,if_true,List.flatten_cons,List.flatten_nil,List.append_nil,
      hpair,List.take_append_drop]

/-- One record cut into segments: the pieces on the two sides of the cut. -/
theorem sendSingle_sendsEach {clientHello : Bytes} {offset length segments : ℤ} {cut : ℕ}
    (h : oobex → 35 ≤ clientHello.length) (hs : 2 ≤ segments)
    (hcut : findLastDotOrMidPos (afterPair oobex clientHello)
      (if oobex then offset-35 else offset) length = .ok cut)
    (hle : cut ≤ (afterPair oobex clientHello).length) :
    SendsEach (sendSingle oob oobex enabled interval clientHello offset length segments)
      (pairPieces oobex clientHello++(parts ((afterPair oobex clientHello).take cut) (segments/2)++
        parts ((afterPair oobex clientHello).drop cut) (segments-segments/2))) () := by
  refine SendsEach.bind (sendOOBExPart_sendsEach oobex enabled interval h) ?_
  have hseg : (if segments < 1 then 1 else segments) = segments := if_neg (by omega)
  dsimp only
  rw [hseg,if_neg (by omega)]
  refine SendsEach.checked hcut ?_
  refine SendsEach.checked (sliceTo_of_le hle) ?_
  refine SendsEach.checked (splitAndAppend_eq _ none (by omega) []) ?_
  refine SendsEach.checked (sliceFrom_of_le hle) ?_
  refine SendsEach.checked (splitAndAppend_eq _ none (by omega) _) ?_
  have hid : addHeader none = id := rfl
  rw [hid,List.map_id,List.map_id,List.nil_append]
  refine (SendsEach.forEach (g := Prod.fst) fun p _ =>
    sendPacket_sendsEach oob enabled interval _ _ _).congr ?_
  exact List.zipIdx_map_fst 0 _

end SendBySend

section Results

variable {clientHello : Bytes} {r : Parsed} (minorVersion : Byte) (oob oobex enabled : Bool)
  (interval : ℤ)

theorem sendRecords_single_sendsEach {offset length records segments : ℤ} {cut : ℕ}
    (h : 35 ≤ clientHello.length) (hr : records ≤ 1) (hs : 2 ≤ segments)
    (hcut : findLastDotOrMidPos (afterPair oobex (adjust minorVersion clientHello))
      (if oobex then offset-35 else offset) length = .ok cut)
    (hle : cut ≤ (afterPair oobex (adjust minorVersion clientHello)).length) :
    SendsEach (sendRecords clientHello offset length records segments minorVersion oob oobex
      enabled interval) (pairPieces oobex (adjust minorVersion clientHello)++
        (parts ((afterPair oobex (adjust minorVersion clientHello)).take cut) (segments/2)++
          parts ((afterPair oobex (adjust minorVersion clientHello)).drop cut)
            (segments-segments/2))) () := by
  have hone : (if records < 1 then 1 else records) = 1 := by split <;> omega
  have hsegments : (if segments = 0 then 1 else if segments < 0 then -1 else segments) =
      segments := by
    rw [if_neg (by omega),if_neg (by omega)]
  simp only [sendRecords,hone,hsegments]
  rw [if_neg (by omega),if_neg (by omega)]
  refine SendsEach.checked (setMinorVersion_eq minorVersion (by omega)) ?_
  rw [if_pos trivial]
  exact sendSingle_sendsEach oob oobex enabled interval (fun _ => by simpa using h) hs hcut hle

/-- The cut in what the oob_ex pair leaves is inside the name as well. -/
theorem Located.cut_afterPair (h : Located clientHello r)
    (hname : Divisible clientHello r.sniStart.toNat r.sniLen) :
    ∃ cut, findLastDotOrMidPos (afterPair oobex (adjust minorVersion clientHello))
        (if oobex then r.sniStart-35 else r.sniStart) r.sniLen = .ok cut ∧
      cut ≤ (afterPair oobex (adjust minorVersion clientHello)).length ∧
      r.sniStart.toNat < (pairPieces oobex (adjust minorVersion clientHello)).flatten.length+cut ∧
      (pairPieces oobex (adjust minorVersion clientHello)).flatten.length+cut <
        r.sniStart.toNat+r.sniLen := by
  have hb := h.bounds
  have hadjust := hname.adjust (show 5 ≤ r.sniStart.toNat by omega) minorVersion
  have hstart : ((r.sniStart.toNat : ℕ) : ℤ) = r.sniStart := by omega
  cases oobex with
  | false =>
    obtain ⟨cut,hcut,hlo,hhi⟩ := findLastDotOrMidPos_divides (by rw [adjust_length]; omega) hadjust
    rw [hstart] at hcut
    refine ⟨cut,hcut,?_,?_,?_⟩
    · change cut ≤ (adjust minorVersion clientHello).length
      rw [adjust_length]
      omega
    · simpa [pairPieces] using hlo
    · simpa [pairPieces] using hhi
  | true =>
    have hlen : ((adjust minorVersion clientHello).drop 35).length = clientHello.length-35 := by
      rw [List.length_drop,adjust_length]
    have hpair : (pairPieces true (adjust minorVersion clientHello)).flatten.length = 35 := by
      have hall := congrArg List.length
        (pairPieces_flatten true (adjust minorVersion clientHello))
      simp only [List.length_append,afterPair,if_true,hlen,adjust_length] at hall
      omega
    have hrest : r.sniStart.toNat-35+r.sniLen ≤
        ((adjust minorVersion clientHello).drop 35).length := by
      rw [hlen]
      omega
    obtain ⟨cut,hcut,hlo,hhi⟩ := findLastDotOrMidPos_divides hrest
      (hadjust.drop (show 35 ≤ r.sniStart.toNat by omega))
    have hshift : ((r.sniStart.toNat-35 : ℕ) : ℤ) = r.sniStart-35 := by omega
    rw [hshift] at hcut
    rw [hpair]
    refine ⟨cut,hcut,?_,by omega,by omega⟩
    change cut ≤ ((adjust minorVersion clientHello).drop 35).length
    omega

theorem Located.sends_split_name (h : Located clientHello r)
    (hname : Divisible clientHello r.sniStart.toNat r.sniLen) {records segments : ℤ}
    (hr : records ≤ 1) (hs : 2 ≤ segments) :
    ∃ es, Emits (sendRecords clientHello r.sniStart r.sniLen records segments minorVersion oob
        oobex enabled interval) es () ∧ (sends es).flatten = adjust minorVersion clientHello ∧
      ¬ Holds (sends es) 0 r.sniStart.toNat (r.sniStart.toNat+r.sniLen) := by
  have hb := h.bounds
  obtain ⟨cut,hcut,hle,hlo,hhi⟩ := h.cut_afterPair minorVersion oobex hname
  obtain ⟨es,he,hsends⟩ := sendRecords_single_sendsEach minorVersion oob oobex enabled interval
    (show 35 ≤ clientHello.length by omega) hr hs hcut hle
  have hleft := parts_flatten ((afterPair oobex (adjust minorVersion clientHello)).take cut)
    (n := segments/2) (by omega)
  have hright := parts_flatten ((afterPair oobex (adjust minorVersion clientHello)).drop cut)
    (n := segments-segments/2) (by omega)
  refine ⟨es,he,?_⟩
  rw [hsends,← List.append_assoc]
  refine ⟨?_,not_holds_of_cut rfl ?_ ?_⟩
  · rw [List.flatten_append,List.flatten_append,hleft,hright,List.append_assoc,
      List.take_append_drop,pairPieces_flatten]
  · rw [List.flatten_append,hleft,List.length_append,List.length_take,Nat.min_eq_left hle]
    omega
  · rw [List.flatten_append,hleft,List.length_append,List.length_take,Nat.min_eq_left hle]
    omega

theorem Located.records_split_name (h : Located clientHello r)
    (hname : Divisible clientHello r.sniStart.toNat r.sniLen) {records : ℤ} (hr : 2 ≤ records)
    (segments : ℤ) :
    ∃ es, Emits (sendRecords clientHello r.sniStart r.sniLen records segments minorVersion oob
        oobex enabled interval) es () ∧
      (¬ DropsFirst records segments oob oobex → ∃ payloads : List Bytes,
        wire es = (payloads.map (tlsRecord ((adjust minorVersion clientHello).take 3))).flatten ∧
        payloads.flatten = clientHello.drop 5 ∧ (∀ p ∈ payloads, p.length < 65536) ∧
        ¬ Holds payloads 5 r.sniStart.toNat (r.sniStart.toNat+r.sniLen)) := by
  have hb := h.bounds
  have hadjust := hname.adjust (show 5 ≤ r.sniStart.toNat by omega) minorVersion
  obtain ⟨cut,hcut,hlo,hhi⟩ := findLastDotOrMidPos_divides (by rw [adjust_length]; omega) hadjust
  rw [show ((r.sniStart.toNat : ℕ) : ℤ) = r.sniStart by omega] at hcut
  have hcutle : cut ≤ (adjust minorVersion clientHello).length := by
    rw [adjust_length]
    omega
  have hflat : (payloadsAt (adjust minorVersion clientHello) cut records).flatten =
      clientHello.drop 5 := by
    rw [payloadsAt_flatten (by omega) hr,adjust_drop]
  have hc := recordChunks_of_cut hcut (by omega) hcutle hr
  obtain ⟨es,he,hw⟩ := h.sends_chunks minorVersion oob oobex enabled interval hr hflat hc segments
  refine ⟨es,he,fun hall => ⟨_,?_,hflat,?_,?_⟩⟩
  · rw [hw,if_neg hall]
  · intro p hp
    refine length_lt_of_mem_flatten ?_ hp
    rw [hflat,List.length_drop]
    omega
  · have hleft := parts_flatten (((adjust minorVersion clientHello).drop 5).take (cut-5))
      (n := records/2) (by omega)
    have hcutAt : 5+(parts (((adjust minorVersion clientHello).drop 5).take (cut-5))
        (records/2)).flatten.length = cut := by
      rw [hleft,List.length_take,List.length_drop]
      omega
    exact not_holds_of_cut hcutAt hlo hhi

/-- No record and, where there is one record only, no send holds the whole server name. -/
theorem sendRecords_splits_name (h : Located clientHello r)
    (hname : Divisible clientHello r.sniStart.toNat r.sniLen) (records segments : ℤ) :
    ∃ es, Emits (sendRecords clientHello r.sniStart r.sniLen records segments minorVersion oob
        oobex enabled interval) es () ∧
      (2 ≤ records → ¬ DropsFirst records segments oob oobex → ∃ payloads : List Bytes,
        wire es = (payloads.map (tlsRecord ((adjust minorVersion clientHello).take 3))).flatten ∧
        payloads.flatten = clientHello.drop 5 ∧ (∀ p ∈ payloads, p.length < 65536) ∧
        ¬ Holds payloads 5 r.sniStart.toNat (r.sniStart.toNat+r.sniLen)) ∧
      (records ≤ 1 → 2 ≤ segments → (sends es).flatten = adjust minorVersion clientHello ∧
        ¬ Holds (sends es) 0 r.sniStart.toNat (r.sniStart.toNat+r.sniLen)) := by
  by_cases hr : 2 ≤ records
  · obtain ⟨es,he,hsplit⟩ := h.records_split_name minorVersion oob oobex enabled interval hname hr
      segments
    exact ⟨es,he,fun _ => hsplit,fun h₁ => by omega⟩
  · by_cases hs : 2 ≤ segments
    · obtain ⟨es,he,hsplit⟩ := h.sends_split_name minorVersion oob oobex enabled interval hname
        (show records ≤ 1 by omega) hs
      exact ⟨es,he,fun h₂ => absurd h₂ hr,fun _ _ => hsplit⟩
    · obtain ⟨es,payloads,he,-⟩ := h.sends_records minorVersion oob oobex enabled interval records
        segments
      exact ⟨es,he,fun h₂ => absurd h₂ hr,fun _ h₂ => absurd h₂ hs⟩

theorem sendRecords_splits_name_short :
    ∃ es, Emits (sendRecords shortHello 61 3 1 2 ⟨0,false⟩ false true false 0) es () ∧
      (2 ≤ (1 : ℤ) → ¬ DropsFirst 1 2 false true → ∃ payloads : List Bytes,
        wire es = (payloads.map (tlsRecord ((adjust ⟨0,false⟩ shortHello).take 3))).flatten ∧
        payloads.flatten = shortHello.drop 5 ∧ (∀ p ∈ payloads, p.length < 65536) ∧
        ¬ Holds payloads 5 61 64) ∧
      ((1 : ℤ) ≤ 1 → 2 ≤ (2 : ℤ) → (sends es).flatten = adjust ⟨0,false⟩ shortHello ∧
        ¬ Holds (sends es) 0 61 64) :=
  sendRecords_splits_name ⟨0,false⟩ false true false 0 shortHello_located (by decide) 1 2

end Results

end Fragment
end Enimul
