import Enimul.ClientHello
import Enimul.PeerProgram
import Enimul.Policies

/-! Sending a ClientHello in fragments.
`sendRecords` cuts the handshake into TLS records at the server name and the result
into TCP segments, with two out-of-band variants. Its model sends `Event`s to a peer;
`wire` is the in-band byte stream of the events that the peer has accepted. -/
namespace Enimul
namespace Fragment

open GoSlice ClientHello PeerProgram Policies

/-- The three call sites of `sendWithOOB`, by the label of their error. Only the first
send of an oob_ex pair passes a byte of the stream as its urgent byte. -/
inductive OOBSite
  | oob | oob1 | oob2
  deriving DecidableEq, Repr

def OOBSite.label : OOBSite → String
  | .oob => "oob"
  | .oob1 => "oob 1"
  | .oob2 => "oob 2"

/-- What a connection can be asked to do. -/
inductive Event
  | write (data : Bytes)
  | oob (site : OOBSite) (data : Bytes) (urgent : UInt8)
  | waitForAck (enabled : Bool) (delay : ℤ)
  | close
  deriving DecidableEq, Repr

/-- The bytes that an event adds to the stream; filler bytes are not part of it. -/
def Event.inBand : Event → Bytes
  | .write data => data
  | .oob .oob1 data urgent => data++[urgent]
  | .oob _ data _ => data
  | .waitForAck _ _ => []
  | .close => []

def Event.isSend : Event → Bool
  | .write _ => true
  | .oob _ _ _ => true
  | .waitForAck _ _ => false
  | .close => false

def wire (es : List Event) : Bytes := es.flatMap Event.inBand

/-- The stream send by send. -/
def sends (es : List Event) : List Bytes := (es.filter Event.isSend).map Event.inBand

@[simp] theorem wire_nil : wire [] = [] := rfl
@[simp] theorem wire_append (es fs : List Event) : wire (es++fs) = wire es++wire fs := by
  simp [wire]
@[simp] theorem wire_cons (e : Event) (es : List Event) : wire (e::es) = e.inBand++wire es := by
  simp [wire]

@[simp] theorem sends_append (es fs : List Event) : sends (es++fs) = sends es++sends fs := by
  simp [sends]

def write (data : Bytes) : Act Event Unit := perform (.write data)

def sendWithOOB (site : OOBSite) (data : Bytes) (oob : UInt8) : Act Event Unit :=
  withStr site.label (perform (.oob site data oob))

def waitForAck (enabled : Bool) (delay : ℤ) : Act Event Unit :=
  perform (.waitForAck enabled delay)

def findLastDotOrMidPos (data : Bytes) (sniStart sniLen : ℤ) : Checked ℕ :=
  if sniStart < 0 ∨ sniLen ≤ 0 ∨ data.length < sniStart+sniLen then return data.length/2
  else do
    let name ← slice data sniStart.toNat (sniStart.toNat+sniLen.toNat)
    match lastIndexByte name 46 with
    | none => return sniLen.toNat/2+sniStart.toNat
    | some subIdx => return sniStart.toNat+subIdx

def makeRecord (header payload : Bytes) : Bytes :=
  let rec₀ := List.replicate (5+payload.length) (0 : UInt8)
  overwrite (rec₀.take 3) header++(putUint16 payload.length++overwrite (rec₀.drop 5) payload)

/-- A part with its record header, where there is one. -/
def addHeader (header : Option Bytes) (part : Bytes) : Bytes :=
  match header with
  | some h => makeRecord h part
  | none => part

def partAt (data : Bytes) (base n i : ℕ) : Checked Bytes :=
  if i = n-1 then sliceFrom data (i*base) else slice data (i*base) ((i+1)*base)

def splitAndAppend (data : Bytes) (header : Option Bytes) (n : ℤ) (result : List Bytes) :
    Checked (List Bytes) :=
  if n ≤ 0 then return result
  else if n = 1 ∨ data.length < n then return result++[addHeader header data]
  else
    let base := data.length/n.toNat
    (List.range n.toNat).foldlM (fun result i => do
      let part ← partAt data base n.toNat i
      return result++[addHeader header part]) result

section Send

variable (oob oobex waitForAckEnabled : Bool) (interval : ℤ)

/-- The two out-of-band sends that take the first 35 bytes; the rest is returned. -/
def sendOOBPair (data : Bytes) : Act Event Bytes := do
  let head ← fromChecked (sliceTo data 15)
  let urgent ← fromChecked (index data 15)
  sendWithOOB .oob1 head urgent
  let middle ← fromChecked (slice data 16 35)
  sendWithOOB .oob2 middle 0
  waitForAck waitForAckEnabled interval
  fromChecked (sliceFrom data 35)

def sendOOBExPart (data : Bytes) : Act Event Bytes :=
  if oobex then sendOOBPair waitForAckEnabled interval data else pure data

def writePacket (op : String) (i : ℕ) (packet : Bytes) : Act Event Unit :=
  if i = 0 ∧ oob then sendWithOOB .oob packet 0
  else withStr (op ++ toString (i+1)) (write packet)

def sendPacket (op : String) (i : ℕ) (packet : Bytes) : Act Event Unit := do
  writePacket oob op i packet
  waitForAck waitForAckEnabled interval

/-- The handshake as one record, cut into segments at the server name. -/
def sendSingle (clientHello : Bytes) (offset length segments : ℤ) : Act Event Unit := do
  let clientHello ← sendOOBExPart oobex waitForAckEnabled interval clientHello
  let offset := if oobex then offset-35 else offset
  let segments := if segments < 1 then 1 else segments
  if segments = 1 then withStr "send remaining data" (write clientHello) else
  let leftSegments := segments/2
  let rightSegments := segments-leftSegments
  let cut ← fromChecked (findLastDotOrMidPos clientHello offset length)
  let left ← fromChecked (sliceTo clientHello cut)
  let packets ← fromChecked (splitAndAppend left none leftSegments [])
  let right ← fromChecked (sliceFrom clientHello cut)
  let packets ← fromChecked (splitAndAppend right none rightSegments packets)
  forEach (fun p => sendPacket oob waitForAckEnabled interval "write packet " p.2 p.1)
    packets.zipIdx

/-- The records of the handshake, cut at the server name. -/
def recordChunks (clientHello : Bytes) (offset length records : ℤ) : Checked (List Bytes) := do
  let leftChunks := records/2
  let rightChunks := records-leftChunks
  let cut ← findLastDotOrMidPos clientHello offset length
  let header ← sliceTo clientHello 3
  let left ← slice clientHello tlsRecordHeaderLen cut
  let chunks ← splitAndAppend left (some header) leftChunks []
  let right ← sliceFrom clientHello cut
  splitAndAppend right (some header) rightChunks chunks

/-- The send of one record in one write. For the first record there is a send only when
one of the out-of-band variants is on. -/
def writeChunk (i : ℕ) (chunk : Bytes) : Act Event Unit :=
  if i = 0 then
    if oob then sendWithOOB .oob chunk 0
    else if oobex then do
      let l := chunk.length
      let head ← fromChecked (sliceTo chunk (l-1))
      let last ← fromChecked (index chunk (l-1))
      sendWithOOB .oob1 head last
    else pure ()
  else if i = 1 ∧ oobex then sendWithOOB .oob2 chunk 0
  else withStr ("write record " ++ toString (i+1)) (write chunk)

def sendChunk (i : ℕ) (chunk : Bytes) : Act Event Unit := do
  writeChunk oob oobex i chunk
  waitForAck waitForAckEnabled interval

def sendSegment (merged : Bytes) (segments base i : ℕ) : Act Event Unit := do
  let start := i*base
  let stop := if i = segments-1 then merged.length else start+base
  let part ← fromChecked (slice merged start stop)
  sendPacket oob waitForAckEnabled interval "write segment " i part

/-- The records put together and cut into segments of equal size. -/
def sendMerged (chunks : List Bytes) (segments : ℤ) : Act Event Unit := do
  let merged ← sendOOBExPart oobex waitForAckEnabled interval chunks.flatten
  if segments = 1 ∨ merged.length ≤ segments then write merged else
  let base := merged.length/segments.toNat
  forEach (sendSegment oob waitForAckEnabled interval merged segments.toNat base)
    (List.range segments.toNat)

end Send

def setMinorVersion (minorVersion : Byte) (clientHello : Bytes) : Checked Bytes :=
  if minorVersion.isUnset then return clientHello else store clientHello 2 minorVersion.b

/-- Capacities passed to `make` are not modelled: an allocation is taken to succeed. -/
def sendRecords (clientHello : Bytes) (offset length records segments : ℤ)
    (minorVersion : Byte) (oob oobex waitForAckEnabled : Bool) (interval : ℤ) :
    Act Event Unit := do
  let records := if records < 1 then 1 else records
  let segments := if segments = 0 then 1 else if segments < 0 then -1 else segments
  if clientHello.length < 5 then write clientHello else
  if oobex ∧ clientHello.length < 35 then write clientHello else
  let clientHello ← fromChecked (setMinorVersion minorVersion clientHello)
  if records = 1 then
    sendSingle oob oobex waitForAckEnabled interval clientHello offset length segments
  else
  let chunks ← fromChecked (recordChunks clientHello offset length records)
  if segments = -1 then
    forEach (fun c => sendChunk oob oobex waitForAckEnabled interval c.2 c.1) chunks.zipIdx
  else sendMerged oob oobex waitForAckEnabled interval chunks segments

theorem overwrite_of_length {dst src : Bytes} (h : src.length = dst.length) :
    overwrite dst src = src := by
  rw [overwrite,← h,List.take_length,h,List.drop_length,List.append_nil]

/-- A record as the wire format has it: three header bytes, the length, the payload. -/
def tlsRecord (header payload : Bytes) : Bytes := header++(putUint16 payload.length++payload)

theorem makeRecord_eq {header : Bytes} (payload : Bytes) (h : header.length = 3) :
    makeRecord header payload = tlsRecord header payload := by
  simp only [makeRecord,tlsRecord]
  rw [overwrite_of_length (by simp [h]; omega),overwrite_of_length (by simp)]

/-- The parts that `splitAndAppend` cuts for a positive count. -/
def parts (data : Bytes) (n : ℤ) : List Bytes :=
  if n = 1 ∨ data.length < n then [data]
  else evenParts data (data.length/n.toNat) n.toNat

theorem foldlM_append {α β γ : Type} {f : α → Checked β} {g : α → β} (h : β → γ) (as : List α)
    (result : List γ) (hf : ∀ a ∈ as, f a = .ok (g a)) :
    as.foldlM (fun result a => do
      let b ← f a
      return result++[h b]) result = .ok (result++(as.map g).map h) := by
  induction as generalizing result with
  | nil => simp
  | cons a as ih =>
    have ht := ih (result++[h (g a)]) fun b hb => hf b (List.mem_cons_of_mem a hb)
    rw [List.foldlM_cons,hf a List.mem_cons_self,ok_bind]
    exact ht.trans (by simp)

theorem partAt_eq {data : Bytes} {base n i : ℕ} (hl : base*n ≤ data.length) (hi : i < n) :
    partAt data base n i = .ok (window data base n i) := by
  have hw := window_end_le hl hi
  rw [partAt,window]
  split
  · exact sliceFrom_of_le (by omega)
  · rw [Nat.succ_mul,slice_of_le (by omega) hw,Nat.add_sub_cancel_left]

theorem splitAndAppend_eq (data : Bytes) (header : Option Bytes) {n : ℤ} (hn : 0 < n)
    (result : List Bytes) :
    splitAndAppend data header n result =
      .ok (result++(parts data n).map (addHeader header)) := by
  rw [splitAndAppend,parts,if_neg (by omega)]
  split
  · rfl
  · have hl := Nat.div_mul_le_self data.length n.toNat
    exact foldlM_append (addHeader header) _ result fun i hi =>
      partAt_eq hl (List.mem_range.mp hi)

theorem parts_flatten (data : Bytes) {n : ℤ} (hn : 0 < n) : (parts data n).flatten = data := by
  rw [parts]
  split
  · simp
  · exact evenParts_flatten data _ (by omega)

theorem parts_length_le (data : Bytes) {n : ℤ} (hn : 0 < n) : (parts data n).length ≤ n := by
  rw [parts]
  split
  · simp; omega
  · simp; omega

theorem parts_ne_nil {data : Bytes} (hd : data ≠ []) {n : ℤ} (hn : 0 < n) {p : Bytes}
    (hp : p ∈ parts data n) : p ≠ [] := by
  rw [parts] at hp
  split at hp
  · rw [List.mem_singleton] at hp
    rwa [hp]
  · have hl : n.toNat ≤ data.length := by omega
    refine evenParts_ne_nil (Nat.div_pos hl (by omega)) ?_ hp
    exact Nat.div_mul_le_self data.length n.toNat

/-- The cut lies inside the data, and not before a bound that both the name and the
middle of the data respect. -/
theorem findLastDotOrMidPos_returns (data : Bytes) (a n : ℤ) :
    ∃ cut, findLastDotOrMidPos data a n = .ok cut ∧ cut ≤ data.length ∧
      (data ≠ [] → cut < data.length) ∧
      (∀ k : ℕ, 2*k ≤ data.length → k ≤ a → k ≤ cut) := by
  rw [findLastDotOrMidPos]
  split
  · refine ⟨_,rfl,by omega,fun hd => ?_,fun k hk _ => by omega⟩
    have := List.length_pos_of_ne_nil hd
    omega
  rw [slice_of_le (by omega) (by omega),ok_bind]
  split
  · exact ⟨_,rfl,by omega,fun _ => by omega,fun k _ hk => by omega⟩
  · rename_i subIdx hsub
    have hlt := lastIndexByte_lt hsub
    simp only [List.length_take] at hlt
    exact ⟨_,rfl,by omega,fun _ => by omega,fun k _ hk => by omega⟩

theorem wire_eq_flatten_sends (es : List Event) : wire es = (sends es).flatten := by
  induction es with
  | nil => rfl
  | cons e es ih =>
    rw [wire_cons,ih]
    cases e <;> rfl

/-- The action sends these bytes in band and returns `a`. -/
def Sends {α : Type} (m : Act Event α) (data : Bytes) (a : α) : Prop :=
  ∃ es, Emits m es a ∧ wire es = data

namespace Sends

variable {α β : Type} {m : Act Event α} {d₁ d₂ : Bytes} {a : α} {b : β}

theorem pure (a : α) : Sends (pure a) [] a := ⟨[],Emits.pure a,rfl⟩

theorem fromChecked {c : Checked α} (h : c = .ok a) : Sends (fromChecked c) [] a :=
  ⟨[],Emits.fromChecked h,rfl⟩

theorem write (data : Bytes) : Sends (write data) data () :=
  ⟨_,Emits.perform _,by simp [Event.inBand]⟩

theorem waitForAck (enabled : Bool) (delay : ℤ) : Sends (waitForAck enabled delay) [] () :=
  ⟨_,Emits.perform _,by simp [Event.inBand]⟩

theorem sendWithOOB (site : OOBSite) (data : Bytes) (oob : UInt8) :
    Sends (sendWithOOB site data oob) (Event.oob site data oob).inBand () :=
  ⟨_,Emits.withStr _ (Emits.perform _),by simp⟩

theorem withStr (op : String) (h : Sends m d₁ a) : Sends (withStr op m) d₁ a := by
  obtain ⟨es,he,hw⟩ := h
  exact ⟨es,Emits.withStr op he,hw⟩

theorem bind {f : α → Act Event β} (hm : Sends m d₁ a) (hf : Sends (f a) d₂ b) :
    Sends (m >>= f) (d₁++d₂) b := by
  obtain ⟨es,he,rfl⟩ := hm
  obtain ⟨fs,hf,rfl⟩ := hf
  exact ⟨es++fs,Emits.bind he hf,wire_append es fs⟩

/-- A checked access before an action adds nothing to the stream. -/
theorem checked {c : Checked α} {f : α → Act Event β} (hc : c = .ok a) (hf : Sends (f a) d₁ b) :
    Sends (PeerProgram.fromChecked c >>= f) d₁ b := bind (fromChecked hc) hf

theorem forEach {f : α → Act Event Unit} {g : α → Bytes} {as : List α}
    (h : ∀ a ∈ as, Sends (f a) (g a) ()) : Sends (forEach f as) (as.flatMap g) () := by
  induction as with
  | nil => exact Sends.pure ()
  | cons a as ih =>
    exact bind (h a List.mem_cons_self) (ih fun b hb => h b (List.mem_cons_of_mem a hb))

theorem congr (h : Sends m d₁ a) (hd : d₁ = d₂) : Sends m d₂ a := hd ▸ h

end Sends

section Stream

variable (oob oobex enabled : Bool) (interval : ℤ)

theorem sendOOBPair_sends {data : Bytes} (h : 35 ≤ data.length) :
    Sends (sendOOBPair enabled interval data) (data.take 35) (data.drop 35) := by
  have hstream : data.take 15++[data[15]]++((data.drop 16).take 19++([]++[])) = data.take 35 := by
    rw [List.take_append_getElem,List.append_nil,List.append_nil,← List.take_add]
  refine Sends.congr ?_ hstream
  refine Sends.checked (sliceTo_of_le (by omega)) (Sends.checked (index_of_lt (by omega)) ?_)
  refine Sends.bind (Sends.sendWithOOB _ _ _) ?_
  refine Sends.checked (slice_of_le (by omega) h) (Sends.bind (Sends.sendWithOOB _ _ _) ?_)
  exact Sends.bind (Sends.waitForAck _ _) (Sends.fromChecked (sliceFrom_of_le h))

/-- What the oob_ex pair leaves for the sends after it. -/
def afterPair (data : Bytes) : Bytes := if oobex then data.drop 35 else data

theorem sendOOBExPart_sends {data : Bytes} (h : oobex → 35 ≤ data.length) :
    ∃ d, Sends (sendOOBExPart oobex enabled interval data) d (afterPair oobex data) ∧
      d++afterPair oobex data = data := by
  cases oobex with
  | true => exact ⟨_,sendOOBPair_sends enabled interval (h rfl),List.take_append_drop 35 data⟩
  | false => exact ⟨[],Sends.pure data,rfl⟩

theorem sendPacket_sends (op : String) (i : ℕ) (packet : Bytes) :
    Sends (sendPacket oob enabled interval op i packet) packet () := by
  have hw : Sends (writePacket oob op i packet) packet () := by
    rw [writePacket]
    split
    · exact Sends.sendWithOOB .oob packet 0
    · exact Sends.withStr _ (Sends.write packet)
  exact (Sends.bind hw (Sends.waitForAck enabled interval)).congr (List.append_nil packet)

theorem sendSingle_sends {clientHello : Bytes} (offset length segments : ℤ)
    (h : oobex → 35 ≤ clientHello.length) :
    Sends (sendSingle oob oobex enabled interval clientHello offset length segments)
      clientHello () := by
  obtain ⟨d,hd,hall⟩ := sendOOBExPart_sends oobex enabled interval h
  refine (Sends.bind hd ?_).congr hall
  have hpos : 1 ≤ if segments < 1 then 1 else segments := by split <;> omega
  generalize (if segments < 1 then 1 else segments) = n at hpos ⊢
  dsimp only
  split
  · exact Sends.withStr _ (Sends.write _)
  obtain ⟨cut,hcut,hle,-⟩ := findLastDotOrMidPos_returns (afterPair oobex clientHello)
    (if oobex then offset-35 else offset) length
  refine Sends.checked hcut ?_
  refine Sends.checked (sliceTo_of_le hle) ?_
  refine Sends.checked (splitAndAppend_eq _ none (by omega) []) ?_
  refine Sends.checked (sliceFrom_of_le hle) ?_
  refine Sends.checked (splitAndAppend_eq _ none (by omega) _) ?_
  refine (Sends.forEach (g := Prod.fst) fun p _ => sendPacket_sends oob enabled interval _ _ _).congr ?_
  rw [List.flatMap_def,List.zipIdx_map_fst]
  have hid : addHeader none = id := rfl
  rw [hid,List.map_id,List.map_id,List.nil_append,List.flatten_append,
    parts_flatten _ (by omega),parts_flatten _ (by omega),List.take_append_drop]

theorem sendSegment_sends {merged : Bytes} {segments base i : ℕ}
    (hl : base*segments ≤ merged.length) (hi : i < segments) :
    Sends (sendSegment oob enabled interval merged segments base i)
      (window merged base segments i) () := by
  have hend := window_end_le hl hi
  have hslice : slice merged (i*base) (if i = segments-1 then merged.length else i*base+base) =
      .ok (window merged base segments i) := by
    rw [window]
    split
    · exact sliceFrom_of_le (by omega)
    · rw [slice_of_le (by omega) hend,Nat.add_sub_cancel_left]
  exact Sends.checked hslice (sendPacket_sends oob enabled interval _ i _)

theorem sendMerged_sends {chunks : List Bytes} {segments : ℤ} (hs : 1 ≤ segments)
    (h : oobex → 35 ≤ chunks.flatten.length) :
    Sends (sendMerged oob oobex enabled interval chunks segments) chunks.flatten () := by
  obtain ⟨d,hd,hall⟩ := sendOOBExPart_sends oobex enabled interval h
  refine (Sends.bind hd ?_).congr hall
  split
  · exact Sends.write _
  have hl := Nat.div_mul_le_self (afterPair oobex chunks.flatten).length segments.toNat
  refine (Sends.forEach fun i hi =>
    sendSegment_sends oob enabled interval hl (List.mem_range.mp hi)).congr ?_
  exact evenParts_flatten _ _ (by omega)

theorem getLastD_of_ne_nil {chunk : Bytes} (h : chunk ≠ []) :
    chunk.getLastD 0 = chunk.getLast h := by
  cases chunk with
  | nil => exact absurd rfl h
  | cons b bs => rw [List.getLastD_cons,List.getLast_eq_getLastD]

/-- The events of one round of the loop over the records. -/
def chunkEvents (i : ℕ) (chunk : Bytes) : List Event :=
  (if i = 0 then
    if oob then [.oob .oob chunk 0]
    else if oobex then [.oob .oob1 chunk.dropLast (chunk.getLastD 0)]
    else []
  else if i = 1 ∧ oobex then [.oob .oob2 chunk 0]
  else [.write chunk])++[.waitForAck enabled interval]

theorem sendChunk_emits {i : ℕ} {chunk : Bytes} (h : chunk ≠ []) :
    Emits (sendChunk oob oobex enabled interval i chunk)
      (chunkEvents oob oobex enabled interval i chunk) () := by
  refine Emits.bind (a := ()) ?_ (Emits.perform _)
  have hpos := List.length_pos_of_ne_nil h
  rw [writeChunk]
  split
  · split
    · exact Emits.withStr _ (Emits.perform _)
    split
    · have hhead := sliceTo_of_le (show chunk.length-1 ≤ chunk.length by omega)
      have hlast : index chunk (chunk.length-1) = .ok (chunk.getLastD 0) := by
        rw [index_of_lt (by omega),← List.getLast_eq_getElem h,getLastD_of_ne_nil h]
      rw [← List.dropLast_eq_take] at hhead
      exact Emits.checked hhead (Emits.checked hlast (Emits.withStr _ (Emits.perform _)))
    · exact Emits.pure ()
  split
  · exact Emits.withStr _ (Emits.perform _)
  · exact Emits.withStr _ (Emits.perform _)

theorem sends_chunkEvents {i : ℕ} {chunk : Bytes} (h : chunk ≠ [])
    (hs : i ≠ 0 ∨ oob ∨ oobex) :
    sends (chunkEvents oob oobex enabled interval i chunk) = [chunk] := by
  have hlast : chunk.dropLast++[chunk.getLastD 0] = chunk := by
    rw [getLastD_of_ne_nil h,List.dropLast_append_getLast]
  rw [chunkEvents]
  split
  · rename_i hi
    split
    · rfl
    split
    · exact congrArg (fun c => [c]) hlast
    · simp_all
  · split <;> rfl

theorem sends_chunkLoop {chunks : List Bytes} (hne : ∀ c ∈ chunks, c ≠ []) (i : ℕ)
    (hs : i ≠ 0 ∨ oob ∨ oobex) :
    sends ((chunks.zipIdx i).flatMap fun c => chunkEvents oob oobex enabled interval c.2 c.1) =
      chunks := by
  induction chunks generalizing i with
  | nil => rfl
  | cons c cs ih =>
    have hc := hne c List.mem_cons_self
    have ht := ih (fun d hd => hne d (List.mem_cons_of_mem c hd)) (i+1) (.inl (by omega))
    rw [List.zipIdx_cons,List.flatMap_cons,sends_append,ht,
      sends_chunkEvents oob oobex enabled interval hc hs]
    rfl

/-- With both variants off the round of the first record sends nothing. -/
theorem sends_chunkLoop_first {c : Bytes} {cs : List Bytes} (hne : ∀ d ∈ cs, d ≠ []) :
    sends ((c::cs).zipIdx.flatMap fun c => chunkEvents false false enabled interval c.2 c.1) =
      cs := by
  rw [List.zipIdx_cons,List.flatMap_cons,sends_append,
    sends_chunkLoop false false enabled interval hne 1 (.inl (by omega))]
  rfl

end Stream

end Fragment
end Enimul
