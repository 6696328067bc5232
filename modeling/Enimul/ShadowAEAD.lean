import Enimul.GoSlice
import Mathlib.Algebra.Order.Group.Nat
import Mathlib.Algebra.Ring.Nat
import Mathlib.Data.List.Nodup
import Mathlib.Logic.Function.Iterate

/-! The encrypted stream of a Shadowsocks connection.
A write is cut into records: the sealed length of a chunk, then the sealed chunk. Both ends count
the seals with a nonce of their own, so that a record is opened with the nonce that it was sealed
with. The reader gives a record out in as many pieces as its caller asks for. -/
namespace Enimul
namespace ShadowAEAD

open GoSlice

/-- `cipher.AEAD` with `Seal` and `Open`, of which only this is used: a text grows by the
overhead, and is opened with the nonce that it was sealed with. -/
structure AEAD where
  nonceSize : ℕ
  overhead : ℕ
  encrypt : Bytes → Bytes → Bytes
  decrypt : Bytes → Bytes → Option Bytes
  encrypt_length : ∀ nonce p, (encrypt nonce p).length = p.length+overhead
  decrypt_encrypt : ∀ nonce p, decrypt nonce (encrypt nonce p) = some p

def payloadSizeMask : ℕ := 0x3FFF

/-- The next number in little-endian order, and zero after the last. -/
def increment : Bytes → Bytes
  | [] => []
  | b::bs => if b+1 ≠ 0 then (b+1)::bs else 0::increment bs

/-- The nonce of the next seal and, beside it, those of all seals before. -/
structure Writer where
  nonce : Bytes
  used : List Bytes := []

inductive ReadError
  | eof
  | unexpectedEOF
  | auth
  | zeroChunk
  deriving DecidableEq, Repr

/-- The error of an `io.ReadFull` of more than there is. -/
def shortRead (input : Bytes) : ReadError := if input = [] then .eof else .unexpectedEOF

/-- `WriteTo` does not report the end of the stream. -/
def ReadError.reported (e : ReadError) : Option ReadError := if e = .eof then none else some e

/-- What is still to be read from the connection, the nonce of the next record, and what has
been opened and not given out, none for nil. -/
structure Reader where
  input : Bytes
  nonce : Bytes
  buf : Option Bytes := none

/-- A call of the writing side: `Write` of a text, or `ReadFrom` of a source whose reads give `ps`
and in the end `last` together with EOF. -/
inductive Call
  | write (p : Bytes)
  | readFrom (ps : List Bytes) (last : Bytes)

def Call.data : Call → Bytes
  | .write p => p
  | .readFrom ps last => ps.flatten++last

section Stream

variable (a : AEAD)

def newWriter : Writer := {nonce := List.replicate a.nonceSize 0}

def newReader (input : Bytes) : Reader := {input, nonce := List.replicate a.nonceSize 0}

def Writer.sealNext (w : Writer) (p : Bytes) : Bytes × Writer :=
  (a.encrypt w.nonce p,⟨increment w.nonce,w.used++[w.nonce]⟩)

def Writer.record (w : Writer) (p : Bytes) : Bytes × Writer :=
  let (size,w) := w.sealNext a (putUint16 p.length)
  let (payload,w) := w.sealNext a p
  (size++payload,w)

/-- The loop of `Write`, with what it writes to the connection. -/
def Writer.writeLoop (w : Writer) (p : Bytes) : Bytes × Writer :=
  if p = [] then ([],w)
  else
    let (out,w) := w.record a (p.take payloadSizeMask)
    let (more,w) := w.writeLoop (p.drop payloadSizeMask)
    (out++more,w)
termination_by p.length
decreasing_by
  rename_i hne
  have hpos := List.length_pos_of_ne_nil hne
  rw [List.length_drop,payloadSizeMask]
  omega

/-- An empty write is only a length. -/
def Writer.write (w : Writer) (p : Bytes) : Bytes × Writer :=
  if p = [] then w.sealNext a (putUint16 0) else w.writeLoop a p

/-- Every read makes a record, also an empty one at the end of the source. -/
def Writer.readFrom (w : Writer) : List Bytes → Bytes → Bytes × Writer
  | [],last => w.record a last
  | p::ps,last =>
    let (out,w) := w.record a p
    let (more,w) := w.readFrom ps last
    (out++more,w)

def Writer.call (w : Writer) : Call → Bytes × Writer
  | .write p => w.write a p
  | .readFrom ps last => w.readFrom a ps last

def Writer.calls (w : Writer) : List Call → Bytes × Writer
  | [] => ([],w)
  | call::calls =>
    let (out,w) := w.call a call
    let (more,w) := w.calls calls
    (out++more,w)

/-- Read and open `n` bytes. The nonce goes on also if they are not authentic. -/
def Reader.unsealNext (r : Reader) (n : ℕ) : Except ReadError Bytes × Reader :=
  if r.input.length < n then (.error (shortRead r.input),{r with input := []})
  else
    let r' := {r with input := r.input.drop n, nonce := increment r.nonce}
    match a.decrypt r.nonce (r.input.take n) with
    | none => (.error .auth,r')
    | some p => (.ok p,r')

/-- `Reader.read`: a record. After a length of zero nothing more of it is read. -/
def Reader.record (r : Reader) : Except ReadError Bytes × Reader :=
  match r.unsealNext a (2+a.overhead) with
  | (.error err,r) => (.error err,r)
  | (.ok p,r) =>
    let size := ((p.getD 0 0).toNat*256+(p.getD 1 0).toNat)%(payloadSizeMask+1)
    if size = 0 then (.error .zeroChunk,r) else r.unsealNext a (size+a.overhead)

/-- Give out as much of `b` as there is room for. -/
def Reader.copy (r : Reader) (b : Bytes) (k : ℕ) : Except ReadError Bytes × Reader :=
  (.ok (b.take k),{r with buf := if b.length ≤ k then none else some (b.drop k)})

/-- `Reader.Read` with room for `k` bytes. -/
def Reader.read (r : Reader) (k : ℕ) : Except ReadError Bytes × Reader :=
  match r.buf with
  | some b => r.copy b k
  | none =>
    if payloadSizeMask+a.overhead ≤ k then r.record a
    else match r.record a with
      | (.error err,r) => (.error err,r)
      | (.ok b,r) => r.copy b k

variable {a}

theorem unsealNext_shorter {r r' : Reader} {n : ℕ} {p : Bytes} (hn : 0 < n)
    (h : r.unsealNext a n = (.ok p,r')) : r'.input.length < r.input.length := by
  unfold Reader.unsealNext at h
  split at h
  · cases h
  · simp only at h
    split at h
    · cases h
    · cases h
      simp only [List.length_drop]
      omega

theorem record_shorter {r r' : Reader} {b : Bytes} (h : r.record a = (.ok b,r')) :
    r'.input.length < r.input.length := by
  unfold Reader.record at h
  split at h
  · cases h
  · rename_i hsize
    have hshorter := unsealNext_shorter (by omega) hsize
    simp only at h
    split at h
    · cases h
    · exact (unsealNext_shorter (by omega) h).trans hshorter

variable (a)

/-- `Reader.WriteTo` a writer that takes everything: what was buffered, then record after record.
It keeps its buffer, used up. -/
def Reader.writeTo (r : Reader) : (Bytes × Option ReadError) × Reader :=
  match _hrecord : Reader.record a {r with buf := some []} with
  | (.error err,r') => ((r.buf.getD [],err.reported),r')
  | (.ok b,r') =>
    let ((out,err),r'') := Reader.writeTo {r' with buf := some b}
    ((r.buf.getD []++out,err),r'')
termination_by r.input.length
decreasing_by
  have hshorter := record_shorter _hrecord
  exact hshorter

end Stream

/-- A cipher makes the AEAD of a direction from its salt. -/
structure Cipher where
  saltSize : ℕ
  aead : Bytes → AEAD

/-- The reading side of a connection, before and after its salt has been read. -/
inductive Conn
  | fresh (input : Bytes)
  | opened (salt : Bytes) (r : Reader)

section Conn

variable (c : Cipher)

/-- What the calls of the writing side send: before the first of them, `initWriter` sends the
salt. -/
def sent (salt : Bytes) : List Call → Bytes
  | [] => []
  | call::calls => salt++((newWriter (c.aead salt)).calls (c.aead salt) (call::calls)).1

/-- Use the reader, after `initReader` if there is none. -/
def Conn.withReader {α : Type} (fail : ReadError → α) (f : AEAD → Reader → α × Reader) :
    Conn → α × Conn
  | .fresh input =>
    if input.length < c.saltSize then (fail (shortRead input),.fresh [])
    else
      let salt := input.take c.saltSize
      let (x,r) := f (c.aead salt) (newReader (c.aead salt) (input.drop c.saltSize))
      (x,.opened salt r)
  | .opened salt r =>
    let (x,r) := f (c.aead salt) r
    (x,.opened salt r)

def Conn.read (conn : Conn) (k : ℕ) : Except ReadError Bytes × Conn :=
  conn.withReader c .error fun a r => r.read a k

def Conn.writeTo (conn : Conn) : (Bytes × Option ReadError) × Conn :=
  conn.withReader c (fun err => ([],some err)) fun a r => r.writeTo a

/-- Reads with room for `ks`, up to the first that fails. -/
def Conn.reads (conn : Conn) : List ℕ → List Bytes × Option ReadError × Conn
  | [] => ([],none,conn)
  | k::ks =>
    match conn.read c k with
    | (.error err,conn) => ([],some err,conn)
    | (.ok b,conn) =>
      let (bs,err,conn) := conn.reads ks
      (b::bs,err,conn)

end Conn

/-- A chunk has a length that can be said in a record. -/
def IsChunk (p : Bytes) : Prop := p ≠ [] ∧ p.length ≤ payloadSizeMask

instance (p : Bytes) : Decidable (IsChunk p) := inferInstanceAs (Decidable (_ ∧ _))

/-- The call sends no empty record. -/
def Call.Full : Call → Prop
  | .write p => p ≠ []
  | .readFrom ps last => ∀ p ∈ ps++[last], IsChunk p

section Writing

variable {a : AEAD}

/-- The records of chunks, from a nonce on. -/
def recordsOf (a : AEAD) (nonce : Bytes) : List Bytes → Bytes
  | [] => []
  | c::cs => a.encrypt nonce (putUint16 c.length)++a.encrypt (increment nonce) c++
      recordsOf a (increment (increment nonce)) cs

theorem recordsOf_append (nonce : Bytes) (cs ds : List Bytes) :
    recordsOf a nonce (cs++ds) =
      recordsOf a nonce cs++recordsOf a (increment^[2*cs.length] nonce) ds := by
  induction cs generalizing nonce with
  | nil => rfl
  | cons c cs ih =>
    rw [List.cons_append,recordsOf,ih,recordsOf,List.append_assoc _ _ (recordsOf a _ ds)]
    rfl

/-- The writer has sent `d` in records of chunks. -/
def Wrote (a : AEAD) (w : Writer) (d : Bytes) (out : Bytes × Writer) : Prop :=
  ∃ cs, (∀ c ∈ cs, IsChunk c) ∧ cs.flatten = d ∧ out.1 = recordsOf a w.nonce cs ∧
    out.2.nonce = increment^[2*cs.length] w.nonce

theorem Wrote.nothing (w : Writer) : Wrote a w [] ([],w) := ⟨[],by simp,rfl,rfl,rfl⟩

theorem Wrote.append {w : Writer} {d e : Bytes} {out more : Bytes × Writer}
    (hout : Wrote a w d out) (hmore : Wrote a out.2 e more) :
    Wrote a w (d++e) (out.1++more.1,more.2) := by
  obtain ⟨cs,hcs,hd,hrecords,hnonce⟩ := hout
  obtain ⟨ds,hds,he,hrecords',hnonce'⟩ := hmore
  refine ⟨cs++ds,fun c hc => (List.mem_append.mp hc).elim (hcs c) (hds c),?_,?_,?_⟩
  · rw [List.flatten_append,hd,he]
  · rw [recordsOf_append,hrecords,hrecords',hnonce]
  · rw [hnonce',hnonce,← Function.iterate_add_apply,List.length_append]
    congr 2
    omega

theorem wrote_record (w : Writer) {p : Bytes} (hp : IsChunk p) : Wrote a w p (w.record a p) :=
  ⟨[p],by simpa using hp,by simp,by simp [Writer.record,Writer.sealNext,recordsOf],rfl⟩

theorem isChunk_take {p : Bytes} (hp : p ≠ []) : IsChunk (p.take payloadSizeMask) := by
  have hpos := List.length_pos_of_ne_nil hp
  refine ⟨List.ne_nil_of_length_pos ?_,List.length_take_le _ _⟩
  rw [List.length_take,payloadSizeMask]
  omega

theorem wrote_writeLoop (w : Writer) (p : Bytes) : Wrote a w p (w.writeLoop a p) := by
  fun_induction Writer.writeLoop a w p with
  | case1 w => exact Wrote.nothing w
  | case2 w p hne out w' hrecord more w'' hloop ih =>
    have hout := wrote_record (a := a) w (isChunk_take hne)
    rw [hrecord] at hout
    rw [hloop] at ih
    have happend := hout.append ih
    rwa [List.take_append_drop] at happend

theorem wrote_readFrom (w : Writer) {ps : List Bytes} {last : Bytes}
    (h : ∀ p ∈ ps++[last], IsChunk p) : Wrote a w (ps.flatten++last) (w.readFrom a ps last) := by
  induction ps generalizing w with
  | nil => exact wrote_record w (h last (by simp))
  | cons p ps ih =>
    rw [List.flatten_cons,List.append_assoc]
    exact (wrote_record w (h p (by simp))).append
      (ih _ fun q hq => h q (List.mem_cons_of_mem p hq))

theorem readFrom_nil (w : Writer) {ps : List Bytes} (hps : ∀ p ∈ ps, IsChunk p) :
    ∃ out, Wrote a w ps.flatten out ∧
      (w.readFrom a ps []).1 = out.1++(out.2.record a []).1 := by
  induction ps generalizing w with
  | nil => exact ⟨_,Wrote.nothing w,rfl⟩
  | cons p ps ih =>
    obtain ⟨out,hout,hzero⟩ := ih (w.record a p).2 fun q hq => hps q (List.mem_cons_of_mem p hq)
    refine ⟨_,(wrote_record w (hps p List.mem_cons_self)).append hout,?_⟩
    simp only [Writer.readFrom]
    rw [hzero,List.append_assoc]

theorem wrote_call (w : Writer) {call : Call} (h : call.Full) :
    Wrote a w call.data (w.call a call) := by
  cases call with
  | write p =>
    have hwrite : w.call a (.write p) = w.writeLoop a p := if_neg h
    rw [hwrite]
    exact wrote_writeLoop w p
  | readFrom ps last => exact wrote_readFrom w h

theorem wrote_calls (w : Writer) {calls : List Call} (h : ∀ call ∈ calls, call.Full) :
    Wrote a w (calls.flatMap Call.data) (w.calls a calls) := by
  induction calls generalizing w with
  | nil => exact Wrote.nothing w
  | cons call calls ih =>
    rw [List.flatMap_cons]
    exact (wrote_call w (h call List.mem_cons_self)).append
      (ih _ fun call hcall => h call (List.mem_cons_of_mem _ hcall))

theorem calls_append_fst (w : Writer) (calls more : List Call) :
    (w.calls a (calls++more)).1 = (w.calls a calls).1++((w.calls a calls).2.calls a more).1 := by
  induction calls generalizing w with
  | nil => rfl
  | cons call calls ih =>
    simp only [List.cons_append,Writer.calls]
    rw [ih,List.append_assoc]

end Writing

section Reading

variable {a : AEAD} {e : ReadError}

theorem unsealNext_encrypt {r : Reader} {p rest : Bytes} {n : ℕ}
    (hinput : r.input = a.encrypt r.nonce p++rest) (hn : n = p.length+a.overhead) :
    r.unsealNext a n = (.ok p,{r with input := rest, nonce := increment r.nonce}) := by
  have hlen : (a.encrypt r.nonce p).length = n := (a.encrypt_length r.nonce p).trans hn.symm
  have hlong : ¬ r.input.length < n := by
    rw [hinput,List.length_append,hlen]
    omega
  rw [Reader.unsealNext,if_neg hlong]
  simp only [hinput,List.take_left' hlen,List.drop_left' hlen,a.decrypt_encrypt]

theorem size_putUint16 {n : ℕ} (hn : n ≤ payloadSizeMask) :
    (((putUint16 n).getD 0 0).toNat*256+((putUint16 n).getD 1 0).toNat)%(payloadSizeMask+1) =
      n := by
  simp only [putUint16,List.getD_cons_zero,List.getD_cons_succ,UInt8.toNat_ofNat',
    payloadSizeMask] at hn ⊢
  omega

theorem record_of_records {r : Reader} {p tail : Bytes} {cs : List Bytes} (hp : IsChunk p)
    (hinput : r.input = recordsOf a r.nonce (p::cs)++tail) :
    r.record a = (.ok p,{r with
      input := recordsOf a (increment (increment r.nonce)) cs++tail
      nonce := increment (increment r.nonce)}) := by
  have hpos := List.length_pos_of_ne_nil hp.1
  rw [recordsOf,List.append_assoc,List.append_assoc] at hinput
  have hsize := unsealNext_encrypt (a := a) hinput (n := 2+a.overhead) rfl
  simp only [Reader.record,hsize,size_putUint16 hp.2]
  rw [if_neg (by omega)]
  exact unsealNext_encrypt rfl rfl

/-- There is no record at this place, and the reader says so with `e`. -/
def Fails (a : AEAD) (e : ReadError) (tail nonce : Bytes) : Prop :=
  ∀ buf, ((⟨tail,nonce,buf⟩ : Reader).record a).1 = .error e

theorem Fails.record {tail nonce : Bytes} (h : Fails a e tail nonce) (buf : Option Bytes) :
    ∃ r', (⟨tail,nonce,buf⟩ : Reader).record a = (.error e,r') := by
  exact ⟨_,Prod.ext (h buf) rfl⟩

theorem fails_nil (nonce : Bytes) : Fails a .eof [] nonce := by
  intro buf
  simp [Reader.record,Reader.unsealNext,shortRead]

/-- The record of an empty read is not taken for the end of the stream. -/
theorem fails_record_nil (w : Writer) (tail : Bytes) :
    Fails a .zeroChunk ((w.record a []).1++tail) w.nonce := by
  intro buf
  have hinput : (w.record a []).1++tail =
      a.encrypt w.nonce (putUint16 0)++(a.encrypt (increment w.nonce) []++tail) := by
    simp [Writer.record,Writer.sealNext]
  have hsize := unsealNext_encrypt (a := a) (r := ⟨_,w.nonce,buf⟩) hinput
    (n := 2+a.overhead) rfl
  simp only [Reader.record,hsize,size_putUint16 (Nat.zero_le _)]
  rfl

/-- The reader has `d` still to give out, the rest of a record and the records to come, and will
then fail with `e`. -/
def Owes (a : AEAD) (e : ReadError) (r : Reader) (d : Bytes) : Prop :=
  ∃ cs tail, (∀ c ∈ cs, IsChunk c) ∧ r.input = recordsOf a r.nonce cs++tail ∧
    Fails a e tail (increment^[2*cs.length] r.nonce) ∧ d = r.buf.getD []++cs.flatten

theorem copy_owes {r : Reader} {b d : Bytes} {k : ℕ} (hk : 0 < k) (hb : b ≠ [])
    (h : Owes a e {r with buf := some b} d) :
    ∃ g r' d', r.copy b k = (.ok g,r') ∧ g ≠ [] ∧ d = g++d' ∧ r'.buf ≠ some [] ∧
      Owes a e r' d' := by
  obtain ⟨cs,tail,hcs,hinput,hfails,rfl⟩ := h
  have hpos := List.length_pos_of_ne_nil hb
  refine ⟨b.take k,_,b.drop k++cs.flatten,rfl,?_,?_,?_,cs,tail,hcs,hinput,hfails,?_⟩
  · exact List.ne_nil_of_length_pos (by rw [List.length_take]; omega)
  · rw [← List.append_assoc,List.take_append_drop,Option.getD_some]
  · simp only
    split
    · simp
    · simp only [ne_eq,Option.some.injEq]
      exact List.ne_nil_of_length_pos (by rw [List.length_drop]; omega)
  · simp only
    split
    · rename_i hshort
      rw [List.drop_of_length_le hshort]
      rfl
    · rfl

/-- A read with room for a byte gives out at least one, as long as there are any. -/
theorem read_owes {r : Reader} {d : Bytes} {k : ℕ} (hk : 0 < k) (hbuf : r.buf ≠ some [])
    (h : Owes a e r d) (hd : d ≠ []) :
    ∃ g r' d', r.read a k = (.ok g,r') ∧ g ≠ [] ∧ d = g++d' ∧ r'.buf ≠ some [] ∧
      Owes a e r' d' := by
  obtain ⟨input,nonce,buf⟩ := r
  cases buf with
  | some b => exact copy_owes hk (fun heq => hbuf (by rw [heq])) h
  | none =>
    obtain ⟨cs,tail,hcs,hinput,hfails,rfl⟩ := h
    cases cs with
    | nil => exact absurd rfl hd
    | cons p cs =>
      have hp := hcs p List.mem_cons_self
      have howes : Owes a e ⟨recordsOf a (increment (increment nonce)) cs++tail,
          increment (increment nonce),some p⟩ (p++cs.flatten) :=
        ⟨cs,tail,fun c hc => hcs c (List.mem_cons_of_mem p hc),rfl,hfails,rfl⟩
      simp only [Reader.read,record_of_records hp hinput]
      split
      · obtain ⟨cs',tail',hcs',hinput',hfails',heq⟩ := howes
        exact ⟨p,_,cs.flatten,rfl,hp.1,by simp,by simp,cs',tail',hcs',hinput',hfails',
          List.append_cancel_left heq⟩
      · exact copy_owes hk hp.1 howes

theorem read_owes_nil {r : Reader} {k : ℕ} (hbuf : r.buf ≠ some []) (h : Owes a e r []) :
    ∃ r', r.read a k = (.error e,r') := by
  obtain ⟨input,nonce,buf⟩ := r
  obtain ⟨cs,tail,hcs,hinput,hfails,hd⟩ := h
  obtain ⟨hrest,hflat⟩ := List.append_eq_nil_iff.mp hd.symm
  cases buf with
  | some b => exact absurd (congrArg some hrest) hbuf
  | none =>
    cases cs with
    | cons p cs => exact absurd (List.append_eq_nil_iff.mp hflat).1 (hcs p List.mem_cons_self).1
    | nil =>
      have htail : input = tail := hinput
      obtain ⟨r',hrecord⟩ := hfails.record none
      refine ⟨r',?_⟩
      simp only [Reader.read,htail]
      split
      · exact hrecord
      · rw [show (⟨tail,nonce,none⟩ : Reader).record a = _ from hrecord]

theorem writeTo_error {r r' : Reader}
    (h : Reader.record a {r with buf := some []} = (.error e,r')) :
    r.writeTo a = ((r.buf.getD [],e.reported),r') := by
  rw [Reader.writeTo]
  split
  · rename_i hrecord
    cases h.symm.trans hrecord
    rfl
  · rename_i hrecord
    cases h.symm.trans hrecord

theorem writeTo_ok {r r' : Reader} {b : Bytes}
    (h : Reader.record a {r with buf := some []} = (.ok b,r')) :
    (r.writeTo a).1 = (r.buf.getD []++(Reader.writeTo a {r' with buf := some b}).1.1,
      (Reader.writeTo a {r' with buf := some b}).1.2) := by
  rw [Reader.writeTo]
  split
  · rename_i hrecord
    cases h.symm.trans hrecord
  · rename_i hrecord
    cases h.symm.trans hrecord
    rfl

theorem writeTo_owes {r : Reader} {d : Bytes} (h : Owes a e r d) :
    (r.writeTo a).1 = (d,e.reported) := by
  obtain ⟨cs,tail,hcs,hinput,hfails,rfl⟩ := h
  induction cs generalizing r with
  | nil =>
    have htail : r.input = tail := hinput
    obtain ⟨r',hrecord⟩ := hfails.record (some [])
    rw [← htail] at hrecord
    rw [writeTo_error hrecord,List.flatten_nil,List.append_nil]
  | cons p cs ih =>
    have hp := hcs p List.mem_cons_self
    rw [writeTo_ok (record_of_records (r := {r with buf := some []}) hp hinput),
      ih (r := ⟨_,_,some p⟩) (fun c hc => hcs c (List.mem_cons_of_mem p hc)) rfl hfails]
    rfl

end Reading

section Delivery

variable {c : Cipher} {e : ReadError}

/-- The reading side gives out `d` and then fails with `e`. Reads of any sizes give non-empty
pieces of `d` in order, until one fails for that there is no more; a `WriteTo` after them copies
all that they have left. -/
def Delivers (c : Cipher) (e : ReadError) (conn : Conn) (d : Bytes) : Prop :=
  ∀ ks : List ℕ, (∀ k ∈ ks, 0 < k) → ∀ bs err conn', conn.reads c ks = (bs,err,conn') →
    (∀ b ∈ bs, b ≠ []) ∧
    (err = none → bs.length = ks.length ∧
      ∃ rest, bs.flatten++rest = d ∧ (conn'.writeTo c).1 = (rest,e.reported)) ∧
    (∀ err', err = some err' → err' = e ∧ bs.flatten = d)

theorem delivers_opened {salt : Bytes} {r : Reader} {d : Bytes} (hbuf : r.buf ≠ some [])
    (h : Owes (c.aead salt) e r d) : Delivers c e (.opened salt r) d := by
  intro ks
  induction ks generalizing r d with
  | nil =>
    rintro - bs err conn' ⟨⟩
    refine ⟨by simp,fun _ => ⟨rfl,d,rfl,?_⟩,by simp⟩
    exact writeTo_owes h
  | cons k ks ih =>
    intro hks bs err conn' hreads
    have hk := hks k List.mem_cons_self
    by_cases hd : d = []
    · subst hd
      obtain ⟨r',hread⟩ := read_owes_nil (k := k) hbuf h
      simp only [Conn.reads,Conn.read,Conn.withReader,hread] at hreads
      cases hreads
      exact ⟨by simp,by simp,by rintro err' ⟨⟩; exact ⟨rfl,rfl⟩⟩
    · obtain ⟨g,r',d',hread,hg,rfl,hbuf',h'⟩ := read_owes hk hbuf h hd
      simp only [Conn.reads,Conn.read,Conn.withReader,hread] at hreads
      cases hreads
      obtain ⟨hpieces,hnone,hsome⟩ := ih hbuf' h' (fun k hk => hks k (List.mem_cons_of_mem _ hk))
        _ _ _ rfl
      refine ⟨?_,?_,?_⟩
      · intro b hb
        rcases List.mem_cons.mp hb with rfl | hb
        · exact hg
        · exact hpieces b hb
      · intro herr
        obtain ⟨hlen,rest,hrest,hwriteTo⟩ := hnone herr
        exact ⟨congrArg (·+1) hlen,rest,by rw [← hrest,List.flatten_cons,List.append_assoc],hwriteTo⟩
      · intro err' herr
        obtain ⟨rfl,hflat⟩ := hsome err' herr
        exact ⟨rfl,by rw [List.flatten_cons,hflat]⟩

theorem withReader_fresh {α : Type} (fail : ReadError → α) (f : AEAD → Reader → α × Reader)
    {salt : Bytes} (hsalt : salt.length = c.saltSize) (stream : Bytes) :
    (Conn.fresh (salt++stream)).withReader c fail f =
      (Conn.opened salt (newReader (c.aead salt) stream)).withReader c fail f := by
  have hlong : ¬ (salt++stream).length < c.saltSize := by
    rw [List.length_append]
    omega
  simp only [Conn.withReader,if_neg hlong,List.take_left' hsalt,List.drop_left' hsalt]

/-- The first use of a connection reads the salt, whichever it is. -/
theorem delivers_fresh {salt stream d : Bytes} (hsalt : salt.length = c.saltSize)
    (h : Delivers c e (.opened salt (newReader (c.aead salt) stream)) d) :
    Delivers c e (.fresh (salt++stream)) d := by
  intro ks hks bs err conn' hreads
  cases ks with
  | nil =>
    cases hreads
    have hopened := h [] hks [] none _ rfl
    rw [Conn.writeTo,withReader_fresh _ _ hsalt]
    exact hopened
  | cons k ks =>
    rw [Conn.reads,Conn.read,withReader_fresh _ _ hsalt] at hreads
    exact h (k::ks) hks bs err conn' hreads

theorem sent_of_ne_nil (salt : Bytes) {calls : List Call} (h : calls ≠ []) :
    sent c salt calls = salt++((newWriter (c.aead salt)).calls (c.aead salt) calls).1 := by
  cases calls with
  | nil => exact absurd rfl h
  | cons call calls => rfl

theorem delivers_wrote {salt d tail : Bytes} {out : Bytes × Writer}
    (hsalt : salt.length = c.saltSize)
    (hout : Wrote (c.aead salt) (newWriter (c.aead salt)) d out)
    (htail : Fails (c.aead salt) e tail out.2.nonce) :
    Delivers c e (.fresh (salt++(out.1++tail))) d := by
  obtain ⟨cs,hcs,hd,hrecords,hnonce⟩ := hout
  refine delivers_fresh hsalt (delivers_opened (by simp [newReader]) ?_)
  rw [hnonce] at htail
  exact ⟨cs,tail,hcs,by rw [hrecords]; rfl,htail,hd.symm⟩

/-- What the calls of one side send, the other side gets: however the writes were cut into
records, and whatever the sizes of the reads. A stream that a `ReadFrom` ended, after a read of
nothing with the EOF, does not end for the reader but fails with a zero chunk. -/
theorem sent_delivered (c : Cipher) (salt : Bytes) (hsalt : salt.length = c.saltSize)
    {calls : List Call} (hcalls : ∀ call ∈ calls, call.Full) :
    (calls ≠ [] → Delivers c .eof (.fresh (sent c salt calls)) (calls.flatMap Call.data)) ∧
      ∀ ps, (∀ p ∈ ps, IsChunk p) →
        Delivers c .zeroChunk (.fresh (sent c salt (calls++[.readFrom ps []])))
          (calls.flatMap Call.data++ps.flatten) := by
  have hwrote := wrote_calls (a := c.aead salt) (newWriter (c.aead salt)) hcalls
  refine ⟨?_,?_⟩
  · intro hne
    have hdelivers := delivers_wrote hsalt hwrote (fails_nil _)
    rwa [List.append_nil,← sent_of_ne_nil salt hne] at hdelivers
  · intro ps hps
    obtain ⟨out,hout,hzero⟩ := readFrom_nil
      ((newWriter (c.aead salt)).calls (c.aead salt) calls).2 hps
    have hdelivers := delivers_wrote hsalt (hwrote.append hout) (fails_record_nil out.2 [])
    rw [List.append_nil,List.append_assoc,← hzero] at hdelivers
    rw [sent_of_ne_nil salt (by simp),calls_append_fst]
    simpa only [Writer.calls,Writer.call,List.append_nil] using hdelivers

/-- A text and behind it the first byte of the nonce. -/
def tagged : AEAD where
  nonceSize := 2
  overhead := 1
  encrypt nonce p := p++[nonce.headD 0]
  decrypt nonce p := if p.getLast? = some (nonce.headD 0) then some p.dropLast else none
  encrypt_length := by simp
  decrypt_encrypt := by simp

theorem sent_delivered_copied :
    Delivers ⟨1,fun _ => tagged⟩ .eof (.fresh (sent ⟨1,fun _ => tagged⟩ [9] [.write [1,2,3]]))
      [1,2,3] ∧
    Delivers ⟨1,fun _ => tagged⟩ .zeroChunk
      (.fresh (sent ⟨1,fun _ => tagged⟩ [9] [.write [1,2,3],.readFrom [[4]] []])) [1,2,3,4] := by
  have hfull : ∀ call ∈ [Call.write [1,2,3]], call.Full := by simp [Call.Full]
  obtain ⟨hwritten,hcopied⟩ := sent_delivered ⟨1,fun _ => tagged⟩ [9] rfl hfull
  exact ⟨hwritten (by simp),hcopied [[4]] (by decide)⟩

end Delivery

section Nonces

variable {a : AEAD}

/-- The number that a nonce is, in little-endian order. -/
def value : Bytes → ℕ
  | [] => 0
  | b::bs => b.toNat+256*value bs

theorem increment_length (b : Bytes) : (increment b).length = b.length := by
  fun_induction increment b <;> simp_all

theorem iterate_length (n i : ℕ) : (increment^[i] (List.replicate n 0)).length = n := by
  induction i with
  | zero => exact List.length_replicate
  | succ i ih => rw [Function.iterate_succ_apply',increment_length,ih]

theorem value_lt (b : Bytes) : value b < 256^b.length := by
  induction b with
  | nil => simp [value]
  | cons b bs ih =>
    have hb := b.toNat_lt
    rw [value,List.length_cons,pow_succ]
    omega

theorem value_inj {b d : Bytes} (hlen : b.length = d.length) (h : value b = value d) : b = d := by
  induction b generalizing d with
  | nil => exact (List.length_eq_zero_iff.mp hlen.symm).symm
  | cons x b ih =>
    cases d with
    | nil => cases hlen
    | cons y d =>
      have hx := x.toNat_lt
      have hy := y.toNat_lt
      rw [value,value] at h
      have hxy : x = y := UInt8.toNat_inj.mp (by omega)
      rw [hxy,ih (Nat.succ.inj hlen) (by omega)]

theorem value_increment (b : Bytes) : value (increment b) = (value b+1)%256^b.length := by
  induction b with
  | nil => simp [increment,value]
  | cons x b ih =>
    have hx := x.toNat_lt
    have hb := value_lt b
    have hpow : 256^(x::b).length = 256*256^b.length := by
      rw [List.length_cons,pow_succ,Nat.mul_comm]
    have hcarry : x+1 = 0 ↔ x.toNat = 255 := by
      rw [← UInt8.toNat_inj,UInt8.toNat_add]
      simp only [UInt8.toNat_one,UInt8.toNat_zero]
      omega
    rw [hpow,increment]
    split
    · rename_i hne
      rw [Ne,hcarry] at hne
      rw [value,value,UInt8.toNat_add,UInt8.toNat_one,Nat.mod_eq_of_lt (by omega),
        Nat.mod_eq_of_lt (by omega)]
      omega
    · rename_i heq
      rw [Ne,not_not,hcarry] at heq
      rw [value,value,ih,heq,UInt8.toNat_zero,Nat.zero_add,← Nat.mul_mod_mul_left]
      congr 1
      omega

theorem value_iterate (n i : ℕ) : value (increment^[i] (List.replicate n 0)) = i%256^n := by
  induction i with
  | zero =>
    rw [Function.iterate_zero_apply,Nat.zero_mod]
    induction n with
    | zero => rfl
    | succ n ih =>
      rw [List.replicate_succ,value,ih]
      rfl
  | succ i ih => rw [Function.iterate_succ_apply',value_increment,ih,iterate_length,Nat.mod_add_mod]

theorem iterate_eq_iff (n i j : ℕ) :
    increment^[i] (List.replicate n 0) = increment^[j] (List.replicate n 0) ↔
      i%256^n = j%256^n := by
  rw [← value_iterate n i,← value_iterate n j]
  refine ⟨fun h => by rw [h],value_inj ?_⟩
  rw [iterate_length,iterate_length]

/-- The seals so far have used the numbers from zero on, and the next seal uses the next. -/
def Counted (a : AEAD) (w : Writer) : Prop :=
  w.nonce = increment^[w.used.length] (newWriter a).nonce ∧
    w.used = (List.range w.used.length).map fun i => increment^[i] (newWriter a).nonce

theorem counted_sealNext {w : Writer} (h : Counted a w) (p : Bytes) :
    Counted a (w.sealNext a p).2 := by
  obtain ⟨hnonce,hused⟩ := h
  simp only [Counted,Writer.sealNext,List.length_append,List.length_singleton,
    List.range_succ,List.map_append,List.map_singleton]
  rw [← hused,Function.iterate_succ_apply',← hnonce]
  exact ⟨rfl,rfl⟩

section Keeps

variable {P : Writer → Prop} (hseal : ∀ w p, P w → P (w.sealNext a p).2)
include hseal

theorem keeps_record {w : Writer} (p : Bytes) (h : P w) : P (w.record a p).2 :=
  hseal _ p (hseal _ (putUint16 p.length) h)

theorem keeps_writeLoop {w : Writer} (p : Bytes) (h : P w) : P (w.writeLoop a p).2 := by
  fun_induction Writer.writeLoop a w p with
  | case1 w => exact h
  | case2 w p hne out w' hrecord more w'' hloop ih =>
    have hkept := keeps_record hseal (p.take payloadSizeMask) h
    rw [hrecord] at hkept
    rw [hloop] at ih
    exact ih hkept

theorem keeps_readFrom {w : Writer} (ps : List Bytes) (last : Bytes) (h : P w) :
    P (w.readFrom a ps last).2 := by
  induction ps generalizing w with
  | nil => exact keeps_record hseal last h
  | cons p ps ih => exact ih (keeps_record hseal p h)

/-- Whatever a seal keeps, every run of calls keeps. -/
theorem keeps_calls {w : Writer} (calls : List Call) (h : P w) : P (w.calls a calls).2 := by
  induction calls generalizing w with
  | nil => exact h
  | cons call calls ih =>
    apply ih
    cases call with
    | write p =>
      simp only [Writer.write]
      split
      · exact hseal _ _ h
      · exact keeps_writeLoop hseal p h
    | readFrom ps last => exact keeps_readFrom hseal ps last h

end Keeps

/-- No two seals of a connection have one nonce until all nonces have been used, and then they
have. -/
theorem nonces_distinct_iff (a : AEAD) (calls : List Call) :
    ((newWriter a).calls a calls).2.used.Nodup ↔
      ((newWriter a).calls a calls).2.used.length ≤ 256^a.nonceSize := by
  have hstart : Counted a (newWriter a) := ⟨rfl,rfl⟩
  obtain ⟨-,hused⟩ := keeps_calls (P := Counted a) (fun _ p h => counted_sealNext h p) calls hstart
  generalize ((newWriter a).calls a calls).2.used = used at hused ⊢
  have hpos : 0 < 256^a.nonceSize := Nat.pow_pos (by omega)
  have heq : ∀ i j, increment^[i] (newWriter a).nonce = increment^[j] (newWriter a).nonce ↔
      i%256^a.nonceSize = j%256^a.nonceSize := iterate_eq_iff a.nonceSize
  rw [hused,List.nodup_map_iff_inj_on List.nodup_range]
  simp only [List.mem_range,List.length_map,List.length_range,heq]
  refine ⟨fun h => ?_,fun hle i hi j hj hmod => ?_⟩
  · by_contra hmore
    have hzero := h 0 (by omega) (256^a.nonceSize) (by omega) (by simp)
    omega
  · rwa [Nat.mod_eq_of_lt (by omega),Nat.mod_eq_of_lt (by omega)] at hmod

end Nonces

end ShadowAEAD
end Enimul
