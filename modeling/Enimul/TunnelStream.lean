import Enimul.Tunnel
import Enimul.TunStream

/-! What the tunnel passes on.
Of a run that reaches the forwarding phase, the server receives the stream of the client, with the
ClientHello cut into records or an HTTP request written again. Two ways lead to a stream with a
hole: a request that could not be parsed has already been taken from the reader, and a ClientHello
is not sent, or not all of it, under some modes. -/
namespace Enimul
namespace Tunnel

open GoSlice GoText Policies GoRun Resolve ClientHello PeerProgram Fragment GenPolicy BufReader
open TunBridge (firstRecord tlsHeader)

section Hello

variable {record d : Bytes} {r : Parsed}

/-- Records of the same type and major version that carry the handshake of the record. -/
def Refragments (record d : Bytes) : Prop :=
  ∃ header : Bytes, header.length = 3 ∧ header.take 2 = record.take 2 ∧
    Carries header (record.drop 5) d

theorem Refragments.ne_nil (h : Refragments record d) (hrecord : 5 < record.length) : d ≠ [] := by
  rintro rfl
  obtain ⟨header,-,-,payloads,hd,hflat⟩ := h
  cases payloads with
  | nil =>
    have hlen := congrArg List.length hflat
    rw [List.length_drop] at hlen
    simp at hlen
    omega
  | cons p ps => simp [tlsRecord,putUint16] at hd

/-- The header can be read off a stream of records. -/
theorem header_inj {header header' : Bytes} {ps qs : List Bytes} (hps : ps ≠ [])
    (hlen : header.length = header'.length)
    (h : (ps.map (tlsRecord header)).flatten = (qs.map (tlsRecord header')).flatten) :
    header = header' := by
  cases ps with
  | nil => exact absurd rfl hps
  | cons p ps =>
    cases qs with
    | nil => simp [tlsRecord,putUint16] at h
    | cons q qs =>
      simp only [List.map_cons,List.flatten_cons,tlsRecord,List.append_assoc] at h
      exact (List.append_inj h hlen).1

/-- Without its first record the stream does not carry the handshake. -/
theorem not_refragments_tail {header p : Bytes} {ps : List Bytes} (hheader : header.length = 3)
    (hflat : (p::ps).flatten = record.drop 5) (hp : ∀ q ∈ p::ps, q ≠ [] ∧ q.length < 65536)
    (hlen : (record.drop 5).length < 65536) :
    ¬ Refragments record (ps.map (tlsRecord header)).flatten := by
  intro h
  have hne : p ≠ [] := (hp p (.head _)).1
  by_cases hnil : ps = []
  · subst hnil
    have hpos := List.length_pos_of_ne_nil hne
    have hlen := congrArg List.length hflat
    simp only [List.flatten_singleton,List.length_drop] at hlen
    exact h.ne_nil (by omega) rfl
  obtain ⟨header',hheader',-,hcarries⟩ := h
  obtain ⟨qs,hqs,-⟩ := id hcarries
  obtain rfl := header_inj hnil (hheader.trans hheader'.symm) hqs
  have hsame := hcarries.unique ps hlen rfl fun q hq => (hp q (.tail _ hq)).2
  rw [← hflat,List.flatten_cons,List.self_eq_append_left] at hsame
  exact hne hsame

theorem Emits.sent {α : Type} {m : Act Event α} {es : List Event} {a : α} (h : Emits m es a) :
    Sent m (wire es) := by
  intro p b q hrun
  by_cases hacc : Accepts p es
  · rw [(h p).1 hacc] at hrun
    cases hrun
    exact ⟨es,rfl,rfl⟩
  · obtain ⟨err,q',herr⟩ := (h p).2 hacc
    rw [herr] at hrun
    cases hrun

theorem write_sent (data : Bytes) : Sent (Fragment.write data) data := by
  have hsent := Emits.sent (Emits.perform (Event.write data))
  rwa [wire_cons,wire_nil,List.append_nil] at hsent

theorem Sent.wire_log {α : Type} {m : Act Event α} {a : α} {conn : Conn} {dst : Peer Event}
    (h : Sent m d) (hrun : m (openConn conn) = .ok (.ok a,dst)) : wire dst.log = d := by
  obtain ⟨es,hlog,rfl⟩ := h _ _ _ hrun
  rw [hlog]
  rfl

/-- The version is in the third byte. -/
theorem take_adjust (minorVersion : Byte) (record : Bytes) :
    ((adjust minorVersion record).take 3).take 2 = record.take 2 := by
  rw [List.take_take,adjust]
  split
  · rfl
  · exact List.take_set_of_le (by decide)

/-- The fragmenter keeps the handshake, unless it drops the first record. -/
theorem sendRecords_refragments_iff (h : Located record r) {records segments interval : ℤ}
    {minorVersion : Byte} {oob oobex enabled : Bool} {conn : Conn} {dst : Peer Event}
    (hrun : sendRecords record r.sniStart r.sniLen records segments minorVersion oob oobex enabled
      interval (openConn conn) = .ok (.ok (),dst)) :
    Refragments record (wire dst.log) ↔ ¬ DropsFirst records segments oob oobex := by
  obtain ⟨es,payloads,he,hflat,hp,hw⟩ :=
    h.sends_records minorVersion oob oobex enabled interval records segments
  have hb := h.bounds
  rw [(Emits.sent he).wire_log hrun,hw]
  have hheader : ((adjust minorVersion record).take 3).length = 3 := by
    rw [List.length_take,adjust_length]
    omega
  split
  · next hd =>
    refine iff_of_false ?_ (not_not_intro hd)
    cases payloads with
    | nil =>
      have hlen := congrArg List.length hflat
      simp only [List.flatten_nil,List.length_nil,List.length_drop] at hlen
      omega
    | cons p ps =>
      exact not_refragments_tail hheader hflat hp (by rw [List.length_drop]; omega)
  · next hd =>
    exact iff_of_true ⟨_,hheader,take_adjust minorVersion record,payloads,rfl,hflat⟩ hd

theorem Located.refragments_self (h : Located record r) : Refragments record record := by
  have hrecord : record = tlsRecord (record.take 3) (record.drop 5) := h.adjust_eq ⟨0,false⟩
  have hb := h.bounds
  refine ⟨record.take 3,by rw [List.length_take]; omega,by rw [List.take_take]; rfl,
    [record.drop 5],?_,by simp⟩
  simpa using hrecord

end Hello

theorem uint16At_take {s : Bytes} {i m : ℕ} (h : i+2 ≤ m) (hm : m ≤ s.length) :
    uint16At (s.take m) i = uint16At s i := by
  have hlen : i+2 ≤ (s.take m).length := by rw [List.length_take]; omega
  have happend := uint16At_append (s.drop m) hlen
  rwa [List.take_append_drop,eq_comm] at happend

section Steps

variable {σ α : Type} {s s' : State σ}

theorem ofChecked_ok {c : Checked α} {a : α} {s s' : σ} (h : ofChecked c s = .ok (.ok a,s')) :
    c = .ok a ∧ s' = s := by
  cases c with
  | error fault => cases h
  | ok b =>
    cases h
    exact ⟨rfl,rfl⟩

theorem outside_ok {m : Run σ α} {a : α} (h : outside m s = .ok (.ok a,s')) :
    s'.reader = s.reader := by
  rw [outside,Except.ok.injEq,Prod.mk.injEq] at h
  rw [← h.2]

theorem onConn_ok {m : Act Event Unit} {dst dst' : Peer Event}
    (h : onConn dst m s = .ok (.ok dst',s')) : s' = s ∧ m dst = .ok (.ok (),dst') := by
  rw [onConn] at h
  split at h
  · cases h
  · cases h
  · next hm =>
    cases h
    exact ⟨rfl,hm⟩

theorem dialIfNil_ok {net : Net σ} {dstConn : Option Conn} {target : Str} {p : Policy} {conn : Conn}
    (h : dialIfNil net dstConn target p s = .ok (.ok conn,s')) : s'.reader = s.reader := by
  cases dstConn with
  | some c =>
    cases h
    rfl
  | none => exact outside_ok h

theorem peekBytes_ok {n : ℕ} {b : Bytes} (h : peekBytes n s = .ok (.ok b,s')) :
    s' = {s with reader := (peek defaultBufSize n s.reader).2} ∧ b = s.reader.stream.take n ∧
      n ≤ s.reader.stream.length ∧ s'.reader.stream = s.reader.stream := by
  rw [peekBytes] at h
  cases hpeek : peek defaultBufSize n s.reader with
  | mk out r =>
    rw [hpeek] at h
    cases out with
    | none => cases h
    | some b' =>
      cases h
      obtain ⟨hb,hn,hstream⟩ := peek_some defaultBufSize hpeek
      exact ⟨rfl,hb,hn,hstream⟩

theorem readRecord_ok {n : ℕ} {b : Bytes} (h : readRecord n s = .ok (.ok b,s')) :
    b = s.reader.stream.take n ∧ s.reader.Took n s'.reader ∧ s'.world = s.world := by
  rw [readRecord] at h
  cases hread : readFull defaultBufSize n s.reader with
  | none =>
    rw [hread] at h
    cases h
  | some out =>
    rw [hread] at h
    cases h
    obtain ⟨hb,htook⟩ := readFull_some defaultBufSize hread
    exact ⟨hb,htook,rfl⟩

/-- Everything that is left in the reader arrives behind what was sent before. -/
theorem drain_ok {dst dst' : Peer Event} (h : drain dst s = .ok (.ok dst',s')) :
    delivered dst' s' = wire dst.log++s.reader.stream := by
  rw [drain] at h
  split at h
  · next hnil =>
    cases h
    rw [delivered,Reader.stream,List.eq_nil_of_length_eq_zero hnil,List.nil_append]
  · obtain ⟨rfl,hwrite⟩ := onConn_ok h
    obtain ⟨es,hlog,hes⟩ := write_sent s'.reader.buffered _ _ _ hwrite
    rw [delivered,hlog,wire_append,hes,Reader.stream,List.append_assoc]

end Steps

section Sending

variable {σ : Type} {t : Tables} {net : Net σ} {record : Bytes} {r : Parsed} {c : Chosen}
  {s s' : State σ} {dst : Peer Event}

/-- A ClientHello that is sent in this way arrives. -/
def Chosen.Sendable (c : Chosen) : Prop :=
  match c.finalMode with
  | .direct => True
  | .raw => True
  | .ttld => True
  | .tlsRF => ¬ DropsFirst c.p.numRecords c.p.numSegments c.p.oob.isTrue c.p.oobEx.isTrue
  | _ => False

/-- The record, or records that carry its handshake. -/
def Arrives (record d : Bytes) : Prop := d = record ∨ Refragments record d

theorem sendHello_ok {conn : Conn} (hl : c.finalMode = .direct ∨ Located record r)
    (h : sendHello net c record r conn s = .ok (.ok dst,s')) :
    s'.reader = s.reader ∧ (Arrives record (wire dst.log) ↔ c.Sendable) := by
  rw [sendHello] at h
  rw [Chosen.Sendable]
  cases hmode : c.finalMode with
  | direct =>
    rw [hmode] at h
    obtain ⟨rfl,hrun⟩ := onConn_ok h
    exact ⟨rfl,iff_of_true (.inl ((write_sent record).wire_log hrun)) trivial⟩
  | raw =>
    rw [hmode] at h
    obtain ⟨rfl,hrun⟩ := onConn_ok h
    exact ⟨rfl,iff_of_true (.inl ((write_sent record).wire_log hrun)) trivial⟩
  | ttld =>
    rw [hmode] at h
    obtain ⟨first,s₁,hfirst,h⟩ := Proc.bind_ok h
    obtain ⟨ttl,s₂,httl,h⟩ := Proc.bind_ok h
    obtain ⟨rfl,hrun⟩ := onConn_ok h
    obtain ⟨-,rfl⟩ := ofChecked_ok hfirst
    have hsent := Sent.wire_log (net.desyncSend_sent _ _ _ _ _ _) hrun
    exact ⟨outside_ok httl,iff_of_true (.inl hsent) trivial⟩
  | tlsRF =>
    rw [hmode] at h
    have hl : Located record r := hl.resolve_left (by simp [hmode])
    obtain ⟨rfl,hrun⟩ := onConn_ok h
    refine ⟨rfl,?_⟩
    rw [← sendRecords_refragments_iff hl hrun,Arrives]
    refine or_iff_right_of_imp fun heq => ?_
    rw [heq]
    exact Located.refragments_self hl
  | _ =>
    rw [hmode] at h
    have hl : Located record r := hl.resolve_left (by simp [hmode])
    have hb := hl.bounds
    cases h
    refine ⟨rfl,iff_of_false ?_ id⟩
    rintro (hnil | hre)
    · rw [← hnil] at hb
      simp [openConn] at hb
      omega
    · exact hre.ne_nil (by omega) rfl

theorem chooseTLSProc_ok {originHost originPort : Str} {c' : Chosen}
    (h : chooseTLSProc t net originHost originPort record r c s = .ok (.ok c',s')) :
    s'.reader = s.reader ∧
      ∃ w, chooseTLS t net originHost originPort record r c s.world = .ok (.ok c',w) := by
  rw [chooseTLSProc] at h
  split at h
  · cases h
  · cases h
  · next hchoose =>
    cases h
    exact ⟨rfl,_,hchoose⟩

theorem chooseTLS_named {originHost originPort : Str} {w w' : σ} {c' : Chosen}
    (h : chooseTLS t net originHost originPort record r c w = .ok (.ok c',w')) :
    c'.finalMode = .direct ∨ 0 < r.sniStart := by
  rw [chooseTLS] at h
  split at h
  · obtain ⟨reply,-,h⟩ := except_bind_ok h
    cases h
  split at h
  · obtain ⟨reply,-,h⟩ := except_bind_ok h
    cases h
  split at h
  · cases h
    exact .inl rfl
  · exact .inr (by omega)

theorem handleTLS_ok {n : ℕ} {p : Policy} {dstConn : Option Conn}
    {originHost target originPort : Str} (hn : uint16At s.reader.stream 3 = .ok n)
    (h : handleTLS t net (5+n) p dstConn originHost target originPort s = .ok (.ok dst,s')) :
    ∃ record r c w, record = s.reader.stream.take (5+n) ∧ s.reader.Took (5+n) s'.reader ∧
      parseClientHello record = .ok r ∧
      chooseTLS t net originHost originPort record r ⟨.unset,p,dstConn,target⟩ s.world =
        .ok (.ok c,w) ∧ (Arrives record (wire dst.log) ↔ c.Sendable) := by
  obtain ⟨record,s₁,hread,h₁⟩ := Proc.bind_ok h
  obtain ⟨hrecord,htook,hworld⟩ := readRecord_ok hread
  obtain ⟨r,s₂,hchecked,h₂⟩ := Proc.bind_ok h₁
  obtain ⟨hparse,rfl⟩ := ofChecked_ok hchecked
  have herr : r.err = none := by
    by_contra hsome
    rw [if_pos (Option.isSome_iff_ne_none.mpr hsome)] at h₂
    cases h₂
  rw [herr,if_neg (by simp)] at h₂
  obtain ⟨c,s₃,hproc,h₃⟩ := Proc.bind_ok h₂
  obtain ⟨hreader₃,w,hchoose⟩ := chooseTLSProc_ok hproc
  obtain ⟨conn,s₄,hdial,hsend⟩ := Proc.bind_ok h₃
  have hlocated : c.finalMode = .direct ∨ Located record r := by
    refine (chooseTLS_named hchoose).imp_right fun hpos => ?_
    refine ⟨⟨n,?_,?_⟩,hparse,herr,by omega⟩
    · rw [hrecord,uint16At_take (by omega) htook.1,hn]
    · rw [hrecord,List.length_take]
      have := htook.1
      omega
  obtain ⟨hreader,hiff⟩ := sendHello_ok hlocated hsend
  rw [hworld] at hchoose
  refine ⟨record,r,c,w,hrecord,?_,hparse,hchoose,hiff⟩
  rw [hreader,dialIfNil_ok hdial,hreader₃]
  exact htook

end Sending

section Forwarding

variable {σ : Type} (t : Tables) (net : Net σ) (http : HTTP) (p : Policy) (dstConn : Option Conn)
  (originHost target originPort : Str)

/-- The stream starts with one of the methods. -/
def hasMethod (stream : Bytes) : Bool := bytesHasPrefix (stream.take 10) methods

/-- What the first bytes lead to, once they have been looked at. -/
inductive Flight (s : State σ) : Option (Peer Event) → State σ → Prop
  | hello {n : ℕ} {dst : Peer Event} {s₁ : State σ} (ht : tlsHeader s.reader.stream)
      (hn : uint16At s.reader.stream 3 = .ok n)
      (h : handleTLS t net (5+n) p dstConn originHost target originPort s = .ok (.ok dst,s₁)) :
      Flight s (some dst) s₁
  | request {req : http.Request} {dst : Peer Event} {s₁ : State σ}
      (hm : hasMethod s.reader.stream) (hr : (http.readRequest s.reader).1 = .ok req)
      (h : handleHTTP net http p dstConn originHost target req
        {s with reader := (http.readRequest s.reader).2} = .ok (.ok dst,s₁)) :
      Flight s (some dst) s₁
  | lost {err : String} (hm : hasMethod s.reader.stream)
      (hr : (http.readRequest s.reader).1 = .error err) :
      Flight s (dstConn.map openConn) {s with reader := (http.readRequest s.reader).2}
  | other (ht : tlsHeader s.reader.stream = false) (hm : hasMethod s.reader.stream = false) :
      Flight s (dstConn.map openConn) s

variable {t net http p dstConn originHost target originPort} {s s₁ : State σ}
  {flight : Option (Peer Event)}

theorem index_take {b : UInt8} {stream : Bytes} {i n : ℕ} (hn : i < n)
    (h : index (stream.take n) i = .ok b) : stream[i]? = some b := by
  rw [index,List.getElem?_take_of_lt hn] at h
  split at h
  · next hb =>
    cases h
    exact hb
  · cases h

theorem tlsHeader_iff {stream : Bytes} :
    tlsHeader stream = true ↔ stream[0]? = some 0x16 ∧ stream[1]? = some 0x03 := by
  rw [tlsHeader,decide_eq_true_iff]
  rcases stream with _ | ⟨b₀,_ | ⟨b₁,rest⟩⟩ <;> simp

/-- A method does not start with the type of a handshake record. -/
theorem hasMethod_not_handshake {stream : Bytes} (h : hasMethod stream = true) :
    stream[0]? ≠ some 0x16 := by
  obtain ⟨m,hm,hpre⟩ := List.any_eq_true.mp h
  have hfirst : ∀ m ∈ methods, ∃ b rest, m = b::rest ∧ b ≠ 0x16 := by
    simp [methods,str]
  obtain ⟨b,rest,rfl,hb⟩ := hfirst m hm
  rw [hasPrefix,List.isPrefixOf_iff_prefix] at hpre
  cases stream with
  | nil => simp at hpre
  | cons x xs =>
    rw [List.take_succ_cons,List.cons_prefix_cons] at hpre
    simpa [← hpre.1] using hb

theorem tlsHeader_eq_false {stream : Bytes}
    (h : stream[0]? ≠ some 0x16 ∨ stream[1]? ≠ some 0x03) : tlsHeader stream = false := by
  rw [Bool.eq_false_iff]
  intro ht
  obtain ⟨h₀,h₁⟩ := tlsHeader_iff.mp ht
  rcases h with h | h
  · exact h h₀
  · exact h h₁

/-- The bytes of a request are parsed, and lost if that fails. -/
theorem requestFlight_ok (hmethod : hasMethod s.reader.stream = true)
    (h : (do
      match ← readRequest http with
      | .ok req =>
        let dst ← handleHTTP net http p dstConn originHost target req
        return some dst
      | .error _ => return dstConn.map openConn : Proc (State σ) (Option (Peer Event))) s =
        .ok (.ok flight,s₁)) :
    Flight t net http p dstConn originHost target originPort s flight s₁ := by
  obtain ⟨out,s₂,hread,h₁⟩ := Proc.bind_ok h
  rw [readRequest,Except.ok.injEq,Prod.mk.injEq,Except.ok.injEq] at hread
  obtain ⟨hout,rfl⟩ := hread
  cases out with
  | ok req =>
    obtain ⟨dst,s₃,hdst,h₂⟩ := Proc.bind_ok h₁
    cases h₂
    exact .request hmethod hout hdst
  | error err =>
    cases h₁
    exact .lost hmethod hout

theorem firstFlight_ok
    (h : firstFlight t net http p dstConn originHost target originPort s = .ok (.ok flight,s₁)) :
    10 ≤ s.reader.stream.length ∧
      Flight t net http p dstConn originHost target originPort
        {s with reader := (peek defaultBufSize 10 s.reader).2} flight s₁ := by
  obtain ⟨first,s₂,hpeek,h₁⟩ := Proc.bind_ok h
  obtain ⟨hs₂,rfl,hlen,hstream⟩ := peekBytes_ok hpeek
  refine ⟨hlen,?_⟩
  rw [← hs₂]
  rw [← hstream] at h₁ hlen
  obtain ⟨b₀,s₃,hindex₀,h₂⟩ := Proc.bind_ok h₁
  obtain ⟨hindex₀,rfl⟩ := ofChecked_ok hindex₀
  have hb₀ := index_take (by decide) hindex₀
  by_cases htype : b₀ = 0x16
  · rw [if_pos htype] at h₂
    rw [htype] at hb₀
    obtain ⟨b₁,s₄,hindex₁,h₃⟩ := Proc.bind_ok h₂
    obtain ⟨hindex₁,rfl⟩ := ofChecked_ok hindex₁
    have hb₁ := index_take (by decide) hindex₁
    by_cases hversion : b₁ = 0x03
    · rw [if_pos hversion] at h₃
      obtain ⟨n,s₅,hlength,h₄⟩ := Proc.bind_ok h₃
      obtain ⟨hlength,rfl⟩ := ofChecked_ok hlength
      obtain ⟨dst,s₆,hdst,h₅⟩ := Proc.bind_ok h₄
      cases h₅
      rw [uint16At_take (by decide) hlen] at hlength
      exact .hello (tlsHeader_iff.mpr ⟨hb₀,hversion ▸ hb₁⟩) hlength hdst
    · rw [if_neg hversion] at h₃
      cases h₃
      exact .other (tlsHeader_eq_false (.inr (by simpa [hb₁] using hversion)))
        (Bool.eq_false_iff.mpr fun hm => hasMethod_not_handshake hm hb₀)
  · rw [if_neg htype,show bytesHasPrefix (s₃.reader.stream.take 10) methods =
      hasMethod s₃.reader.stream from rfl] at h₂
    by_cases hmethod : hasMethod s₃.reader.stream = true
    · rw [if_pos hmethod] at h₂
      exact requestFlight_ok hmethod h₂
    · rw [if_neg hmethod] at h₂
      cases h₂
      exact .other (tlsHeader_eq_false (.inl (by simpa [hb₀] using htype)))
        (Bool.eq_false_iff.mpr hmethod)

theorem dialForRequest_ok {conn : Conn}
    (h : dialForRequest net dstConn target p s = .ok (.ok conn,s₁)) : s₁.reader = s.reader := by
  rw [dialForRequest] at h
  split at h
  · cases h
  · exact dialIfNil_ok h

theorem handleHTTP_ok {req : http.Request} {dst : Peer Event}
    (h : handleHTTP net http p dstConn originHost target req s = .ok (.ok dst,s₁)) :
    ∃ n, s.reader.Took n s₁.reader ∧
      wire dst.log = http.serialised req (s.reader.stream.take n) := by
  rw [handleHTTP] at h
  split at h
  · cases h
  obtain ⟨conn,s₂,hdial,h⟩ := Proc.bind_ok h
  rw [writeRequest] at h
  split at h
  · cases h
  · cases h
  · next hwrite =>
    cases h
    obtain ⟨n,es,htook,hlog,hes⟩ := http.write_sent _ _ _ _ _ hwrite
    rw [dialForRequest_ok hdial] at htook hes
    refine ⟨n,htook,?_⟩
    rw [hlog,← hes]
    rfl

/-- The bytes that have been sent with the first flight. -/
def flightBytes (flight : Option (Peer Event)) : Bytes :=
  (flight.map fun dst => wire dst.log).getD []

theorem flightBytes_map (dstConn : Option Conn) : flightBytes (dstConn.map openConn) = [] := by
  cases dstConn <;> rfl

/-- A run that reaches the forwarding phase sends what the first flight sends and then all that is
left in the reader. -/
theorem handleTunnel_ok {dst : Peer Event} (hraw : p.mode ≠ .raw)
    (h : handleTunnel t net http p dstConn originHost target originPort s = .ok (.ok dst,s₁)) :
    ∃ flight s₂, 10 ≤ s.reader.stream.length ∧
      Flight t net http p dstConn originHost target originPort
        {s with reader := (peek defaultBufSize 10 s.reader).2} flight s₂ ∧
      delivered dst s₁ = flightBytes flight++s₂.reader.stream := by
  rw [handleTunnel,if_neg hraw] at h
  obtain ⟨flight,s₂,hflight,h⟩ := Proc.bind_ok h
  obtain ⟨hlen,hcases⟩ := firstFlight_ok hflight
  refine ⟨flight,s₂,hlen,hcases,?_⟩
  cases flight with
  | some d => exact drain_ok h
  | none =>
    obtain ⟨conn,s₃,hdial,h⟩ := Proc.bind_ok h
    rw [drain_ok h,dialIfNil_ok hdial]
    rfl

end Forwarding

section Result

variable {σ : Type} (t : Tables) (net : Net σ) (http : HTTP) (p : Policy) (dstConn : Option Conn)
  (originHost target originPort : Str) (w : σ) (chunks : List Bytes)

/-- The reader of the client's connection when the first bytes have been looked at. -/
def looked : Reader UInt8 := (peek defaultBufSize 10 ⟨[],chunks⟩).2

@[simp] theorem looked_stream : (looked chunks).stream = chunks.flatten :=
  peek_stream defaultBufSize 10 ⟨[],chunks⟩

/-- The bytes of the client in order and with none missing, except that its ClientHello may be cut
into records and a request that was parsed may be written again. -/
inductive Faithful (sent : Bytes) : Prop
  | unmodified (hsent : sent = chunks.flatten)
  | hello {record d : Bytes} (hrecord : firstRecord chunks.flatten = some record)
      (hd : Refragments record d) (hsent : sent = d++chunks.flatten.drop record.length)
  | request {req : http.Request} {body rest : Bytes} (hmethod : hasMethod chunks.flatten)
      (hread : (http.readRequest (looked chunks)).1 = .ok req)
      (hrest : (http.readRequest (looked chunks)).2.stream = body++rest)
      (hsent : sent = http.serialised req body++rest)

/-- The ClientHello goes out in a way in which it arrives, and what starts with a method can be
parsed. -/
structure Kept : Prop where
  hello : ∀ record r c w', firstRecord chunks.flatten = some record →
    parseClientHello record = .ok r →
    chooseTLS t net originHost originPort record r ⟨.unset,p,dstConn,target⟩ w = .ok (.ok c,w') →
    c.Sendable
  request : hasMethod chunks.flatten → ∃ req, (http.readRequest (looked chunks)).1 = .ok req

variable {t net http p dstConn originHost target originPort w chunks}

theorem firstRecord_tlsHeader {stream record : Bytes} (h : firstRecord stream = some record) :
    tlsHeader stream = true :=
  (TunBridge.firstRecord_some h).2.1

theorem firstRecord_append_drop {stream record : Bytes} (h : firstRecord stream = some record) :
    record++stream.drop record.length = stream := by
  obtain ⟨-,-,n,-,hle,rfl⟩ := TunBridge.firstRecord_some h
  rw [List.length_take,Nat.min_eq_left hle,List.take_append_drop]

theorem not_hasMethod_of_tlsHeader {stream : Bytes} (h : tlsHeader stream = true) :
    hasMethod stream = false :=
  Bool.eq_false_iff.mpr fun hm => hasMethod_not_handshake hm (tlsHeader_iff.mp h).1

theorem faithful_hello_iff (http : HTTP) {record d : Bytes}
    (h : firstRecord chunks.flatten = some record) :
    Faithful http chunks (d++chunks.flatten.drop record.length) ↔ Arrives record d := by
  have hsplit := firstRecord_append_drop h
  constructor
  · intro hf
    cases hf with
    | unmodified hsent => exact .inl (List.append_cancel_right (hsent.trans hsplit.symm))
    | hello hrecord hd hsent =>
      obtain rfl := Option.some.inj (h.symm.trans hrecord)
      rw [List.append_cancel_right hsent]
      exact .inr hd
    | request hmethod =>
      rw [not_hasMethod_of_tlsHeader (firstRecord_tlsHeader h)] at hmethod
      cases hmethod
  · rintro (rfl | hd)
    · exact .unmodified hsplit
    · exact .hello h hd rfl

/-- A request that was not parsed is missing from the stream. -/
theorem not_faithful_lost {err : String} (hmethod : hasMethod chunks.flatten = true)
    (hread : (http.readRequest (looked chunks)).1 = .error err) (hne : chunks.flatten ≠ []) :
    ¬ Faithful http chunks (http.readRequest (looked chunks)).2.stream := by
  obtain ⟨n,hpos,hle,hrest⟩ := http.readRequest_took (looked chunks) (by rwa [looked_stream])
  rw [looked_stream] at hle hrest
  intro hf
  cases hf with
  | unmodified hsent =>
    have hlen := congrArg List.length hsent
    rw [hrest,List.length_drop] at hlen
    omega
  | hello hrecord =>
    rw [not_hasMethod_of_tlsHeader (firstRecord_tlsHeader hrecord)] at hmethod
    cases hmethod
  | request _ hok =>
    rw [hread] at hok
    cases hok

theorem firstRecord_of_uint16At {stream : Bytes} {n : ℕ} (ht : tlsHeader stream = true)
    (hn : uint16At stream 3 = .ok n) (hle : 5+n ≤ stream.length) :
    firstRecord stream = some (stream.take (5+n)) := by
  rw [firstRecord,if_pos ⟨by omega,ht⟩,hn]
  exact if_pos hle

/-- The ClientHello decides. -/
theorem faithful_handleTLS_iff {n : ℕ} {dst : Peer Event} {s : State σ}
    (ht : tlsHeader chunks.flatten = true) (hn : uint16At chunks.flatten 3 = .ok n)
    (h : handleTLS t net (5+n) p dstConn originHost target originPort ⟨w,looked chunks,[]⟩ =
      .ok (.ok dst,s)) :
    Faithful http chunks (wire dst.log++s.reader.stream) ↔
      Kept t net http p dstConn originHost target originPort w chunks := by
  have hn' : uint16At (looked chunks).stream 3 = .ok n := by rwa [looked_stream]
  obtain ⟨record,r,c,w',hrecord,⟨hle,hrest⟩,hparse,hchoose,hiff⟩ := handleTLS_ok hn' h
  rw [looked_stream] at hrecord hle hrest
  have hfirst : firstRecord chunks.flatten = some record := by
    rw [hrecord]
    exact firstRecord_of_uint16At ht hn hle
  have hlength : record.length = 5+n := by rw [hrecord,List.length_take,Nat.min_eq_left hle]
  rw [hrest,← hlength,faithful_hello_iff http hfirst,hiff]
  constructor
  · intro hsend
    refine ⟨?_,fun hmethod => ?_⟩
    · intro record' r' c' w'' hrecord' hparse' hchoose'
      obtain rfl := Option.some.inj (hfirst.symm.trans hrecord')
      obtain rfl := Except.ok.inj (hparse.symm.trans hparse')
      cases hchoose.symm.trans hchoose'
      exact hsend
    · rw [not_hasMethod_of_tlsHeader ht] at hmethod
      cases hmethod
  · intro hkept
    exact hkept.hello record r c w' hfirst hparse hchoose

/-- Without a ClientHello only a request that cannot be parsed is lost. -/
theorem kept_of_not_tls (ht : tlsHeader chunks.flatten = false)
    (hrequest : hasMethod chunks.flatten → ∃ req, (http.readRequest (looked chunks)).1 = .ok req) :
    Kept t net http p dstConn originHost target originPort w chunks := by
  refine ⟨?_,hrequest⟩
  intro record r c w' hrecord
  rw [firstRecord_tlsHeader hrecord] at ht
  cases ht

theorem tlsHeader_of_hasMethod {stream : Bytes} (h : hasMethod stream = true) :
    tlsHeader stream = false :=
  Bool.eq_false_iff.mpr fun ht => hasMethod_not_handshake h (tlsHeader_iff.mp ht).1

theorem Flight.faithful_iff {flight : Option (Peer Event)} {s : State σ}
    (hne : chunks.flatten ≠ [])
    (h : Flight t net http p dstConn originHost target originPort ⟨w,looked chunks,[]⟩ flight s) :
    Faithful http chunks (flightBytes flight++s.reader.stream) ↔
      Kept t net http p dstConn originHost target originPort w chunks := by
  cases h with
  | hello ht hn hrun =>
    rw [looked_stream] at ht hn
    exact faithful_handleTLS_iff ht hn hrun
  | request hm hr hrun =>
    rw [looked_stream] at hm
    obtain ⟨n,⟨-,hrest⟩,hwire⟩ := handleHTTP_ok hrun
    have hsplit := (List.take_append_drop n (http.readRequest (looked chunks)).2.stream).symm
    refine iff_of_true (.request hm hr hsplit ?_) ?_
    · rw [hrest]
      exact congrArg (· ++ _) hwire
    · exact kept_of_not_tls (tlsHeader_of_hasMethod hm) fun _ => ⟨_,hr⟩
  | lost hm hr =>
    rw [looked_stream] at hm
    rw [flightBytes_map]
    refine iff_of_false (not_faithful_lost hm hr hne) fun hkept => ?_
    obtain ⟨req,hok⟩ := hkept.request hm
    exact absurd (hr.symm.trans hok) (by simp)
  | other ht hm =>
    rw [looked_stream] at ht hm
    rw [flightBytes_map]
    refine iff_of_true (.unmodified (looked_stream chunks)) (kept_of_not_tls ht fun hmethod => ?_)
    rw [hm] at hmethod
    cases hmethod

end Result

section Runs

/-- What the server receives in a run that reaches the forwarding phase. -/
def forwarded {σ : Type} (run : Checked (Except String (Peer Event) × State σ)) : Option Bytes :=
  match run with
  | .ok (.ok dst,s) => some (delivered dst s)
  | _ => none

theorem forwarded_some {σ : Type} {run : Checked (Except String (Peer Event) × State σ)} {d : Bytes}
    (h : forwarded run = some d) : ∃ dst s, run = .ok (.ok dst,s) ∧ delivered dst s = d := by
  rcases run with fault | ⟨err | dst,s⟩
  · cases h
  · cases h
  · exact ⟨dst,s,rfl,Option.some.inj h⟩

/-- Every dial succeeds, every server takes what it is sent, and a fake packet leaves no trace. -/
def openNet : Net Unit where
  world := answering [1,2,3,4]
  dialTCPTimeout _ _ := return fun _ _ => none
  getFakeTTL _ _ _ := return 1
  desyncSend _ record _ _ _ _ := Fragment.write record
  desyncSend_sent _ record _ _ _ _ := write_sent record

/-- The length of the first line. -/
def lineLength (stream : Bytes) : ℕ := min (stream.idxOf 10+1) stream.length

/-- Requests of one line without a body. -/
def lineHTTP : HTTP where
  Request := Bytes
  host _ := []
  urlHost _ := []
  requestURI _ := []
  readRequest r :=
    let line := r.stream.take (lineLength r.stream)
    (if (str "HTTP/1.1\r\n").isSuffixOf line then .ok line else .error "malformed HTTP request",
      ⟨r.stream.drop (lineLength r.stream),[]⟩)
  write req r := do
    Fragment.write req
    return r
  serialised req body := req++body
  readRequest_took r hne := by
    have hpos := List.length_pos_of_ne_nil hne
    refine ⟨lineLength r.stream,?_,?_,?_⟩
    · rw [lineLength]
      omega
    · exact Nat.min_le_right _ _
    · simp [Reader.stream]
  write_sent req r p r' q h := by
    have hemits := (Emits.perform (Event.write req)).bind (f := fun _ => pure r) (Emits.pure r)
    by_cases hacc : Accepts p ([.write req]++[])
    · cases ((hemits p).1 hacc).symm.trans h
      exact ⟨0,_,⟨Nat.zero_le _,rfl⟩,rfl,by simp [Event.inBand]⟩
    · obtain ⟨err,q',herr⟩ := (hemits p).2 hacc
      cases herr.symm.trans h

end Runs

end Tunnel
end Enimul
