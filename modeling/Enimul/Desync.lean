import Enimul.TunnelStream

/-! Sending a ClientHello behind a fake packet.
`desyncSend` reads the default TTL of the socket, has the first part of the record sent by
`sendWithNoise`, which puts a packet with a small TTL before it, and writes the rest. The outcomes
of the socket operations are given; what is handed to the connection is in the log of the peer. -/
namespace Enimul
namespace Desync

open GoSlice PeerProgram Fragment Tunnel

/-- The arguments of `sendWithNoise`. -/
structure Noise where
  fakeData : Bytes
  realData : Bytes
  fakeTTL : ℤ
  defaultTTL : ℤ
  level : ℕ
  opt : ℕ
  fakeSleep : ℤ
  deriving DecidableEq, Repr

/-- The outcomes of the socket operations. `control` is the error of `Control` itself, and
`getsockoptInt` what the function that it runs finds. If `sendWithNoise` returns nil, it has sent
the real data. -/
structure Socket where
  getRawConn : Option String
  control : Option String
  getsockoptInt : ℕ → ℕ → Except String ℤ
  sendWithNoise : Noise → Act Event Unit
  sendWithNoise_returns : ∀ noise p, ∃ res, sendWithNoise noise p = .ok res
  sendWithNoise_sent : ∀ noise, Sent (sendWithNoise noise) noise.realData

/-- `return err`. -/
def returnErr : Option String → Act Event Unit
  | none => pure ()
  | some err => fun p => .ok (.error err,p)

/-- `E.WithStr`: no error stays no error. -/
def withErr (op : String) (err : Option String) : Option String := err.map ((op ++ ": ") ++ ·)

def ttlLevelOption (isIPv6 : Bool) : ℕ × ℕ := if isIPv6 then (41,16) else (0,2)

/-- `record[:i]` with an index that may be negative. -/
def sliceToInt (record : Bytes) (i : ℤ) : Checked Bytes :=
  if i < 0 then .error (.slice 0 i.toNat record.length) else sliceTo record i.toNat

def minInterval : ℤ := 100000000

/-- What is sent once the default TTL is known. -/
def sendParts (sock : Socket) (isIPv6 : Bool) (record : Bytes) (sniStart sniLen fakeTTL fakeSleep : ℤ)
    (defaultTTL : ℤ) : Act Event Unit := do
  let cut ← fromChecked (findLastDotOrMidPos record sniStart sniLen)
  let head ← fromChecked (sliceToInt record sniStart)
  let fakeData := overwrite (List.replicate cut 0) head
  let realData ← fromChecked (sliceTo record cut)
  withStr "send data with noise" (sock.sendWithNoise ⟨fakeData,realData,fakeTTL,defaultTTL,
    (ttlLevelOption isIPv6).1,(ttlLevelOption isIPv6).2,max minInterval fakeSleep⟩)
  let rest ← fromChecked (sliceFrom record cut)
  withStr "send remaining data" (write rest)

def desyncSend (sock : Socket) (isIPv6 : Bool) (record : Bytes) (sniStart sniLen fakeTTL : ℤ)
    (fakeSleep : ℤ) : Act Event Unit :=
  match sock.getRawConn with
  | some err => returnErr (some err)
  | none =>
    -- from here on `err` is the outcome of `Control`
    let err := sock.control
    if err ≠ none then returnErr (withErr "raw control" err)
    else
      match sock.getsockoptInt (ttlLevelOption isIPv6).1 (ttlLevelOption isIPv6).2 with
      -- the error of the socket is in `innerErr`, but `err` is returned
      | .error _innerErr => returnErr (withErr "get default ttl" err)
      | .ok defaultTTL =>
        sendParts sock isIPv6 record sniStart sniLen fakeTTL fakeSleep defaultTTL

section Results

variable (sock : Socket) (isIPv6 : Bool) (record : Bytes) (sniStart sniLen : ℤ)

/-- Every step has succeeded, and the first part of the record and then the rest of it have been
handed to the connection. -/
structure Handed (p q : Peer Event) : Prop where
  rawConn : sock.getRawConn = none
  control : sock.control = none
  defaultTTL : ∃ ttl, sock.getsockoptInt (ttlLevelOption isIPv6).1 (ttlLevelOption isIPv6).2 = .ok ttl
  parts : ∃ cut es, findLastDotOrMidPos record sniStart sniLen = .ok cut ∧
    wire es = record.take cut ∧ q.log = p.log++es++[.write (record.drop cut)]

/-- Success is reported only after the record has been sent. -/
def ReportsSuccess (fakeTTL fakeSleep : ℤ) : Prop :=
  ∀ p q, desyncSend sock isIPv6 record sniStart sniLen fakeTTL fakeSleep p = .ok (.ok (),q) →
    Handed sock isIPv6 record sniStart sniLen p q

/-- Reading the default TTL fails in a call of `Control` that succeeds. -/
def TTLUnreadable : Prop :=
  sock.getRawConn = none ∧ sock.control = none ∧
    ∃ err, sock.getsockoptInt (ttlLevelOption isIPv6).1 (ttlLevelOption isIPv6).2 = .error err

variable {sock isIPv6 record sniStart sniLen} {fakeTTL fakeSleep : ℤ}

theorem sendParts_ok {defaultTTL : ℤ} {p q : Peer Event}
    (h : sendParts sock isIPv6 record sniStart sniLen fakeTTL fakeSleep defaultTTL p =
      .ok (.ok (),q)) :
    ∃ cut es, findLastDotOrMidPos record sniStart sniLen = .ok cut ∧
      wire es = record.take cut ∧ q.log = p.log++es++[.write (record.drop cut)] := by
  obtain ⟨cut,hcut,hle,-,-⟩ := findLastDotOrMidPos_returns record sniStart sniLen
  rw [sendParts,fromChecked_bind hcut] at h
  cases hhead : sliceToInt record sniStart with
  | error fault =>
    rw [hhead] at h
    cases h
  | ok head =>
    rw [fromChecked_bind hhead,fromChecked_bind (sliceTo_of_le hle)] at h
    obtain ⟨⟨⟩,p₁,hnoise,hrest⟩ := Act.bind_ok h
    rw [fromChecked_bind (sliceFrom_of_le hle)] at hrest
    obtain ⟨es,hlog,hwire⟩ := sock.sendWithNoise_sent _ _ _ _ (Act.withStr_ok hnoise)
    have hwrite := Act.withStr_ok hrest
    rw [Fragment.write,perform] at hwrite
    split at hwrite
    · cases hwrite
      exact ⟨cut,es,hcut,hwire,by rw [hlog]⟩
    · cases hwrite

theorem sendParts_returns {defaultTTL : ℤ} (hstart : 0 ≤ sniStart) (hend : sniStart ≤ record.length)
    (p : Peer Event) :
    ∃ res, sendParts sock isIPv6 record sniStart sniLen fakeTTL fakeSleep defaultTTL p = .ok res := by
  obtain ⟨cut,hcut,hle,-,-⟩ := findLastDotOrMidPos_returns record sniStart sniLen
  have hhead : sliceToInt record sniStart = .ok (record.take sniStart.toNat) := by
    rw [sliceToInt,if_neg (by omega),sliceTo_of_le (by omega)]
  rw [sendParts,fromChecked_bind hcut,fromChecked_bind hhead,fromChecked_bind (sliceTo_of_le hle)]
  refine Act.bind_returns (Act.withStr_returns (sock.sendWithNoise_returns _ p)) fun _ q => ?_
  rw [fromChecked_bind (sliceFrom_of_le hle)]
  apply Act.withStr_returns
  rw [Fragment.write,perform]
  split <;> exact ⟨_,rfl⟩

theorem desyncSend_eq_sendParts (hraw : sock.getRawConn = none) (hcontrol : sock.control = none)
    {ttl : ℤ}
    (httl : sock.getsockoptInt (ttlLevelOption isIPv6).1 (ttlLevelOption isIPv6).2 = .ok ttl) :
    desyncSend sock isIPv6 record sniStart sniLen fakeTTL fakeSleep =
      sendParts sock isIPv6 record sniStart sniLen fakeTTL fakeSleep ttl := by
  rw [desyncSend,hraw]
  simp only [hcontrol,ne_eq,not_true_eq_false,if_false,httl]

/-- Nothing is sent and no error is returned. -/
theorem TTLUnreadable.desyncSend (h : TTLUnreadable sock isIPv6) (p : Peer Event) :
    desyncSend sock isIPv6 record sniStart sniLen fakeTTL fakeSleep p = .ok (.ok (),p) := by
  obtain ⟨hraw,hcontrol,err,herr⟩ := h
  rw [Desync.desyncSend,hraw]
  simp only [hcontrol,ne_eq,not_true_eq_false,if_false,herr]
  rfl

/-- The earlier failures are reported. -/
theorem desyncSend_fails {err : String}
    (h : sock.getRawConn = some err ∨ sock.getRawConn = none ∧ sock.control = some err)
    (p : Peer Event) :
    ∃ err', desyncSend sock isIPv6 record sniStart sniLen fakeTTL fakeSleep p =
      .ok (.error err',p) := by
  rw [Desync.desyncSend]
  cases h with
  | inl hraw =>
    rw [hraw]
    exact ⟨err,rfl⟩
  | inr hcontrol =>
    rw [hcontrol.1]
    simp only [hcontrol.2,ne_eq,reduceCtorEq,not_false_eq_true,if_true]
    exact ⟨_,rfl⟩

/-- How a call goes on after the operations that come before the sending. -/
theorem outcomes (sock : Socket) (isIPv6 : Bool) :
    (∃ err, sock.getRawConn = some err ∨ sock.getRawConn = none ∧ sock.control = some err) ∨
      TTLUnreadable sock isIPv6 ∨
      sock.getRawConn = none ∧ sock.control = none ∧
        ∃ ttl, sock.getsockoptInt (ttlLevelOption isIPv6).1 (ttlLevelOption isIPv6).2 = .ok ttl := by
  cases hraw : sock.getRawConn with
  | some err => exact .inl ⟨err,.inl rfl⟩
  | none =>
    cases hcontrol : sock.control with
    | some err => exact .inl ⟨err,.inr ⟨rfl,rfl⟩⟩
    | none =>
      cases httl : sock.getsockoptInt (ttlLevelOption isIPv6).1 (ttlLevelOption isIPv6).2 with
      | error err => exact .inr (.inl ⟨hraw,hcontrol,err,httl⟩)
      | ok ttl => exact .inr (.inr ⟨rfl,rfl,ttl,rfl⟩)

end Results

/-- Success is reported only for a record that has been sent, except when the default TTL cannot be
read: then nothing is sent. With a server name that lies in the record the call returns. -/
theorem reportsSuccess_iff (sock : Socket) (isIPv6 : Bool) (record : Bytes)
    (sniStart sniLen fakeTTL fakeSleep : ℤ) :
    (ReportsSuccess sock isIPv6 record sniStart sniLen fakeTTL fakeSleep ↔
      ¬ TTLUnreadable sock isIPv6) ∧
    (0 ≤ sniStart → sniStart ≤ record.length → ∀ p, ∃ res,
      desyncSend sock isIPv6 record sniStart sniLen fakeTTL fakeSleep p = .ok res) := by
  refine ⟨⟨fun hreports hunreadable => ?_,fun hreadable p q hrun => ?_⟩,fun hstart hend p => ?_⟩
  · obtain ⟨-,-,err,herr⟩ := id hunreadable
    obtain ⟨ttl,httl⟩ := (hreports ⟨fun _ _ => none,[]⟩ _ (hunreadable.desyncSend _)).defaultTTL
    rw [herr] at httl
    cases httl
  · obtain ⟨err,herr⟩|hunreadable|⟨hraw,hcontrol,ttl,httl⟩ := outcomes sock isIPv6
    · obtain ⟨err',herr'⟩ := desyncSend_fails herr p
      cases hrun.symm.trans herr'
    · exact absurd hunreadable hreadable
    · rw [desyncSend_eq_sendParts hraw hcontrol httl] at hrun
      exact ⟨hraw,hcontrol,⟨ttl,httl⟩,sendParts_ok hrun⟩
  · obtain ⟨err,herr⟩|hunreadable|⟨hraw,hcontrol,ttl,httl⟩ := outcomes sock isIPv6
    · obtain ⟨err',herr'⟩ := desyncSend_fails herr p
      exact ⟨_,herr'⟩
    · exact ⟨_,hunreadable.desyncSend p⟩
    · rw [desyncSend_eq_sendParts hraw hcontrol httl]
      exact sendParts_returns hstart hend p

/-- A socket whose operations succeed, except that the default TTL is read as given. -/
def plainSocket (ttl : Except String ℤ) : Socket where
  getRawConn := none
  control := none
  getsockoptInt _ _ := ttl
  sendWithNoise noise := Fragment.write noise.realData
  sendWithNoise_returns noise p := by
    rw [Fragment.write,perform]
    split <;> exact ⟨_,rfl⟩
  sendWithNoise_sent noise := write_sent noise.realData

theorem reportsSuccess_iff_plain :
    ReportsSuccess (plainSocket (.ok 64)) false [22,3,1,0,1,0] 2 1 3 0 :=
  (reportsSuccess_iff (plainSocket (.ok 64)) false [22,3,1,0,1,0] 2 1 3 0).1.mpr
    fun ⟨_,_,_,h⟩ => by cases h

/-- The socket refuses to tell its TTL; the call returns nil and the connection has got nothing. -/
theorem unreadable_ttl_sends_nothing :
    desyncSend (plainSocket (.error "protocol not available")) false [22,3,1,0,1,0] 2 1 3 0
      ⟨fun _ _ => none,[]⟩ = .ok (.ok (),⟨fun _ _ => none,[]⟩) ∧
    ¬ ReportsSuccess (plainSocket (.error "protocol not available")) false [22,3,1,0,1,0] 2 1 3 0 :=
  have hrun := TTLUnreadable.desyncSend ⟨rfl,rfl,_,rfl⟩ _
  ⟨hrun,fun h => by
    obtain ⟨ttl,httl⟩ := (h _ _ hrun).defaultTTL
    cases httl⟩

/-- A socket that tells its TTL sends the record as it is. -/
theorem desyncSend_sent {sock : Socket} {isIPv6 : Bool} (h : ¬ TTLUnreadable sock isIPv6)
    (record : Bytes) (sniStart sniLen fakeTTL fakeSleep : ℤ) :
    Sent (desyncSend sock isIPv6 record sniStart sniLen fakeTTL fakeSleep) record := by
  intro p a q hrun
  obtain ⟨err,herr⟩|hunreadable|⟨hraw,hcontrol,ttl,httl⟩ := outcomes sock isIPv6
  · obtain ⟨err',herr'⟩ := desyncSend_fails herr p
    cases hrun.symm.trans herr'
  · exact absurd hunreadable h
  · rw [desyncSend_eq_sendParts hraw hcontrol httl] at hrun
    obtain ⟨cut,es,-,hwire,hlog⟩ := sendParts_ok hrun
    refine ⟨es++[.write (record.drop cut)],by rw [hlog,List.append_assoc],?_⟩
    rw [wire_append,hwire,wire_cons,wire_nil,List.append_nil]
    exact List.take_append_drop cut record

/-- The network of a tunnel that sends its ClientHellos through such a socket. -/
def throughSocket {σ : Type} (net : Net σ) (sock : Socket)
    (h : ∀ isIPv6, ¬ TTLUnreadable sock isIPv6) : Net σ where
  world := net.world
  dialTCPTimeout := net.dialTCPTimeout
  getFakeTTL := net.getFakeTTL
  desyncSend isIPv6 record sniStart sniLen fakeTTL fakeSleep :=
    desyncSend sock isIPv6 record sniStart sniLen fakeTTL fakeSleep
  desyncSend_sent isIPv6 record sniStart sniLen fakeTTL fakeSleep :=
    desyncSend_sent (h isIPv6) record sniStart sniLen fakeTTL fakeSleep

end Desync
end Enimul
