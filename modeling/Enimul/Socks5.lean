import Enimul.DoHDial
import Enimul.UDPSession

/-! SOCKS5 addresses and UDP packets.
An address says its own length in its first bytes, so that it is cut off the head of a packet
without a separator. The packet connection decodes its whole buffer, which is reused: what stands
behind a datagram is left from earlier ones. -/
namespace Enimul
namespace Socks5

open GoSlice GoText NetIP Resolve DoHDial UDPSession

def atypIPv4 : UInt8 := 1
def atypDomainName : UInt8 := 3
def atypIPv6 : UInt8 := 4

/-- `Addr.Valid`, which accepts every type that it does not know. -/
def valid (a : Bytes) : Bool :=
  if a.length < 1+1+2 then false
  else if a.getD 0 0 = atypDomainName then 1+1+(a.getD 1 0).toNat+2 ≤ a.length
  else if a.getD 0 0 = atypIPv4 then 1+4+2 ≤ a.length
  else if a.getD 0 0 = atypIPv6 then 1+16+2 ≤ a.length
  else true

def string (a : Bytes) : Checked Str := do
  if ¬ valid a then return []
  let atyp ← index a 0
  if atyp = atypDomainName then
    let hostLen ← index a 1
    let host ← slice a 2 (2+hostLen.toNat)
    let port ← bigEndianUint16 (← sliceFrom a (2+hostLen.toNat))
    return joinHostPort host (formatInt port)
  else if atyp = atypIPv4 then
    let ip ← slice a 1 (1+4)
    let port ← bigEndianUint16 (← sliceFrom a (1+4))
    return joinHostPort (ipString ip) (formatInt port)
  else if atyp = atypIPv6 then
    let ip ← slice a 1 (1+16)
    let port ← bigEndianUint16 (← sliceFrom a (1+16))
    return joinHostPort (ipString ip) (formatInt port)
  else return joinHostPort [] []

/-- `Addr.UDPAddr`, none for nil. -/
def udpAddr (a : Bytes) : Checked (Option UDPAddr) := do
  if ¬ valid a then return none
  let atyp ← index a 0
  if atyp = atypDomainName then return none
  else if atyp = atypIPv4 then
    let ip ← slice a 1 (1+4)
    let port ← bigEndianUint16 (← sliceFrom a (1+4))
    return some ⟨ip,port⟩
  else if atyp = atypIPv6 then
    let ip ← slice a 1 (1+16)
    let port ← bigEndianUint16 (← sliceFrom a (1+16))
    return some ⟨ip,port⟩
  else return some ⟨[],0⟩

/-- The length of an address, as its first bytes say it. -/
def addrLen : Bytes → Option ℕ
  | [] => none
  | atyp::rest =>
    if atyp = atypDomainName then rest.head?.map fun n => 1+1+n.toNat+2
    else if atyp = atypIPv4 then some (1+4+2)
    else if atyp = atypIPv6 then some (1+16+2)
    else none

/-- `SplitAddr`, none for nil. -/
def splitAddr (b : Bytes) : Option Bytes :=
  (addrLen b).bind fun n => if b.length < n then none else some (b.take n)

/-- `netip.Addr.AsSlice`. -/
def asSlice : Addr → Bytes
  | .invalid => []
  | .v4 b => bytesOf 4 b.toNat
  | .v6 b _ => bytesOf 16 b.toNat

/-- The length of the name is cut to a byte. -/
def serializeAddr (domainName : Str) (dstIP : Addr) (dstPort : ℕ) : Bytes :=
  if domainName ≠ [] then
    [atypDomainName,UInt8.ofNat domainName.length]++domainName++putUint16 dstPort
  else if dstIP.is4 then [atypIPv4]++asSlice dstIP++putUint16 dstPort
  else [atypIPv6]++asSlice dstIP++putUint16 dstPort

/-- The address and the payload, which is a part of the packet. -/
def decodeUDPPacket (packet : Bytes) : Except String (Bytes × Bytes) :=
  if packet.length < 5 then .error "insufficient length of packet"
  else if packet.take 2 ≠ [0,0] then .error "reserved fields should be zero"
  else if packet.getD 2 0 ≠ 0 then .error "discarding fragmented payload"
  else match splitAddr (packet.drop 3) with
    | none => .error "socks5 UDP addr is nil"
    | some addr => .ok (addr,packet.drop (3+addr.length))

/-- None is the nil address. -/
def encodeUDPPacket (addr : Option Bytes) (payload : Bytes) : Except String Bytes :=
  match addr with
  | none => .error "address is invalid"
  | some addr => .ok ([0,0,0]++addr++payload)

/-- `ReadFrom` of the packet connection, for a datagram that its socket puts into the buffer:
the number of bytes and the source, and the buffer. -/
def readFrom (b datagram : Bytes) : Checked (Except String (ℤ × UDPAddr) × Bytes) := do
  let n := min datagram.length b.length
  let b := overwrite b datagram
  match decodeUDPPacket b with
  | .error err => return (.error err,b)
  | .ok (addr,payload) =>
    match ← udpAddr addr with
    | none =>
      let name ← string addr
      return (.error ("convert "++text name++" to UDPAddr is nil"),b)
    | some source => return (.ok ((n : ℤ)-addr.length-3,source),overwrite b payload)

/-- `buf[:n]` for an `int`: a negative bound is a fault, which shows its absolute value. -/
def upTo (buf : Bytes) (n : ℤ) : Checked Bytes :=
  if n < 0 then .error (.slice 0 n.natAbs buf.length) else sliceTo buf n.toNat

/-- What a round of `copyPacketData` does with a datagram. -/
inductive Round
  | sent (p : Bytes)
  | dropped
  | failed (err : String)
  deriving DecidableEq, Repr

/-- A round of `copyPacketData` from the proxy, with the filter of the session in between. -/
def receive (pc : SymmetricNATPacketConn) (buf datagram : Bytes) :
    Checked (Round × SymmetricNATPacketConn × Bytes) := do
  let (r,buf) ← readFrom buf datagram
  match r with
  | .error err => return (.failed err,pc,buf)
  | .ok (n,source) =>
    if (pc.accept source).1 then
      let p ← upTo buf n
      return (.sent p,(pc.accept source).2,buf)
    else return (.dropped,(pc.accept source).2,buf)

/-- The loop of `copyPacketData`: what it has sent when the datagrams are used up, or when it
ends with an error. -/
def relay : SymmetricNATPacketConn → Bytes → List Bytes → Checked (List Bytes × Option String)
  | _, _, [] => return ([],none)
  | pc, buf, datagram::datagrams => do
    let (round,pc,buf) ← receive pc buf datagram
    match round with
    | .sent p =>
      let (ps,err) ← relay pc buf datagrams
      return (p::ps,err)
    | .dropped => relay pc buf datagrams
    | .failed err => return ([],some err)

/-- A packet for an IP address, as the session has it in its metadata. -/
structure Packet where
  ip : Addr
  port : ℕ
  payload : Bytes
  valid : ip ≠ .invalid
  port_lt : port < 65536

/-- What `WriteTo` sends to the proxy, and what a proxy sends back. -/
def Packet.writeTo (p : Packet) : Except String Bytes :=
  encodeUDPPacket (some (serializeAddr [] p.ip p.port)) p.payload

def Packet.source (p : Packet) : UDPAddr := ⟨asSlice p.ip,p.port⟩

/-- The payloads that the filter of the session lets through. -/
def passed : SymmetricNATPacketConn → List Packet → List Bytes
  | _, [] => []
  | pc, p::ps =>
    if (pc.accept p.source).1 then p.payload::passed (pc.accept p.source).2 ps
    else passed (pc.accept p.source).2 ps

section Addresses

/-- An address is well formed if it has the length that it says. -/
def IsAddr (a : Bytes) : Prop := addrLen a = some a.length

instance (a : Bytes) : Decidable (IsAddr a) := inferInstanceAs (Decidable (_ = _))

theorem addrLen_append {a : Bytes} (h : 2 ≤ a.length) (rest : Bytes) :
    addrLen (a++rest) = addrLen a := by
  rcases a with _ | ⟨atyp,_ | ⟨n,a⟩⟩
  · simp at h
  · simp at h
  · rfl

theorem four_le_addrLen {b : Bytes} {n : ℕ} (h : addrLen b = some n) : 4 ≤ n := by
  cases b with
  | nil => cases h
  | cons atyp rest =>
    rw [addrLen] at h
    split_ifs at h
    · obtain ⟨k,-,rfl⟩ := Option.map_eq_some_iff.mp h
      omega
    · cases h
      omega
    · cases h
      omega

theorem IsAddr.four_le {a : Bytes} (h : IsAddr a) : 4 ≤ a.length := four_le_addrLen h

theorem IsAddr.addrLen_append {a : Bytes} (h : IsAddr a) (rest : Bytes) :
    addrLen (a++rest) = some a.length := by
  have hlen := h.four_le
  rw [Socks5.addrLen_append (by omega),h]

/-- `SplitAddr` cuts off exactly the well-formed addresses. -/
theorem splitAddr_eq_some {b a : Bytes} :
    splitAddr b = some a ↔ IsAddr a ∧ ∃ rest, b = a++rest := by
  constructor
  · intro h
    obtain ⟨n,hn,hcut⟩ := Option.bind_eq_some_iff.mp h
    have hlong : ¬ b.length < n := fun hshort => by simp [hshort] at hcut
    rw [if_neg hlong,Option.some.injEq] at hcut
    subst hcut
    have hfour := four_le_addrLen hn
    have hlen : (b.take n).length = n := by
      rw [List.length_take]
      omega
    refine ⟨?_,b.drop n,(List.take_append_drop n b).symm⟩
    rw [IsAddr,hlen,← hn]
    conv_rhs => rw [← List.take_append_drop n b]
    rw [Socks5.addrLen_append (by omega)]
  · rintro ⟨ha,rest,rfl⟩
    rw [splitAddr,ha.addrLen_append,Option.bind_some,if_neg (by simp),List.take_left]

theorem isAddr_ipv4 (body : Bytes) : IsAddr (atypIPv4::body) ↔ body.length = 4+2 := by
  rw [IsAddr,addrLen,if_neg (by decide),if_pos rfl,Option.some.injEq,List.length_cons]
  omega

theorem isAddr_ipv6 (body : Bytes) : IsAddr (atypIPv6::body) ↔ body.length = 16+2 := by
  rw [IsAddr,addrLen,if_neg (by decide),if_neg (by decide),if_pos rfl,Option.some.injEq,
    List.length_cons]
  omega

theorem isAddr_domain (n : UInt8) (body : Bytes) :
    IsAddr (atypDomainName::n::body) ↔ body.length = n.toNat+2 := by
  rw [IsAddr,addrLen,if_pos rfl,List.head?_cons,Option.map_some,Option.some.injEq,List.length_cons,
    List.length_cons]
  omega

theorem exists_pair {b : Bytes} (h : b.length = 2) : ∃ hi lo, b = [hi,lo] := List.length_eq_two.mp h

/-- A field with the two bytes of a port behind it. -/
theorem exists_port {b : Bytes} {k : ℕ} (hb : b.length = k+2) :
    ∃ c hi lo, b = c++[hi,lo] ∧ c.length = k := by
  obtain ⟨hi,lo,hpair⟩ := exists_pair (b := b.drop k) (by simp [hb])
  exact ⟨b.take k,hi,lo,by rw [← hpair,List.take_append_drop],by simp [hb]⟩

/-- The three forms of a well-formed address. -/
theorem IsAddr.forms {a : Bytes} (h : IsAddr a) :
    (∃ n name hi lo, a = atypDomainName::n::(name++[hi,lo]) ∧ name.length = n.toNat) ∨
    (∃ ip hi lo, a = atypIPv4::(ip++[hi,lo]) ∧ ip.length = 4) ∨
    ∃ ip hi lo, a = atypIPv6::(ip++[hi,lo]) ∧ ip.length = 16 := by
  cases a with
  | nil => cases h
  | cons atyp rest =>
    by_cases hdomain : atyp = atypDomainName
    · subst hdomain
      cases rest with
      | nil => cases h
      | cons n rest =>
        obtain ⟨name,hi,lo,rfl,hname⟩ := exists_port ((isAddr_domain n rest).mp h)
        exact .inl ⟨n,name,hi,lo,rfl,hname⟩
    by_cases h4 : atyp = atypIPv4
    · subst h4
      obtain ⟨ip,hi,lo,rfl,hip⟩ := exists_port ((isAddr_ipv4 rest).mp h)
      exact .inr (.inl ⟨ip,hi,lo,rfl,hip⟩)
    by_cases h6 : atyp = atypIPv6
    · subst h6
      obtain ⟨ip,hi,lo,rfl,hip⟩ := exists_port ((isAddr_ipv6 rest).mp h)
      exact .inr (.inr ⟨ip,hi,lo,rfl,hip⟩)
    · rw [IsAddr,addrLen,if_neg hdomain,if_neg h4,if_neg h6] at h
      cases h

/-- The field behind the type, and the port behind the field. -/
theorem fields_of_head (head : Bytes) {ip : Bytes} (hi lo : UInt8) {k n : ℕ}
    (hk : head.length = k) (hip : ip.length = n) :
    slice (head++(ip++[hi,lo])) k (k+n) = .ok ip ∧
      sliceFrom (head++(ip++[hi,lo])) (k+n) = .ok [hi,lo] := by
  subst hk hip
  constructor
  · rw [slice_of_le (by omega) (by simp),List.drop_left,Nat.add_sub_cancel_left,List.take_left]
  · rw [sliceFrom_of_le (by simp),← List.drop_drop,List.drop_left,List.drop_left]

theorem bigEndianUint16_pair (hi lo : UInt8) :
    bigEndianUint16 [hi,lo] = .ok (hi.toNat*256+lo.toNat) := rfl

theorem valid_of_isAddr {a : Bytes} (h : IsAddr a) : valid a = true := by
  obtain ⟨n,name,hi,lo,rfl,hname⟩ | ⟨ip,hi,lo,rfl,hip⟩ | ⟨ip,hi,lo,rfl,hip⟩ := h.forms
  · simp only [valid,List.length_cons,List.length_append,List.length_nil,hname,List.getD_cons_zero,
      List.getD_cons_succ,if_true]
    rw [if_neg (by omega)]
    exact decide_eq_true (by omega)
  · simp [valid,hip,atypDomainName,atypIPv4]
  · simp [valid,hip,atypDomainName,atypIPv4,atypIPv6]

/-- An IP address is read back as it stands in the address. -/
theorem udpAddr_ip {atyp : UInt8} {ip : Bytes} (hi lo : UInt8)
    (h : atyp = atypIPv4 ∧ ip.length = 4 ∨ atyp = atypIPv6 ∧ ip.length = 16) :
    IsAddr (atyp::(ip++[hi,lo])) ∧
      udpAddr (atyp::(ip++[hi,lo])) = .ok (some ⟨ip,(hi.toNat*256+lo.toNat : ℕ)⟩) := by
  have haddr : IsAddr (atyp::(ip++[hi,lo])) := by
    obtain ⟨rfl,hip⟩ | ⟨rfl,hip⟩ := h
    · exact (isAddr_ipv4 _).mpr (by simp [hip])
    · exact (isAddr_ipv6 _).mpr (by simp [hip])
  refine ⟨haddr,?_⟩
  have hvalid := valid_of_isAddr haddr
  have hatyp : index (atyp::(ip++[hi,lo])) 0 = .ok atyp := rfl
  rw [udpAddr,if_neg (by simpa using hvalid),hatyp]
  obtain ⟨rfl,hip⟩ | ⟨rfl,hip⟩ := h
  · have hslice : slice (atypIPv4::(ip++[hi,lo])) 1 (1+4) = .ok ip :=
      (fields_of_head [atypIPv4] hi lo rfl hip).1
    have hport : sliceFrom (atypIPv4::(ip++[hi,lo])) (1+4) = .ok [hi,lo] :=
      (fields_of_head [atypIPv4] hi lo rfl hip).2
    rw [ok_bind,if_neg (by decide),if_pos rfl,hslice,ok_bind,hport,ok_bind]
    rfl
  · have hslice : slice (atypIPv6::(ip++[hi,lo])) 1 (1+16) = .ok ip :=
      (fields_of_head [atypIPv6] hi lo rfl hip).1
    have hport : sliceFrom (atypIPv6::(ip++[hi,lo])) (1+16) = .ok [hi,lo] :=
      (fields_of_head [atypIPv6] hi lo rfl hip).2
    rw [ok_bind,if_neg (by decide),if_neg (by decide),if_pos rfl,hslice,ok_bind,hport,ok_bind]
    rfl

/-- A name is no UDP address, but has a text. -/
theorem udpAddr_domain {n hi lo : UInt8} {name : Bytes} (h : name.length = n.toNat) :
    udpAddr (atypDomainName::n::(name++[hi,lo])) = .ok none ∧
      ∃ host, string (atypDomainName::n::(name++[hi,lo])) = .ok host := by
  have haddr : IsAddr (atypDomainName::n::(name++[hi,lo])) :=
    (isAddr_domain n _).mpr (by simp [h])
  have hvalid := valid_of_isAddr haddr
  have hatyp : index (atypDomainName::n::(name++[hi,lo])) 0 = .ok atypDomainName := rfl
  have hn : index (atypDomainName::n::(name++[hi,lo])) 1 = .ok n := rfl
  have hslice : slice (atypDomainName::n::(name++[hi,lo])) 2 (2+n.toNat) = .ok name :=
    (fields_of_head [atypDomainName,n] hi lo rfl h).1
  have hport : sliceFrom (atypDomainName::n::(name++[hi,lo])) (2+n.toNat) = .ok [hi,lo] :=
    (fields_of_head [atypDomainName,n] hi lo rfl h).2
  constructor
  · rw [udpAddr,if_neg (by simpa using hvalid),hatyp]
    rfl
  · rw [string,if_neg (by simpa using hvalid),hatyp,ok_bind,if_pos rfl,hn,ok_bind,hslice,ok_bind,
      hport,ok_bind]
    exact ⟨_,rfl⟩

/-- What is cut off a packet is converted, or has a text for the error. -/
theorem udpAddr_of_isAddr {a : Bytes} (h : IsAddr a) :
    (∃ source, udpAddr a = .ok (some source)) ∨
      udpAddr a = .ok none ∧ ∃ host, string a = .ok host := by
  obtain ⟨n,name,hi,lo,rfl,hname⟩ | ⟨ip,hi,lo,rfl,hip⟩ | ⟨ip,hi,lo,rfl,hip⟩ := h.forms
  · exact .inr (udpAddr_domain hname)
  · exact .inl ⟨_,(udpAddr_ip hi lo (.inl ⟨rfl,hip⟩)).2⟩
  · exact .inl ⟨_,(udpAddr_ip hi lo (.inr ⟨rfl,hip⟩)).2⟩

theorem asSlice_length (ip : Addr) : (asSlice ip).length = ip.bitLen/8 := by
  cases ip <;> simp [asSlice,Addr.bitLen,bytesOf_length]

/-- A name of more than 255 bytes and an invalid address are not serialised well. -/
theorem isAddr_serializeAddr {domainName : Str} {dstIP : Addr} {dstPort : ℕ} :
    IsAddr (serializeAddr domainName dstIP dstPort) ↔
      if domainName ≠ [] then domainName.length ≤ 255 else dstIP ≠ .invalid := by
  rw [IsAddr,serializeAddr]
  by_cases hname : domainName = []
  · cases dstIP <;>
      simp [hname,Addr.is4,asSlice,addrLen,bytesOf_length,atypIPv4,atypIPv6,atypDomainName]
  · simp only [addrLen,List.cons_append,List.nil_append,if_true,List.head?_cons,
      Option.map_some,Option.some.injEq,List.length_cons,List.length_append,putUint16_length,
      UInt8.toNat_ofNat',ne_eq,hname,not_false_eq_true]
    omega

end Addresses

section Packets

variable {packet addr payload : Bytes}

/-- A packet is accepted exactly if it is the encoding of a well-formed address and a payload. -/
theorem decodeUDPPacket_eq_ok :
    decodeUDPPacket packet = .ok (addr,payload) ↔
      IsAddr addr ∧ encodeUDPPacket (some addr) payload = .ok packet := by
  rw [encodeUDPPacket,Except.ok.injEq]
  constructor
  · intro h
    rw [decodeUDPPacket] at h
    split_ifs at h with hlen hzero hfrag
    rw [not_not] at hzero hfrag
    cases hsplit : splitAddr (packet.drop 3) with
    | none => simp [hsplit] at h
    | some a =>
      simp only [hsplit,Except.ok.injEq,Prod.mk.injEq] at h
      obtain ⟨rfl,rfl⟩ := h
      obtain ⟨ha,rest,hrest⟩ := splitAddr_eq_some.mp hsplit
      refine ⟨ha,?_⟩
      have hhead : packet.take 3 = [0,0,0] := by
        rw [List.take_succ_eq_append_getElem (by omega),hzero]
        rw [List.getD_eq_getElem?_getD,List.getElem?_eq_getElem (by omega),Option.getD_some] at hfrag
        rw [hfrag]
        rfl
      rw [← List.drop_drop,hrest,List.drop_left,List.append_assoc,← hrest,← hhead,
        List.take_append_drop]
  · rintro ⟨ha,rfl⟩
    have hlen := ha.four_le
    have hsplit : splitAddr (addr++payload) = some addr := splitAddr_eq_some.mpr ⟨ha,payload,rfl⟩
    rw [decodeUDPPacket,if_neg (by simp; omega),if_neg (by simp),if_neg (by simp)]
    simp [hsplit,Nat.add_comm 3]

theorem overwrite_of_le {b datagram : Bytes} (h : datagram.length ≤ b.length) :
    overwrite b datagram = datagram++b.drop datagram.length := by
  rw [overwrite,List.take_of_length_le h]

variable {pc : SymmetricNATPacketConn} {buf datagram : Bytes} {source : UDPAddr}

theorem readFrom_of_encoded (hfit : datagram.length ≤ buf.length) (haddr : IsAddr addr)
    (hbuf : datagram++buf.drop datagram.length = [0,0,0]++addr++payload)
    (hsource : udpAddr addr = .ok (some source)) :
    readFrom buf datagram =
      .ok (.ok ((datagram.length : ℤ)-addr.length-3,source),overwrite ([0,0,0]++addr++payload) payload) := by
  have hdecode : decodeUDPPacket ([0,0,0]++addr++payload) = .ok (addr,payload) :=
    decodeUDPPacket_eq_ok.mpr ⟨haddr,rfl⟩
  simp only [readFrom,overwrite_of_le hfit,hbuf,hdecode,hsource,Nat.min_eq_left hfit,ok_bind,
    pure_eq_ok]

/-- `ReadFrom` itself never panics. It takes the address from the buffer, which may hold more of
it than the datagram has. -/
theorem readFrom_cases (hfit : datagram.length ≤ buf.length) :
    (∃ err buf', readFrom buf datagram = .ok (.error err,buf')) ∨
      ∃ addr payload source, IsAddr addr ∧ udpAddr addr = .ok (some source) ∧
        datagram++buf.drop datagram.length = [0,0,0]++addr++payload := by
  have hover := overwrite_of_le hfit
  cases hdecode : decodeUDPPacket (datagram++buf.drop datagram.length) with
  | error err =>
    refine .inl ⟨err,datagram++buf.drop datagram.length,?_⟩
    simp only [readFrom,hover,hdecode,pure_eq_ok]
  | ok r =>
    obtain ⟨addr,payload⟩ := r
    obtain ⟨haddr,hpacket⟩ := decodeUDPPacket_eq_ok.mp hdecode
    obtain ⟨source,hsource⟩ | ⟨hnone,host,hhost⟩ := udpAddr_of_isAddr haddr
    · exact .inr ⟨addr,payload,source,haddr,hsource,(Except.ok.inj hpacket).symm⟩
    · refine .inl ⟨"convert "++text host++" to UDPAddr is nil",datagram++buf.drop datagram.length,?_⟩
      simp only [readFrom,hover,hdecode,hnone,hhost,ok_bind,pure_eq_ok]

theorem upTo_overwrite {b : Bytes} {n : ℤ} (hn : 0 ≤ n) (hle : n.toNat ≤ payload.length)
    (hfit : payload.length ≤ b.length) :
    upTo (overwrite b payload) n = .ok (payload.take n.toNat) := by
  rw [upTo,if_neg (by omega),overwrite_of_le hfit,sliceTo_of_le (by simp; omega),
    List.take_append_of_le_length hle]

/-- A round with a header in the buffer, whether the datagram has all of it or not. -/
theorem receive_of_encoded (hfit : datagram.length ≤ buf.length) (haddr : IsAddr addr)
    (hbuf : datagram++buf.drop datagram.length = [0,0,0]++addr++payload)
    (hsource : udpAddr addr = .ok (some source)) :
    receive pc buf datagram =
      if (pc.accept source).1 then
        upTo (overwrite ([0,0,0]++addr++payload) payload) ((datagram.length : ℤ)-addr.length-3) >>=
          fun p => .ok (.sent p,(pc.accept source).2,overwrite ([0,0,0]++addr++payload) payload)
      else .ok (.dropped,(pc.accept source).2,overwrite ([0,0,0]++addr++payload) payload) := by
  rw [receive,readFrom_of_encoded hfit haddr hbuf hsource]
  rfl

/-- A round panics exactly if the filter lets the packet through and the datagram ends inside
its header, with the rest of the header left in the buffer. -/
theorem receive_fault_iff (hfit : datagram.length ≤ buf.length) :
    (∃ f, receive pc buf datagram = .error f) ↔
      ∃ addr payload source, IsAddr addr ∧ udpAddr addr = .ok (some source) ∧
        datagram++buf.drop datagram.length = [0,0,0]++addr++payload ∧
        (pc.accept source).1 = true ∧ datagram.length < 3+addr.length := by
  constructor
  · rintro ⟨f,hf⟩
    obtain ⟨err,buf',hread⟩ | ⟨addr,payload,source,haddr,hsource,hbuf⟩ :=
      readFrom_cases hfit
    · rw [receive,hread] at hf
      cases hf
    · refine ⟨addr,payload,source,haddr,hsource,hbuf,?_⟩
      rw [receive_of_encoded hfit haddr hbuf hsource] at hf
      have hlen := congrArg List.length hbuf
      simp only [List.length_append,List.length_drop,List.length_cons,List.length_nil] at hlen
      split at hf
      · rename_i hpass
        refine ⟨hpass,?_⟩
        -- with the whole header in the datagram the bound is inside the payload
        by_contra hlong
        rw [upTo_overwrite (by omega) (by omega) (by simp; omega)] at hf
        cases hf
      · cases hf
  · rintro ⟨addr,payload,source,haddr,hsource,hbuf,hpass,hshort⟩
    rw [receive_of_encoded hfit haddr hbuf hsource,if_pos hpass,upTo,if_pos (by omega)]
    exact ⟨_,rfl⟩

/-- After a reply from 1.2.3.4:53 its first five bytes are enough. -/
theorem receive_fault_iff_cut :
    ∃ f, receive ⟨53,some ⟨[1,2,3,4],53⟩⟩ [9,0,0,1,1,2,3,4,0,53,9,0] [0,0,0,1,1] = .error f :=
  (receive_fault_iff (by decide)).mpr
    ⟨[1,1,2,3,4,0,53],[9,0],⟨[1,2,3,4],53⟩,by decide,rfl,rfl,rfl,by decide⟩

/-- A datagram with its whole header is taken alone, whatever stands behind it. -/
theorem receive_encoded (pc : SymmetricNATPacketConn) (hfit : datagram.length ≤ buf.length) (haddr : IsAddr addr)
    (hsource : udpAddr addr = .ok (some source)) (hd : [0,0,0]++addr++payload = datagram) :
    ∃ buf', buf'.length = buf.length ∧ receive pc buf datagram =
      .ok (if (pc.accept source).1 then .sent payload else .dropped,(pc.accept source).2,buf') := by
  have hbuf : datagram++buf.drop datagram.length =
      [0,0,0]++addr++(payload++buf.drop datagram.length) := by
    rw [← List.append_assoc,hd]
  have hlen := congrArg List.length hd
  simp only [List.length_append,List.length_cons,List.length_nil] at hlen
  have hroom : (payload++buf.drop datagram.length).length ≤
      ([0,0,0]++addr++(payload++buf.drop datagram.length)).length :=
    (List.sublist_append_right _ _).length_le
  refine ⟨overwrite ([0,0,0]++addr++(payload++buf.drop datagram.length))
    (payload++buf.drop datagram.length),?_,?_⟩
  · rw [overwrite_of_le hroom]
    simp only [List.length_append,List.length_drop,List.length_cons,List.length_nil]
    omega
  · have hcount : ((datagram.length : ℤ)-addr.length-3).toNat = payload.length := by omega
    rw [receive_of_encoded hfit haddr hbuf hsource,
      upTo_overwrite (by omega) (by simp [hcount]) hroom,hcount,List.take_left]
    cases (pc.accept source).1 <;> rfl

theorem Packet.isAddr (p : Packet) : IsAddr (serializeAddr [] p.ip p.port) := by
  rw [isAddr_serializeAddr,if_neg (by simp)]
  exact p.valid

theorem Packet.udpAddr (p : Packet) :
    udpAddr (serializeAddr [] p.ip p.port) = .ok (some p.source) := by
  have hport : (UInt8.ofNat (p.port/256)).toNat*256+(UInt8.ofNat p.port).toNat = p.port := by
    have hlt := p.port_lt
    simp only [UInt8.toNat_ofNat']
    omega
  rw [Packet.source,serializeAddr,if_neg (by simp)]
  cases hip : p.ip with
  | invalid => exact absurd hip p.valid
  | v4 b =>
    have h := (udpAddr_ip (UInt8.ofNat (p.port/256)) (UInt8.ofNat p.port)
      (.inl ⟨rfl,bytesOf_length 4 b.toNat⟩)).2
    rw [hport] at h
    exact h
  | v6 b zone =>
    have h := (udpAddr_ip (UInt8.ofNat (p.port/256)) (UInt8.ofNat p.port)
      (.inr ⟨rfl,bytesOf_length 16 b.toNat⟩)).2
    rw [hport] at h
    exact h

/-- From whatever the buffer holds, and however it is reused, the loop passes on exactly the
payloads of the packets that the filter lets through, in their order. -/
theorem relay_passed (packets : List Packet) {datagrams : List Bytes}
    (hsent : packets.mapM Packet.writeTo = .ok datagrams)
    (hfit : ∀ d ∈ datagrams, d.length ≤ buf.length) :
    relay pc buf datagrams = .ok (passed pc packets,none) := by
  induction packets generalizing pc buf datagrams with
  | nil =>
    cases hsent
    rfl
  | cons p ps ih =>
    obtain ⟨rest,hrest,rfl⟩ : ∃ rest, ps.mapM Packet.writeTo = .ok rest ∧
        datagrams = ([0,0,0]++serializeAddr [] p.ip p.port++p.payload)::rest := by
      rw [List.mapM_cons] at hsent
      cases hrest : ps.mapM Packet.writeTo with
      | error err => simp [hrest,Packet.writeTo,encodeUDPPacket,bind,Except.bind] at hsent
      | ok rest =>
        rw [hrest] at hsent
        cases hsent
        exact ⟨rest,rfl,rfl⟩
    obtain ⟨buf',hlen,hround⟩ := receive_encoded pc (hfit _ (List.mem_cons_self)) p.isAddr
      p.udpAddr rfl
    have ih' : relay (pc.accept p.source).2 buf' rest =
        .ok (passed (pc.accept p.source).2 ps,none) := by
      refine ih hrest fun d hd => ?_
      rw [hlen]
      exact hfit d (List.mem_cons_of_mem _ hd)
    rw [relay,hround,ok_bind,passed]
    cases (pc.accept p.source).1 with
    | true => simp [ih']
    | false => simp [ih']

/-- The second packet is from another port, and overwrites a longer one. -/
theorem relay_passed_three :
    relay ⟨53,none⟩ (List.replicate 20 7) [[0,0,0,1,1,2,3,4,0,53,5,6],[0,0,0,1,1,2,3,4,0,54,8],
      [0,0,0,1,1,2,3,4,0,53,9]] = .ok ([[5,6],[9]],none) :=
  relay_passed [⟨.v4 0x01020304,53,[5,6],by simp,by decide⟩,
      ⟨.v4 0x01020304,54,[8],by simp,by decide⟩,⟨.v4 0x01020304,53,[9],by simp,by decide⟩]
    rfl (by decide)

end Packets

end Socks5
end Enimul
