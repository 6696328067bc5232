import Enimul.GoSlice

/-! The ClientHello parser that locates the server name in the first record.
Every index and slice of `parseClientHello` is checked, and its extension loop runs
under a bound. The main result says that on five bytes or more the parser returns,
and that the server name it reports lies inside the record. -/
namespace Enimul
namespace ClientHello

open GoSlice

def tlsRecordTypeHandshake : UInt8 := 0x16
def tlsMajorVersion : UInt8 := 0x3
def tlsRecordHeaderLen : ℕ := 5
def tlsHandshakeHeaderLen : ℕ := 4
def tlsHandshakeTypeClientHello : UInt8 := 0x1
def tlsExtTypeSNI : ℕ := 0x0000
def tlsExtTypeKeyShare : ℕ := 0x0033
def tlsExtTypeECH : ℕ := 0x00fe

/-- The six results of `parseClientHello`; a failed parse still returns what it has read. -/
structure Parsed where
  prtVer : Bytes
  sniStart : ℤ
  sniLen : ℕ
  hasKeyShare : Bool
  hasECH : Bool
  err : Option String
  deriving DecidableEq, Repr

def reject (prtVer : Bytes) (err : String) : Parsed := ⟨prtVer,-1,0,false,false,some err⟩

/-- What the extension loop has found so far. -/
structure Found where
  sniStart : ℤ := -1
  sniLen : ℕ := 0
  hasKeyShare : Bool := false
  hasECH : Bool := false

def Found.result (st : Found) (prtVer : Bytes) (err : Option String) : Parsed :=
  ⟨prtVer,st.sniStart,st.sniLen,st.hasKeyShare,st.hasECH,err⟩

/-- The body of a server_name extension: the start and length of its first host name. -/
def parseServerName (data : Bytes) (extDataStart extLen : ℕ) : Checked (Except String (ℕ × ℕ)) :=
  let extDataEnd := extDataStart+extLen
  if extLen < 2 then
    return .error "malformed SNI extension (too short for list length)"
  else do
    let listLen ← uint16At data extDataStart
    if listLen+2 ≠ extLen then return .error "SNI list length field mismatch" else
    let cursor := extDataStart+2
    if extDataEnd < cursor+3 then return .error "SNI entry too short" else
    let nameType ← index data cursor
    if nameType ≠ 0 then return .error "unsupported SNI name type" else
    let nameLen ← uint16At data (cursor+1)
    let nameStart := cursor+3
    let nameEnd := nameStart+nameLen
    if extDataEnd < nameEnd then return .error "SNI name length exceeds extension" else
    return .ok (nameStart,nameLen)

/-- The loop over the extensions block; the first argument bounds its rounds. -/
def parseExtensions (data prtVer : Bytes) (extensionsEnd : ℕ) :
    ℕ → ℕ → Found → Checked Parsed
  | 0, _, _ => .error .fuel
  | rounds+1, offset, st =>
    if offset+4 ≤ extensionsEnd then do
      let extType ← uint16At data offset
      let extLen ← uint16At data (offset+2)
      let extDataStart := offset+4
      let extDataEnd := extDataStart+extLen
      if extensionsEnd < extDataEnd then
        return st.result prtVer (some "extension length exceeds extensions block")
      else if extType = tlsExtTypeKeyShare then
        parseExtensions data prtVer extensionsEnd rounds extDataEnd {st with hasKeyShare := true}
      else if extType = tlsExtTypeECH then
        parseExtensions data prtVer extensionsEnd rounds extDataEnd {st with hasECH := true}
      else if extType = tlsExtTypeSNI then
        if st.sniStart ≠ -1 then return st.result prtVer (some "duplicate SNI extension")
        else
          match ← parseServerName data extDataStart extLen with
          | .error e => return st.result prtVer (some e)
          | .ok (nameStart,nameLen) =>
            parseExtensions data prtVer extensionsEnd rounds extDataEnd
              {st with sniStart := nameStart, sniLen := nameLen}
      else parseExtensions data prtVer extensionsEnd rounds extDataEnd st
    else return st.result prtVer none

/-- The extensions block, which may be absent. -/
def parseExtensionBlock (data prtVer : Bytes) (offset : ℕ) : Checked Parsed :=
  if data.length < offset+2 then return ⟨prtVer,-1,0,false,false,none⟩
  else do
    let extTotalLen ← uint16At data offset
    let offset := offset+2
    if data.length < offset+extTotalLen then
      return reject prtVer "extensions length exceeds data"
    else parseExtensions data prtVer (offset+extTotalLen) (data.length+1) offset {}

/-- Session id, cipher suites and compression methods, from `offset` on. -/
def parseBody (data prtVer : Bytes) (offset : ℕ) : Checked Parsed :=
  if data.length ≤ offset then return reject prtVer "unexpected end after Random"
  else do
    let sessionIDLen ← index data offset
    let offset := offset+1
    if data.length < offset+sessionIDLen.toNat then
      return reject prtVer "session_id length exceeds data" else
    let offset := offset+sessionIDLen.toNat
    if data.length < offset+2 then return reject prtVer "cannot read cipher_suites length" else
    let csLen ← uint16At data offset
    let offset := offset+2
    if data.length < offset+csLen then return reject prtVer "cipher_suites exceed data" else
    let offset := offset+csLen
    if data.length ≤ offset then
      return reject prtVer "cannot read compression_methods length" else
    let compMethodsLen ← index data offset
    let offset := offset+1
    if data.length < offset+compMethodsLen.toNat then
      return reject prtVer "compression_methods exceed data" else
    parseExtensionBlock data prtVer (offset+compMethodsLen.toNat)

def parseClientHello (data : Bytes) : Checked Parsed := do
  let recordType ← index data 0
  if recordType ≠ tlsRecordTypeHandshake then return reject [] "not a TLS handshake record" else
  let major ← index data 1
  if major ≠ tlsMajorVersion then return reject [] "not a standard TLS record" else
  let recordLen ← uint16At data 3
  if data.length < tlsRecordHeaderLen+recordLen then
    return reject [] "record length exceeds data size" else
  let offset := tlsRecordHeaderLen
  if recordLen < tlsHandshakeHeaderLen then return reject [] "handshake message too short" else
  let msgType ← index data offset
  if msgType ≠ tlsHandshakeTypeClientHello then
    return reject [] ("not a ClientHello handshake (type=" ++ toString msgType.toNat ++ ")") else
  let l₂ ← index data (offset+1)
  let l₁ ← index data (offset+2)
  let l₀ ← index data (offset+3)
  let handshakeLen := l₂.toNat*65536+l₁.toNat*256+l₀.toNat
  if recordLen < handshakeLen+tlsHandshakeHeaderLen then
    return reject [] "handshake length exceeds record length" else
  let offset := offset+tlsHandshakeHeaderLen
  if handshakeLen < 2+32+1 then
    return reject [] "ClientHello too short for mandatory fields" else
  let prtVer ← slice data offset (offset+2)
  parseBody data prtVer (offset+(2+32))

/-- A server name is absent, or it starts at `lo` or later and ends by `hi`. -/
def NameWithin (lo hi : ℕ) (sniStart : ℤ) (sniLen : ℕ) : Prop :=
  (sniStart = -1 ∧ sniLen = 0) ∨ ((lo : ℤ) ≤ sniStart ∧ sniStart+sniLen ≤ hi)

theorem NameWithin.mono {lo hi lo' hi' : ℕ} {a : ℤ} {n : ℕ} (h : NameWithin lo hi a n)
    (hlo : lo' ≤ lo) (hhi : hi ≤ hi') : NameWithin lo' hi' a n := by
  rcases h with h | ⟨h₁,h₂⟩
  · exact Or.inl h
  · exact Or.inr ⟨by omega,by omega⟩

/-- What a successful parse promises about a record of `len` bytes. -/
def Parsed.Sound (r : Parsed) (len : ℕ) : Prop :=
  r.err = none → r.prtVer.length = 2 ∧ NameWithin 58 len r.sniStart r.sniLen

theorem reject_sound (prtVer : Bytes) (err : String) (len : ℕ) :
    (reject prtVer err).Sound len := fun h => by simp [reject] at h

theorem parseServerName_returns (data : Bytes) (start extLen : ℕ)
    (h : start+extLen ≤ data.length) :
    ∃ r, parseServerName data start extLen = .ok r ∧
      ∀ a n, r = .ok (a,n) → start+5 ≤ a ∧ a+n ≤ start+extLen := by
  simp only [parseServerName]
  split
  · exact ⟨_,rfl,by simp⟩
  obtain ⟨listLen,hl,-⟩ := uint16At_of_le (s := data) (i := start) (by omega)
  simp only [hl,ok_bind]
  split
  · exact ⟨_,rfl,by simp⟩
  split
  · exact ⟨_,rfl,by simp⟩
  rw [index_of_lt (show start+2 < data.length by omega),ok_bind]
  split
  · exact ⟨_,rfl,by simp⟩
  obtain ⟨nameLen,hn,-⟩ := uint16At_of_le (s := data) (i := start+2+1) (by omega)
  simp only [hn,ok_bind]
  split
  · exact ⟨_,rfl,by simp⟩
  refine ⟨_,rfl,?_⟩
  intro a n he
  simp only [Except.ok.injEq,Prod.mk.injEq] at he
  omega

/-- The loop returns within its bound: each round moves the offset four bytes on, and
every name it records ends inside the block. -/
theorem parseExtensions_returns (data prtVer : Bytes) (extensionsEnd lo rounds offset : ℕ)
    (st : Found) (hend : extensionsEnd ≤ data.length) (hoff : offset ≤ extensionsEnd)
    (hrounds : extensionsEnd < offset+rounds) (hlo : lo ≤ offset)
    (hst : NameWithin (lo+9) extensionsEnd st.sniStart st.sniLen) :
    ∃ r, parseExtensions data prtVer extensionsEnd rounds offset st = .ok r ∧
      (r.err = none → r.prtVer = prtVer ∧
        NameWithin (lo+9) extensionsEnd r.sniStart r.sniLen) := by
  induction rounds generalizing offset st with
  | zero => omega
  | succ rounds ih =>
    rw [parseExtensions]
    split
    case isFalse => exact ⟨_,rfl,fun _ => ⟨rfl,hst⟩⟩
    obtain ⟨extType,ht,-⟩ := uint16At_of_le (s := data) (i := offset) (by omega)
    obtain ⟨extLen,hl,-⟩ := uint16At_of_le (s := data) (i := offset+2) (by omega)
    simp only [ht,hl,ok_bind]
    split
    · exact ⟨_,rfl,fun h => by simp [Found.result] at h⟩
    split
    · exact ih _ _ (by omega) (by omega) (by omega) hst
    split
    · exact ih _ _ (by omega) (by omega) (by omega) hst
    split
    · split
      · exact ⟨_,rfl,fun h => by simp [Found.result] at h⟩
      obtain ⟨r,hr,hname⟩ := parseServerName_returns data (offset+4) extLen (by omega)
      rw [hr,ok_bind]
      cases r with
      | error e => exact ⟨_,rfl,fun h => by simp [Found.result] at h⟩
      | ok name =>
        obtain ⟨a,n⟩ := name
        have hb := hname a n rfl
        exact ih _ _ (by omega) (by omega) (by omega)
          (Or.inr ⟨by dsimp only; omega,by dsimp only; omega⟩)
    · exact ih _ _ (by omega) (by omega) (by omega) hst

theorem parseExtensionBlock_returns (data prtVer : Bytes) (offset : ℕ) (hoff : 47 ≤ offset)
    (hv : prtVer.length = 2) :
    ∃ r, parseExtensionBlock data prtVer offset = .ok r ∧ r.Sound data.length := by
  simp only [parseExtensionBlock]
  split
  · exact ⟨_,rfl,fun _ => ⟨hv,Or.inl ⟨rfl,rfl⟩⟩⟩
  obtain ⟨extTotalLen,he,-⟩ := uint16At_of_le (s := data) (i := offset) (by omega)
  rw [he,ok_bind]
  split
  · exact ⟨_,rfl,reject_sound _ _ _⟩
  obtain ⟨r,hr,hs⟩ := parseExtensions_returns data prtVer (offset+2+extTotalLen) 49
    (data.length+1) (offset+2) {} (by omega) (by omega) (by omega) (by omega) (Or.inl ⟨rfl,rfl⟩)
  refine ⟨r,hr,fun hn => ?_⟩
  obtain ⟨hp,hw⟩ := hs hn
  exact ⟨by rw [hp,hv],hw.mono (by omega) (by omega)⟩

theorem parseBody_returns (data prtVer : Bytes) (offset : ℕ) (hoff : 43 ≤ offset)
    (hv : prtVer.length = 2) :
    ∃ r, parseBody data prtVer offset = .ok r ∧ r.Sound data.length := by
  simp only [parseBody]
  split
  · exact ⟨_,rfl,reject_sound _ _ _⟩
  rw [index_of_lt (show offset < data.length by omega),ok_bind]
  split
  · exact ⟨_,rfl,reject_sound _ _ _⟩
  split
  · exact ⟨_,rfl,reject_sound _ _ _⟩
  obtain ⟨csLen,hc,-⟩ := uint16At_of_le (s := data)
    (i := offset+1+data[offset].toNat) (by omega)
  rw [hc,ok_bind]
  split
  · exact ⟨_,rfl,reject_sound _ _ _⟩
  split
  · exact ⟨_,rfl,reject_sound _ _ _⟩
  rw [index_of_lt (by omega),ok_bind]
  split
  · exact ⟨_,rfl,reject_sound _ _ _⟩
  exact parseExtensionBlock_returns data prtVer _ (by omega) hv

/-- On five bytes or more the parser returns, and a server name it reports lies in the
record behind at least 58 bytes of fixed fields. -/
theorem parseClientHello_returns (data : Bytes) (hlen : 5 ≤ data.length) :
    ∃ r, parseClientHello data = .ok r ∧ r.Sound data.length := by
  have hr : tlsRecordHeaderLen = 5 := rfl
  have hh : tlsHandshakeHeaderLen = 4 := rfl
  simp only [parseClientHello]
  rw [index_of_lt (show 0 < data.length by omega),ok_bind]
  split
  · exact ⟨_,rfl,reject_sound _ _ _⟩
  rw [index_of_lt (show 1 < data.length by omega),ok_bind]
  split
  · exact ⟨_,rfl,reject_sound _ _ _⟩
  obtain ⟨recordLen,hl,-⟩ := uint16At_of_le (s := data) (i := 3) (by omega)
  rw [hl,ok_bind]
  split
  · exact ⟨_,rfl,reject_sound _ _ _⟩
  split
  · exact ⟨_,rfl,reject_sound _ _ _⟩
  rw [index_of_lt (show tlsRecordHeaderLen < data.length by omega),ok_bind]
  split
  · exact ⟨_,rfl,reject_sound _ _ _⟩
  rw [index_of_lt (show tlsRecordHeaderLen+1 < data.length by omega),ok_bind,
    index_of_lt (show tlsRecordHeaderLen+2 < data.length by omega),ok_bind,
    index_of_lt (show tlsRecordHeaderLen+3 < data.length by omega),ok_bind]
  split
  · exact ⟨_,rfl,reject_sound _ _ _⟩
  split
  · exact ⟨_,rfl,reject_sound _ _ _⟩
  rw [slice_of_le (by omega) (by omega),ok_bind]
  exact parseBody_returns data _ _ (by omega) (by simp; omega)

end ClientHello
end Enimul
