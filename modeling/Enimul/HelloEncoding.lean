import Enimul.ClientHello

/-! A ClientHello as the protocol describes it, and its encoding as one handshake
message in one record. `parseClientHello` reads back the version, the place of the
host name and the presence of a key share from every such encoding. -/
namespace Enimul
namespace HelloEncoding

open GoSlice ClientHello

/-- A server_name extension with one host_name entry, or an extension of another type. -/
inductive Extension
  | serverName (host : Bytes)
  | other (type : UInt16) (body : Bytes) (notServerName : type ≠ 0)

namespace Extension

def type : Extension → ℕ
  | .serverName _ => 0
  | .other t _ _ => t.toNat

def body : Extension → Bytes
  | .serverName host => putUint16 (host.length+3)++(0::(putUint16 host.length++host))
  | .other _ b _ => b

def isServerName : Extension → Bool
  | .serverName _ => true
  | .other _ _ _ => false

def encode (e : Extension) : Bytes := putUint16 e.type++(putUint16 e.body.length++e.body)

theorem type_lt (e : Extension) : e.type < 65536 := by
  cases e with
  | serverName host => simp [type]
  | other t b h => exact t.toNat_lt

@[simp] theorem encode_length (e : Extension) : e.encode.length = 4+e.body.length := by
  simp [encode]; omega

end Extension

def extensionBytes (es : List Extension) : Bytes := es.flatMap Extension.encode

@[simp] theorem extensionBytes_cons (e : Extension) (es : List Extension) :
    extensionBytes (e::es) = e.encode++extensionBytes es := rfl

theorem length_le_extensionBytes (es : List Extension) :
    4*es.length ≤ (extensionBytes es).length := by
  induction es with
  | nil => simp
  | cons e es ih =>
    simp only [extensionBytes_cons,List.length_append,List.length_cons,Extension.encode_length]
    omega

/-- The fields that precede the extensions. -/
def fixedFields (version random sessionID cipherSuites compression : Bytes) : Bytes :=
  version++(random++(UInt8.ofNat sessionID.length::(sessionID++(putUint16 cipherSuites.length++
    (cipherSuites++(UInt8.ofNat compression.length::compression))))))

def extensionBlock : Option (List Extension) → Bytes
  | none => []
  | some es => putUint16 (extensionBytes es).length++extensionBytes es

/-- A ClientHello that fits in one record. -/
structure Hello where
  recordMinor : UInt8
  version : Bytes
  random : Bytes
  sessionID : Bytes
  cipherSuites : Bytes
  compression : Bytes
  extensions : Option (List Extension)
  version_length : version.length = 2
  random_length : random.length = 32
  sessionID_length : sessionID.length ≤ 255
  compression_length : compression.length ≤ 255
  oneServerName : ((extensions.getD []).filter Extension.isServerName).length ≤ 1
  fits : 4+((fixedFields version random sessionID cipherSuites compression).length+
    (extensionBlock extensions).length) < 65536

namespace Hello

variable (h : Hello)

def fixed : Bytes :=
  fixedFields h.version h.random h.sessionID h.cipherSuites h.compression

def message : Bytes := h.fixed++extensionBlock h.extensions

/-- One record holding one handshake message with a 24-bit length. -/
def encode : Bytes :=
  [tlsRecordTypeHandshake,tlsMajorVersion,h.recordMinor]++(putUint16 (4+h.message.length)++
    (tlsHandshakeTypeClientHello::0::(putUint16 h.message.length++h.message)))

/-- Offset of the first extension in the encoding. -/
def extensionsStart : ℕ := 9+h.fixed.length+2

end Hello

/-- The extension loop's state after one encoded extension at `pos`. -/
def Extension.record (pos : ℕ) (st : Found) (e : Extension) : Found :=
  if e.type = tlsExtTypeKeyShare then {st with hasKeyShare := true}
  else if e.type = tlsExtTypeECH then {st with hasECH := true}
  else match e with
    | .serverName host => {st with sniStart := (pos+9 : ℕ), sniLen := host.length}
    | .other _ _ _ => st

theorem Extension.record_serverName (pos : ℕ) (st : Found) (host : Bytes) :
    (Extension.serverName host).record pos st =
      {st with sniStart := (pos+9 : ℕ), sniLen := host.length} := rfl

theorem Extension.record_name (pos : ℕ) (st : Found) {t : UInt16} {b : Bytes} (h : t ≠ 0) :
    ((Extension.other t b h).record pos st).sniStart = st.sniStart ∧
      ((Extension.other t b h).record pos st).sniLen = st.sniLen := by
  rw [record]
  split
  · exact ⟨rfl,rfl⟩
  · split <;> exact ⟨rfl,rfl⟩

theorem Extension.record_hasKeyShare (pos : ℕ) (st : Found) (e : Extension) :
    (e.record pos st).hasKeyShare =
      (st.hasKeyShare || decide (e.type = tlsExtTypeKeyShare)) := by
  unfold record
  split
  · simp [*]
  · rename_i hk
    split
    · simp [hk]
    · cases e <;> simp [hk]

theorem Extension.record_hasECH (pos : ℕ) (st : Found) (e : Extension) :
    (e.record pos st).hasECH = (st.hasECH || decide (e.type = tlsExtTypeECH)) := by
  unfold record
  split
  · rename_i hk
    have other : tlsExtTypeKeyShare ≠ tlsExtTypeECH := by decide
    simp [hk,other]
  · split
    · simp [*]
    · rename_i he
      cases e <;> simp [he]

def collect : ℕ → List Extension → Found → Found
  | _, [], st => st
  | pos, e::es, st => collect (pos+e.encode.length) es (e.record pos st)

theorem collect_hasKeyShare (pos : ℕ) (es : List Extension) (st : Found) :
    (collect pos es st).hasKeyShare =
      (st.hasKeyShare || es.any fun e => decide (e.type = tlsExtTypeKeyShare)) := by
  induction es generalizing pos st with
  | nil => simp [collect]
  | cons e es ih =>
    rw [collect,ih,List.any_cons,← Bool.or_assoc,Extension.record_hasKeyShare]

theorem collect_hasECH (pos : ℕ) (es : List Extension) (st : Found) :
    (collect pos es st).hasECH =
      (st.hasECH || es.any fun e => decide (e.type = tlsExtTypeECH)) := by
  induction es generalizing pos st with
  | nil => simp [collect]
  | cons e es ih =>
    rw [collect,ih,List.any_cons,← Bool.or_assoc,Extension.record_hasECH]

theorem collect_name_of_none (pos : ℕ) (es : List Extension) (st : Found)
    (hn : es.filter Extension.isServerName = []) :
    (collect pos es st).sniStart = st.sniStart ∧ (collect pos es st).sniLen = st.sniLen := by
  induction es generalizing pos st with
  | nil => exact ⟨rfl,rfl⟩
  | cons e es ih =>
    cases e with
    | serverName host => simp [Extension.isServerName] at hn
    | other t b hb =>
      have ht := ih (pos+(Extension.other t b hb).encode.length)
        ((Extension.other t b hb).record pos st)
        (by simpa [Extension.isServerName] using hn)
      have hr := Extension.record_name pos st (b := b) hb
      exact ⟨ht.1.trans hr.1,ht.2.trans hr.2⟩

theorem collect_append (pos : ℕ) (es fs : List Extension) (st : Found) :
    collect pos (es++fs) st = collect (pos+(extensionBytes es).length) fs (collect pos es st) := by
  induction es generalizing pos st with
  | nil => rfl
  | cons e es ih =>
    simp only [List.cons_append,collect,ih,extensionBytes_cons,List.length_append,Nat.add_assoc]

/-- The loop reports the place of the only server name, wherever it stands in the list. -/
theorem collect_name (pos : ℕ) (before after : List Extension) (host : Bytes) (st : Found)
    (hone : ((before++.serverName host::after).filter Extension.isServerName).length ≤ 1) :
    (collect pos (before++.serverName host::after) st).sniStart =
        (pos+(extensionBytes before).length+9 : ℕ) ∧
      (collect pos (before++.serverName host::after) st).sniLen = host.length := by
  have hn : after.filter Extension.isServerName = [] := by
    apply List.eq_nil_of_length_eq_zero
    simp only [List.filter_append,List.filter_cons,Extension.isServerName,if_true,
      List.length_append,List.length_cons] at hone
    omega
  rw [collect_append,collect,Extension.record_serverName]
  exact collect_name_of_none _ after _ hn

theorem parseServerName_encode {data rest host : Bytes} {start : ℕ}
    (h : data.drop start = (Extension.serverName host).body++rest)
    (hfits : host.length+5 < 65536) :
    parseServerName data start (host.length+5) = .ok (.ok (start+5,host.length)) := by
  have h₁ : data.drop start =
      putUint16 (host.length+3)++(0::(putUint16 host.length++(host++rest))) := by
    simpa [Extension.body] using h
  have h₂ := drop_advance h₁ (putUint16_length _)
  have h₃ : data.drop (start+2+1) = putUint16 host.length++(host++rest) :=
    drop_advance (f := [0]) h₂ rfl
  simp only [parseServerName,uint16At_of_drop h₁ (by omega),index_of_drop h₂,
    uint16At_of_drop h₃ (by omega),ok_bind]
  rw [if_neg (by omega),if_neg (by simp),if_neg (by omega),if_neg (by simp),if_neg (by omega)]
  rfl

/-- One round of the loop over an encoded extension. -/
theorem parseExtensions_round {data prtVer rest : Bytes} {extensionsEnd rounds offset : ℕ}
    {st : Found} (e : Extension) (h : data.drop offset = e.encode++rest)
    (hbody : e.body.length < 65536) (hend : offset+e.encode.length ≤ extensionsEnd)
    (hname : e.isServerName = true → st.sniStart = -1) :
    parseExtensions data prtVer extensionsEnd (rounds+1) offset st =
      parseExtensions data prtVer extensionsEnd rounds (offset+e.encode.length)
        (e.record offset st) := by
  have h₁ : data.drop offset = putUint16 e.type++(putUint16 e.body.length++(e.body++rest)) := by
    simpa [Extension.encode] using h
  have h₂ := drop_advance h₁ (putUint16_length _)
  have h₃ : data.drop (offset+2+2) = e.body++rest := drop_advance h₂ (putUint16_length _)
  have hl := e.encode_length
  rw [parseExtensions,if_pos (by omega),uint16At_of_drop h₁ e.type_lt,ok_bind,
    uint16At_of_drop h₂ hbody,ok_bind,if_neg (by omega),
    show offset+4+e.body.length = offset+e.encode.length by omega]
  cases e with
  | serverName host =>
    have hb : (Extension.serverName host).body.length = host.length+5 := by
      simp [Extension.body]; omega
    rw [hb] at hbody ⊢
    rw [show offset+2+2 = offset+4 by omega] at h₃
    rw [parseServerName_encode h₃ hbody]
    rw [Extension.record_serverName]
    simp [Extension.type,hname rfl,tlsExtTypeKeyShare,tlsExtTypeECH,tlsExtTypeSNI,Int.add_assoc]
  | other t b hb =>
    have ht : ¬ (Extension.other t b hb).type = tlsExtTypeSNI := fun he => hb (UInt16.toNat_inj.mp he)
    by_cases hk : (Extension.other t b hb).type = tlsExtTypeKeyShare
    · rw [if_pos hk,Extension.record,if_pos hk]
    rw [if_neg hk,Extension.record,if_neg hk]
    by_cases he : (Extension.other t b hb).type = tlsExtTypeECH
    · rw [if_pos he,if_pos he]
    · rw [if_neg he,if_neg ht,if_neg he]

theorem parseExtensions_encode {data prtVer rest : Bytes} {rounds offset : ℕ} {st : Found}
    (es : List Extension) (h : data.drop offset = extensionBytes es++rest)
    (hfits : (extensionBytes es).length < 65536) (hrounds : es.length < rounds)
    (hone : (es.filter Extension.isServerName).length ≤ 1)
    (hname : st.sniStart ≠ -1 → es.filter Extension.isServerName = []) :
    parseExtensions data prtVer (offset+(extensionBytes es).length) rounds offset st =
      .ok ((collect offset es st).result prtVer none) := by
  induction es generalizing rounds offset st with
  | nil =>
    obtain ⟨k,rfl⟩ : ∃ k, rounds = k+1 := ⟨rounds-1,by simp at hrounds; omega⟩
    rw [parseExtensions,if_neg (by simp [extensionBytes])]
    rfl
  | cons e es ih =>
    obtain ⟨k,rfl⟩ : ∃ k, rounds = k+1 := ⟨rounds-1,by simp at hrounds; omega⟩
    have hd : data.drop offset = e.encode++(extensionBytes es++rest) := by simpa using h
    have hlen : (extensionBytes (e::es)).length = e.encode.length+(extensionBytes es).length := by
      simp
    have hel := e.encode_length
    have hfirst : e.isServerName = true → st.sniStart = -1 := by
      intro he
      by_contra hne
      simpa [List.filter_cons,he] using hname hne
    rw [parseExtensions_round e hd (by omega) (by omega) hfirst,hlen,← Nat.add_assoc]
    refine ih (drop_advance hd rfl) (by omega) (by simpa using hrounds) ?_ ?_
    · refine Nat.le_trans (List.Sublist.length_le ?_) hone
      exact (List.sublist_cons_self e es).filter _
    · cases e with
      | serverName host =>
        intro _
        simpa [List.filter_cons,Extension.isServerName] using hone
      | other t b hb =>
        intro hne
        have hs : st.sniStart ≠ -1 := fun he => hne ((Extension.record_name offset st hb).1.trans he)
        simpa [List.filter_cons,Extension.isServerName] using hname hs

theorem parseExtensionBlock_encode {data prtVer : Bytes} {offset : ℕ}
    (exts : Option (List Extension)) (hend : offset ≤ data.length)
    (h : data.drop offset = extensionBlock exts) (hfits : (extensionBlock exts).length < 65536)
    (hone : ((exts.getD []).filter Extension.isServerName).length ≤ 1) :
    parseExtensionBlock data prtVer offset =
      .ok ((collect (offset+2) (exts.getD []) {}).result prtVer none) := by
  have hl : offset+(extensionBlock exts).length = data.length := by
    rw [← h,List.length_drop]; omega
  cases exts with
  | none =>
    simp only [extensionBlock,List.length_nil] at hl
    rw [parseExtensionBlock,if_pos (by omega)]
    rfl
  | some es =>
    simp only [extensionBlock,List.length_append,putUint16_length] at hl hfits
    rw [extensionBlock] at h
    have h₂ : data.drop (offset+2) = extensionBytes es++[] := by
      rw [List.append_nil]; exact drop_advance h (putUint16_length _)
    have hcount := length_le_extensionBytes es
    simp only [parseExtensionBlock]
    rw [if_neg (by omega),uint16At_of_drop h (by omega),ok_bind,if_neg (by omega)]
    exact parseExtensions_encode es h₂ (by omega) (by omega) hone (fun hne => absurd rfl hne)

theorem toNat_ofNat_length {f : Bytes} (h : f.length ≤ 255) :
    (UInt8.ofNat f.length).toNat = f.length := by
  rw [UInt8.toNat_ofNat']; omega

/-- The fields between the random and the extensions are skipped by their lengths. -/
theorem parseBody_encode {data prtVer sessionID cipherSuites compression block : Bytes}
    {offset : ℕ} (hs : sessionID.length ≤ 255) (hc : cipherSuites.length < 65536)
    (hm : compression.length ≤ 255)
    (h : data.drop offset = UInt8.ofNat sessionID.length::(sessionID++
      (putUint16 cipherSuites.length++(cipherSuites++
        (UInt8.ofNat compression.length::(compression++block)))))) :
    parseBody data prtVer offset = parseExtensionBlock data prtVer
      (offset+1+sessionID.length+2+cipherSuites.length+1+compression.length) := by
  have hl := congrArg List.length h
  simp only [List.length_drop,List.length_cons,List.length_append,putUint16_length] at hl
  have h₁ := drop_advance (f := [UInt8.ofNat sessionID.length]) h rfl
  have h₂ := drop_advance h₁ rfl
  have h₃ := drop_advance h₂ (putUint16_length _)
  have h₄ := drop_advance h₃ rfl
  simp only [List.length_singleton] at h₁ h₂ h₃ h₄
  simp only [parseBody]
  rw [if_neg (by omega),index_of_drop h,ok_bind,toNat_ofNat_length hs,if_neg (by omega),
    if_neg (by omega),uint16At_of_drop h₂ hc,ok_bind,if_neg (by omega),if_neg (by omega),
    index_of_drop h₄,ok_bind,toNat_ofNat_length hm,if_neg (by omega)]

/-- The three length bytes of a message below `2^16` bytes. -/
theorem uint24_toNat {n : ℕ} (h : n < 65536) :
    (0 : UInt8).toNat*65536+(UInt8.ofNat (n/256)).toNat*256+(UInt8.ofNat n).toNat = n := by
  rw [show (0 : UInt8).toNat = 0 from rfl,UInt8.toNat_ofNat',UInt8.toNat_ofNat']
  omega

theorem Hello.message_fits (h : Hello) : 4+h.message.length < 65536 := by
  have hf := h.fits
  simpa [Hello.message,Hello.fixed] using hf

theorem Hello.fixed_length (h : Hello) : h.fixed.length =
    38+h.sessionID.length+h.cipherSuites.length+h.compression.length := by
  simp [Hello.fixed,fixedFields,h.version_length,h.random_length]
  omega

theorem Hello.encode_length (h : Hello) : h.encode.length = 9+h.message.length := by
  simp [Hello.encode]; omega

/-- The parser's result on an encoding, in full. -/
theorem parseClientHello_encode_eq (h : Hello) :
    parseClientHello h.encode =
      .ok ((collect h.extensionsStart (h.extensions.getD []) {}).result h.version none) := by
  have hfit := h.message_fits
  have hfix := h.fixed_length
  have hpos : 9+(2+32)+1+h.sessionID.length+2+h.cipherSuites.length+1+h.compression.length =
      9+h.fixed.length := by omega
  have hmsg : h.message.length = h.fixed.length+(extensionBlock h.extensions).length := by
    simp [Hello.message]
  have hlen := h.encode_length
  have hr : tlsRecordHeaderLen = 5 := rfl
  have hh : tlsHandshakeHeaderLen = 4 := rfl
  have h₀ : h.encode.drop 0 = tlsRecordTypeHandshake::tlsMajorVersion::h.recordMinor::
      (putUint16 (4+h.message.length)++
        (tlsHandshakeTypeClientHello::0::(putUint16 h.message.length++h.message))) := rfl
  have h₁ := drop_advance (f := [tlsRecordTypeHandshake]) (n := 1) h₀ rfl
  have h₃ := drop_advance (f := [tlsMajorVersion,h.recordMinor]) (n := 2) h₁ rfl
  have h₅ := drop_advance h₃ (putUint16_length _)
  have h₆ := drop_advance (f := [tlsHandshakeTypeClientHello]) (n := 1) h₅ rfl
  have h₇ := drop_advance (f := [0]) (n := 1) h₆ rfl
  have h₉ := drop_advance h₇ (putUint16_length _)
  simp only [Nat.reduceAdd] at h₁ h₃ h₅ h₆ h₇ h₉
  have hv : h.encode.drop 9 = h.version++(h.random++(UInt8.ofNat h.sessionID.length::
      (h.sessionID++(putUint16 h.cipherSuites.length++(h.cipherSuites++
        (UInt8.ofNat h.compression.length::(h.compression++extensionBlock h.extensions))))))) := by
    rw [h₉]
    simp [Hello.message,Hello.fixed,fixedFields]
  have h₄₃ := drop_advance (drop_advance hv h.version_length) h.random_length
  have hblock : h.encode.drop (9+h.fixed.length) = extensionBlock h.extensions :=
    drop_advance (f := h.fixed) h₉ rfl
  have hne : h.version ≠ [] := fun he => by simpa [he] using h.version_length
  have h₈ : h.encode.drop 8 = UInt8.ofNat h.message.length::h.message :=
    drop_advance (f := [UInt8.ofNat (h.message.length/256)]) (n := 1) h₇ rfl
  have hlow := uint24_toNat (n := h.message.length) (by omega)
  simp only [parseClientHello]
  rw [index_of_drop h₀,ok_bind,if_neg (by simp),index_of_drop h₁,ok_bind,if_neg (by simp),
    uint16At_of_drop h₃ hfit,ok_bind,if_neg (by omega),if_neg (by omega),hr,index_of_drop h₅,
    ok_bind,if_neg (by simp),index_of_drop h₆,ok_bind,index_of_drop h₇,ok_bind,
    index_of_drop h₈,ok_bind,hlow,if_neg (by omega),if_neg (by omega),hh,
    slice_of_drop hv hne h.version_length,ok_bind,
    parseBody_encode h.sessionID_length (by omega) h.compression_length h₄₃,hpos]
  exact parseExtensionBlock_encode h.extensions (by omega) hblock (by omega) h.oneServerName

/-- The host name stands behind the extensions before it and nine bytes of headers. -/
theorem Hello.encode_host (h : Hello) {before after : List Extension} {host : Bytes}
    (he : h.extensions = some (before++.serverName host::after)) :
    (h.encode.drop (h.extensionsStart+(extensionBytes before).length+9)).take host.length =
      host := by
  have hfixed : h.encode.drop (9+h.fixed.length) = extensionBlock h.extensions := by
    have h₉ : h.encode.drop 9 = h.fixed++extensionBlock h.extensions := rfl
    exact drop_advance h₉ rfl
  rw [he,extensionBlock] at hfixed
  have h₁ := drop_advance hfixed (putUint16_length _)
  have h₂ : h.encode.drop h.extensionsStart = extensionBytes before++
      (putUint16 0++(putUint16 (Extension.serverName host).body.length++
        (putUint16 (host.length+3)++(0::(putUint16 host.length++
          (host++extensionBytes after)))))) := by
    rw [Hello.extensionsStart,h₁]
    simp [extensionBytes,Extension.encode,Extension.body,Extension.type]
  have h₃ := drop_advance h₂ rfl
  have h₄ := drop_advance h₃ (putUint16_length _)
  have h₅ := drop_advance h₄ (putUint16_length _)
  have h₆ := drop_advance h₅ (putUint16_length _)
  have h₇ := drop_advance (f := [0]) (n := 1) h₆ rfl
  have h₈ := drop_advance h₇ (putUint16_length _)
  simp only [Nat.add_assoc,Nat.reduceAdd] at h₈
  rw [Nat.add_assoc,h₈,List.take_left]

/-- Parsing undoes encoding: the version bytes, the exact place of the host name and the
presence of a key share come back from every encoded ClientHello. -/
theorem parseClientHello_encode (h : Hello) :
    ∃ r, parseClientHello h.encode = .ok r ∧ r.err = none ∧ r.prtVer = h.version ∧
      ((h.extensions.getD []).filter Extension.isServerName = [] →
        r.sniStart = -1 ∧ r.sniLen = 0) ∧
      (∀ before host after, h.extensions = some (before++.serverName host::after) →
        r.sniStart = (h.extensionsStart+(extensionBytes before).length+9 : ℕ) ∧
        r.sniLen = host.length ∧
        (h.encode.drop r.sniStart.toNat).take r.sniLen = host) ∧
      (r.hasKeyShare = true ↔ ∃ e ∈ h.extensions.getD [], e.type = tlsExtTypeKeyShare) := by
  refine ⟨_,parseClientHello_encode_eq h,rfl,rfl,?_,?_,?_⟩
  · intro hn
    exact collect_name_of_none _ _ {} hn
  · intro before host after he
    have hone := h.oneServerName
    rw [he,Option.getD_some] at hone
    obtain ⟨hs,hl⟩ := collect_name h.extensionsStart before after host {} hone
    simp only [Found.result,he,Option.getD_some]
    refine ⟨hs,hl,?_⟩
    rw [hs,hl,Int.toNat_natCast]
    exact h.encode_host he
  · simp [Found.result,collect_hasKeyShare]

end HelloEncoding
end Enimul
