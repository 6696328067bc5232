import Enimul.ClientHello
import Mathlib.Data.List.GetD

/-! What the parser reads of a record.
The length of the handshake message is compared with the record and not used again: the fields of
the hello are held against the end of the data. The outcome is a function of the message alone
exactly when the message fills its record and the extensions end inside it. -/
namespace Enimul
namespace ClientHello

open GoSlice

section Fields

def byteAt (d : Bytes) (i : ℕ) : ℕ := (d.getD i 0).toNat

def wordAt (d : Bytes) (i : ℕ) : ℕ := byteAt d i*256+byteAt d (i+1)

def recordLength (d : Bytes) : ℕ := wordAt d 3

def handshakeLength (d : Bytes) : ℕ := byteAt d 6*65536+byteAt d 7*256+byteAt d 8

/-- Where the handshake message ends. -/
def messageEnd (d : Bytes) : ℕ := 9+handshakeLength d

def sessionEnd (d : Bytes) : ℕ := 44+byteAt d 43

def suitesEnd (d : Bytes) : ℕ := sessionEnd d+2+wordAt d (sessionEnd d)

def methodsEnd (d : Bytes) : ℕ := suitesEnd d+1+byteAt d (suitesEnd d)

/-- Where the extensions end, by the length fields in front of them. -/
def blockEnd (d : Bytes) : ℕ := methodsEnd d+2+wordAt d (methodsEnd d)

theorem index_eq {d : Bytes} {i : ℕ} (h : i < d.length) : index d i = .ok (d.getD i 0) := by
  rw [index_of_lt h,List.getD_eq_getElem d 0 h]

theorem uint16At_eq {d : Bytes} {i : ℕ} (h : i+2 ≤ d.length) : uint16At d i = .ok (wordAt d i) := by
  have hdrop : d.drop i = putUint16 (wordAt d i)++d.drop (i+2) := by
    rw [wordAt,byteAt,byteAt,putUint16_bytes,List.drop_eq_getElem_cons (show i < d.length by omega),
      List.drop_eq_getElem_cons (show i+1 < d.length by omega),
      List.getD_eq_getElem d 0 (show i < d.length by omega),
      List.getD_eq_getElem d 0 (show i+1 < d.length by omega)]
    rfl
  have hlt : wordAt d i < 65536 := by
    have h₁ := (d.getD i 0).toNat_lt
    have h₂ := (d.getD (i+1) 0).toNat_lt
    simp only [wordAt,byteAt]
    omega
  exact uint16At_of_drop hdrop hlt

theorem byteAt_append {p : Bytes} (t : Bytes) {i : ℕ} (h : i < p.length) :
    byteAt (p++t) i = byteAt p i := by
  rw [byteAt,byteAt,List.getD_append p t 0 i h]

theorem wordAt_append {p : Bytes} (t : Bytes) {i : ℕ} (h : i+2 ≤ p.length) :
    wordAt (p++t) i = wordAt p i := by
  rw [wordAt,wordAt,byteAt_append t (by omega),byteAt_append t (by omega)]

end Fields

section Body

/-- Reading the fields between the random and the extensions, without the checked accesses. -/
theorem parseBody_eq (d v : Bytes) (h : 43 < d.length) :
    parseBody d v 43 =
      if d.length < sessionEnd d then .ok (reject v "session_id length exceeds data")
      else if d.length < sessionEnd d+2 then .ok (reject v "cannot read cipher_suites length")
      else if d.length < suitesEnd d then .ok (reject v "cipher_suites exceed data")
      else if d.length ≤ suitesEnd d then
        .ok (reject v "cannot read compression_methods length")
      else if d.length < methodsEnd d then .ok (reject v "compression_methods exceed data")
      else if d.length < methodsEnd d+2 then .ok ⟨v,-1,0,false,false,none⟩
      else if d.length < blockEnd d then .ok (reject v "extensions length exceeds data")
      else parseExtensions d v (blockEnd d) (d.length+1) (methodsEnd d+2) {} := by
  rw [parseBody,if_neg (by omega),index_eq h,ok_bind]
  change (if d.length < sessionEnd d then _ else _) = _
  split
  · rfl
  change (if d.length < sessionEnd d+2 then _ else _) = _
  split
  · rfl
  change (do let csLen ← uint16At d (sessionEnd d); _) = _
  rw [uint16At_eq (by omega),ok_bind]
  change (if d.length < suitesEnd d then _ else if d.length ≤ suitesEnd d then _ else _) = _
  split
  · rfl
  split
  · rfl
  rw [index_eq (by change suitesEnd d < d.length; omega),ok_bind]
  change (if d.length < methodsEnd d then _ else parseExtensionBlock d v (methodsEnd d)) = _
  split
  · rfl
  rw [parseExtensionBlock]
  split
  · rfl
  rw [uint16At_eq (by omega),ok_bind]
  rfl

/-- The checks in front of the fields. -/
theorem parseClientHello_eq (d : Bytes) (h : 9 ≤ d.length) :
    parseClientHello d =
      if d.getD 0 0 ≠ tlsRecordTypeHandshake then .ok (reject [] "not a TLS handshake record")
      else if d.getD 1 0 ≠ tlsMajorVersion then .ok (reject [] "not a standard TLS record")
      else if d.length < 5+recordLength d then .ok (reject [] "record length exceeds data size")
      else if recordLength d < 4 then .ok (reject [] "handshake message too short")
      else if d.getD 5 0 ≠ tlsHandshakeTypeClientHello then
        .ok (reject [] ("not a ClientHello handshake (type=" ++ toString (d.getD 5 0).toNat ++ ")"))
      else if recordLength d < handshakeLength d+4 then
        .ok (reject [] "handshake length exceeds record length")
      else if handshakeLength d < 35 then
        .ok (reject [] "ClientHello too short for mandatory fields")
      else parseBody d ((d.drop 9).take 2) 43 := by
  rw [parseClientHello,index_eq (by omega),ok_bind]
  split
  · rfl
  rw [index_eq (by omega),ok_bind]
  split
  · rfl
  rw [uint16At_eq (by omega),ok_bind]
  change (if d.length < 5+recordLength d then _ else if recordLength d < 4 then _ else _) = _
  split
  · rfl
  split
  · rfl
  change (do let msgType ← index d 5; _) = _
  rw [index_eq (by omega),ok_bind]
  split
  · rfl
  have hheader : tlsRecordHeaderLen = 5 := rfl
  rw [index_eq (by omega),ok_bind,index_eq (by omega),ok_bind,index_eq (by omega),ok_bind]
  change (if recordLength d < handshakeLength d+4 then _ else if handshakeLength d < 35 then _
    else _) = _
  split
  · rfl
  split
  · rfl
  change (do let prtVer ← slice d 9 11; _) = _
  rw [slice_of_le (by omega) (by omega),ok_bind]
  rfl

end Body

section Locality

variable {p : Bytes}

theorem sessionEnd_append (t : Bytes) (h : 43 < p.length) :
    sessionEnd (p++t) = sessionEnd p := by
  rw [sessionEnd,sessionEnd,byteAt_append t h]

theorem suitesEnd_append (t : Bytes) (h : sessionEnd p+2 ≤ p.length) :
    suitesEnd (p++t) = suitesEnd p := by
  have before : 43 < p.length := by
    simp only [sessionEnd] at h
    omega
  rw [suitesEnd,suitesEnd,sessionEnd_append t before,wordAt_append t h]

theorem methodsEnd_append (t : Bytes) (h : suitesEnd p < p.length) :
    methodsEnd (p++t) = methodsEnd p := by
  have before : sessionEnd p+2 ≤ p.length := by
    simp only [suitesEnd] at h
    omega
  rw [methodsEnd,methodsEnd,suitesEnd_append t before,byteAt_append t h]

/-- If the extensions end inside the front part of the data, whatever is behind it, then they end
at one place. -/
theorem blockEnd_append (t : Bytes)
    (h : blockEnd p ≤ p.length ∨ blockEnd (p++t) ≤ p.length) : blockEnd (p++t) = blockEnd p := by
  have session : 43 < p.length := by
    simp only [blockEnd,methodsEnd,suitesEnd,sessionEnd] at h
    omega
  have suites : sessionEnd p+2 ≤ p.length := by
    simp only [blockEnd,methodsEnd,suitesEnd,sessionEnd_append t session] at h
    omega
  have methods : suitesEnd p < p.length := by
    simp only [blockEnd,methodsEnd,suitesEnd_append t suites] at h
    omega
  have block : methodsEnd p+2 ≤ p.length := by
    simp only [blockEnd,methodsEnd_append t methods] at h
    omega
  rw [blockEnd,blockEnd,methodsEnd_append t methods,wordAt_append t block]

theorem index_append (t : Bytes) {i : ℕ} (h : i < p.length) : index (p++t) i = index p i := by
  rw [index_eq h,index_eq (by simp; omega),List.getD_append p t 0 i h]

theorem parseServerName_append (t : Bytes) {start extLen : ℕ} (h : start+extLen ≤ p.length) :
    parseServerName (p++t) start extLen = parseServerName p start extLen := by
  simp only [parseServerName]
  split
  · rfl
  rw [uint16At_append t (by omega),uint16At_eq (by omega),ok_bind,ok_bind]
  split
  · rfl
  split
  · rfl
  rw [index_append t (by omega),uint16At_append t (by omega)]

/-- The loop reads nothing behind the block, and its bound does not matter. -/
theorem parseExtensions_append (t v : Bytes) {extensionsEnd : ℕ} (hend : extensionsEnd ≤ p.length)
    (rounds : ℕ) : ∀ (rounds' offset : ℕ) (st : Found), offset ≤ extensionsEnd →
      extensionsEnd < offset+rounds → extensionsEnd < offset+rounds' →
        parseExtensions (p++t) v extensionsEnd rounds offset st =
          parseExtensions p v extensionsEnd rounds' offset st := by
  induction rounds with
  | zero =>
    intro rounds' offset st hoff hrounds
    omega
  | succ rounds ih =>
    intro rounds' offset st hoff hrounds hrounds'
    cases rounds' with
    | zero => omega
    | succ rounds' =>
      rw [parseExtensions,parseExtensions]
      split
      case isFalse => rfl
      rw [uint16At_append t (by omega),uint16At_append t (by omega),uint16At_eq (by omega),
        uint16At_eq (by omega),ok_bind,ok_bind,ok_bind,ok_bind]
      dsimp only
      split
      · rfl
      have next : ∀ st : Found,
          parseExtensions (p++t) v extensionsEnd rounds (offset+4+wordAt p (offset+2)) st =
            parseExtensions p v extensionsEnd rounds' (offset+4+wordAt p (offset+2)) st :=
        fun st => ih rounds' _ st (by omega) (by omega) (by omega)
      rw [parseServerName_append t (by omega)]
      simp only [next]

/-- All fields are there. -/
theorem parseBody_inside {d : Bytes} (v : Bytes) (h : blockEnd d ≤ d.length) :
    parseBody d v 43 =
      parseExtensions d v (blockEnd d) (d.length+1) (methodsEnd d+2) {} := by
  have methods : methodsEnd d+2 ≤ blockEnd d := Nat.le_add_right _ _
  have suites : suitesEnd d+1 ≤ methodsEnd d := Nat.le_add_right _ _
  have session : sessionEnd d+2 ≤ suitesEnd d := Nat.le_add_right _ _
  have random : 44 ≤ sessionEnd d := Nat.le_add_right _ _
  rw [parseBody_eq d v (by omega),if_neg (by omega),if_neg (by omega),if_neg (by omega),
    if_neg (by omega),if_neg (by omega),if_neg (by omega),if_neg (by omega)]

theorem parseBody_append (t v : Bytes) (h : blockEnd p ≤ p.length) :
    parseBody (p++t) v 43 = parseBody p v 43 := by
  have methods : methodsEnd p+2 ≤ blockEnd p := Nat.le_add_right _ _
  have suites : suitesEnd p+1 ≤ methodsEnd p := Nat.le_add_right _ _
  have hblock := blockEnd_append t (.inl h)
  have hmethods : methodsEnd (p++t) = methodsEnd p := methodsEnd_append t (by omega)
  have hlen : (p++t).length = p.length+t.length := List.length_append
  rw [parseBody_inside v (by omega),parseBody_inside v h,hblock,hmethods]
  exact parseExtensions_append t v h _ _ _ _ methods (by omega) (by omega)

theorem header_append (t : Bytes) (h : 9 ≤ p.length) :
    recordLength (p++t) = recordLength p ∧ handshakeLength (p++t) = handshakeLength p ∧
      (p++t).getD 0 0 = p.getD 0 0 ∧ (p++t).getD 1 0 = p.getD 1 0 ∧
      (p++t).getD 5 0 = p.getD 5 0 := by
  refine ⟨wordAt_append t (by omega),?_,?_,?_,?_⟩
  · rw [handshakeLength,handshakeLength,byteAt_append t (by omega),byteAt_append t (by omega),
      byteAt_append t (by omega)]
  · exact List.getD_append p t 0 0 (by omega)
  · exact List.getD_append p t 0 1 (by omega)
  · exact List.getD_append p t 0 5 (by omega)

end Locality

section Cut

/-- What an error of the extension loop can be, and its success. -/
def blockErrors : List (Option String) :=
  [none,some "extension length exceeds extensions block",some "duplicate SNI extension",
    some "malformed SNI extension (too short for list length)",
    some "SNI list length field mismatch",some "SNI entry too short",
    some "unsupported SNI name type",some "SNI name length exceeds extension"]

theorem parseServerName_err {d : Bytes} {start extLen : ℕ} {e : String}
    (hend : start+extLen ≤ d.length)
    (h : parseServerName d start extLen = .ok (.error e)) : some e ∈ blockErrors := by
  have known : ∀ {e' : String}, (.ok (.error e') : Checked (Except String (ℕ × ℕ))) =
      .ok (.error e) → some e' ∈ blockErrors → some e ∈ blockErrors := by
    intro e' heq hmem
    cases heq
    exact hmem
  simp only [parseServerName] at h
  split at h
  · exact known h (by decide)
  rw [uint16At_eq (by omega),ok_bind] at h
  split at h
  · exact known h (by decide)
  split at h
  · exact known h (by decide)
  rw [index_eq (by omega),ok_bind] at h
  split at h
  · exact known h (by decide)
  rw [uint16At_eq (by omega),ok_bind] at h
  split at h
  · exact known h (by decide)
  · cases h

theorem parseExtensions_err {d : Bytes} (v : Bytes) {extensionsEnd : ℕ}
    (hend : extensionsEnd ≤ d.length) (rounds : ℕ) : ∀ (offset : ℕ) (st : Found) (r : Parsed),
      parseExtensions d v extensionsEnd rounds offset st = .ok r → r.err ∈ blockErrors := by
  induction rounds with
  | zero =>
    intro offset st r h
    cases h
  | succ rounds ih =>
    intro offset st r h
    have known : ∀ {err : Option String}, (.ok (st.result v err) : Checked Parsed) = .ok r →
        err ∈ blockErrors → r.err ∈ blockErrors := by
      intro err heq hmem
      cases heq
      exact hmem
    rw [parseExtensions] at h
    split at h
    case isFalse => exact known h (by decide)
    rw [uint16At_eq (by omega),ok_bind,uint16At_eq (by omega),ok_bind] at h
    dsimp only at h
    split at h
    · exact known h (by decide)
    split at h
    · exact ih _ _ _ h
    split at h
    · exact ih _ _ _ h
    split at h
    case isFalse => exact ih _ _ _ h
    split at h
    · exact known h (by decide)
    cases hname : parseServerName d (offset+4) (wordAt d (offset+2)) with
    | error fault =>
      rw [hname] at h
      cases h
    | ok name =>
      rw [hname,ok_bind] at h
      cases name with
      | error e => exact known h (parseServerName_err (by omega) hname)
      | ok found => exact ih _ _ _ h

/-- Some field is not there: an error about a length, or a hello without extensions. -/
theorem parseBody_cut {d : Bytes} (v : Bytes) (h : 43 < d.length) (hcut : d.length < blockEnd d) :
    ∃ r, parseBody d v 43 = .ok r ∧ (r.err ∉ blockErrors ∨
      r.err = none ∧ suitesEnd d < d.length ∧ d.length < methodsEnd d+2) := by
  have fails : ∀ e : String, some e ∉ blockErrors → ∃ r, (.ok (reject v e) : Checked Parsed) = .ok r ∧
      (r.err ∉ blockErrors ∨
        r.err = none ∧ suitesEnd d < d.length ∧ d.length < methodsEnd d+2) :=
    fun e he => ⟨_,rfl,.inl he⟩
  rw [parseBody_eq d v h]
  split
  · exact fails _ (by decide)
  split
  · exact fails _ (by decide)
  split
  · exact fails _ (by decide)
  split
  · exact fails _ (by decide)
  split
  · exact fails _ (by decide)
  split
  · exact ⟨_,rfl,.inr ⟨rfl,by omega,by omega⟩⟩
  · exact fails _ (by decide)

/-- No hello is longer than its length fields can say. -/
theorem blockEnd_le (d : Bytes) : blockEnd d ≤ 131629 := by
  have h₁ := (d.getD 43 0).toNat_lt
  have h₂ := (d.getD (sessionEnd d) 0).toNat_lt
  have h₃ := (d.getD (sessionEnd d+1) 0).toNat_lt
  have h₄ := (d.getD (suitesEnd d) 0).toNat_lt
  have h₅ := (d.getD (methodsEnd d) 0).toNat_lt
  have h₆ := (d.getD (methodsEnd d+1) 0).toNat_lt
  have session : sessionEnd d = 44+(d.getD 43 0).toNat := rfl
  have suites : suitesEnd d = sessionEnd d+2+((d.getD (sessionEnd d) 0).toNat*256+
    (d.getD (sessionEnd d+1) 0).toNat) := rfl
  have methods : methodsEnd d = suitesEnd d+1+(d.getD (suitesEnd d) 0).toNat := rfl
  have block : blockEnd d = methodsEnd d+2+((d.getD (methodsEnd d) 0).toNat*256+
    (d.getD (methodsEnd d+1) 0).toNat) := rfl
  omega

/-- The data goes on for longer than the length fields can ask for. -/
def filled (p : Bytes) (n : ℕ) : Bytes := p++List.replicate n 0xff

variable {p : Bytes} {n : ℕ}

theorem filled_length (p : Bytes) (n : ℕ) : (filled p n).length = p.length+n := by
  simp [filled]

theorem byteAt_filled {i : ℕ} (h₁ : p.length ≤ i) (h₂ : i < p.length+n) :
    byteAt (filled p n) i = 255 := by
  rw [byteAt,filled,List.getD_append_right p _ 0 i h₁,List.getD_replicate _ (by omega)]
  rfl

theorem parseBody_filled {v : Bytes} (hv : v.length = 2) (hn : 140000 ≤ n) :
    ∃ r, parseBody (filled p n) v 43 = .ok r ∧ r.err ∈ blockErrors := by
  have inside : blockEnd (filled p n) ≤ (filled p n).length := by
    have := blockEnd_le (filled p n)
    rw [filled_length]
    omega
  obtain ⟨r,hr,-⟩ := parseBody_returns (filled p n) v 43 (by decide) hv
  refine ⟨r,hr,?_⟩
  rw [parseBody_inside v inside] at hr
  exact parseExtensions_err v inside _ _ _ r hr

/-- Behind a hello without extensions the filling is taken for an extension. -/
theorem parseBody_filled_extension (v : Bytes) (hn : 140000 ≤ n) (hsuites : suitesEnd p < p.length)
    (hmethods : p.length < methodsEnd p+2) :
    parseBody (filled p n) v 43 =
      .ok (reject v "extension length exceeds extensions block") := by
  have same : methodsEnd (filled p n) = methodsEnd p := methodsEnd_append _ hsuites
  have hle := blockEnd_le (filled p n)
  have hblock : blockEnd (filled p n) =
    methodsEnd (filled p n)+2+wordAt (filled p n) (methodsEnd (filled p n)) := rfl
  have hhigh := ((filled p n).getD (methodsEnd p) 0).toNat_lt
  have hword : wordAt (filled p n) (methodsEnd p) =
      ((filled p n).getD (methodsEnd p) 0).toNat*256+255 := by
    rw [wordAt,byteAt_filled (i := methodsEnd p+1) (by omega) (by omega)]
    rfl
  have hlen := filled_length p n
  have hsize : wordAt (filled p n) (methodsEnd p+2+2) = 65535 := by
    rw [wordAt,byteAt_filled (by omega) (by omega),byteAt_filled (by omega) (by omega)]
  rw [same,hword] at hblock
  rw [parseBody_inside v (by omega),same,parseExtensions,if_pos (by omega),uint16At_eq (by omega),
    ok_bind,uint16At_eq (by omega),ok_bind,hsize,if_pos (by omega)]
  rfl

end Cut

/-- The outcome depends on the message alone: every data with the same message has it. -/
def ReadsMessageOnly (d : Bytes) : Prop :=
  ∀ d', messageEnd d ≤ d'.length → d'.take (messageEnd d) = d.take (messageEnd d) →
    parseClientHello d' = parseClientHello d

/-- Nothing of the hello is parsed, or the message fills the record and has all fields. -/
def Contained (d : Bytes) : Prop :=
  d.getD 0 0 ≠ tlsRecordTypeHandshake ∨ d.getD 1 0 ≠ tlsMajorVersion ∨
    recordLength d = handshakeLength d+4 ∧
      (d.getD 5 0 ≠ tlsHandshakeTypeClientHello ∨ handshakeLength d < 35 ∨
        blockEnd d ≤ messageEnd d)

section Message

variable {p : Bytes}

/-- The checks in front of the fields read the first nine bytes and the length of the data. -/
theorem parseClientHello_append (h : 9 ≤ p.length) (t : Bytes) :
    parseClientHello (p++t) =
      if p.getD 0 0 ≠ tlsRecordTypeHandshake then .ok (reject [] "not a TLS handshake record")
      else if p.getD 1 0 ≠ tlsMajorVersion then .ok (reject [] "not a standard TLS record")
      else if p.length+t.length < 5+recordLength p then
        .ok (reject [] "record length exceeds data size")
      else if recordLength p < 4 then .ok (reject [] "handshake message too short")
      else if p.getD 5 0 ≠ tlsHandshakeTypeClientHello then
        .ok (reject [] ("not a ClientHello handshake (type=" ++ toString (p.getD 5 0).toNat ++ ")"))
      else if recordLength p < handshakeLength p+4 then
        .ok (reject [] "handshake length exceeds record length")
      else if handshakeLength p < 35 then
        .ok (reject [] "ClientHello too short for mandatory fields")
      else parseBody (p++t) (((p++t).drop 9).take 2) 43 := by
  obtain ⟨hrecord,hhandshake,h₀,h₁,h₅⟩ := header_append t h
  rw [parseClientHello_eq _ (by simp; omega),hrecord,hhandshake,h₀,h₁,h₅,List.length_append]

theorem version_append (h : 11 ≤ p.length) (t : Bytes) :
    ((p++t).drop 9).take 2 = (p.drop 9).take 2 := by
  rw [List.drop_append_of_le_length (by omega),
    List.take_append_of_le_length (by rw [List.length_drop]; omega)]

/-- Two continuations that hold the whole record are told apart by nothing if the fields are all in
the message. -/
theorem parseClientHello_continued (h : 9 ≤ p.length) {t t' : Bytes}
    (hrecord : p.getD 0 0 ≠ tlsRecordTypeHandshake ∨ p.getD 1 0 ≠ tlsMajorVersion ∨
      5+recordLength p ≤ p.length+t.length ∧ 5+recordLength p ≤ p.length+t'.length)
    (hfields : p.getD 0 0 ≠ tlsRecordTypeHandshake ∨ p.getD 1 0 ≠ tlsMajorVersion ∨
      p.getD 5 0 ≠ tlsHandshakeTypeClientHello ∨ handshakeLength p < 35 ∨
      blockEnd p ≤ p.length) : parseClientHello (p++t) = parseClientHello (p++t') := by
  rw [parseClientHello_append h,parseClientHello_append h]
  by_cases h₀ : p.getD 0 0 ≠ tlsRecordTypeHandshake
  · rw [if_pos h₀,if_pos h₀]
  by_cases h₁ : p.getD 1 0 ≠ tlsMajorVersion
  · rw [if_neg h₀,if_pos h₁,if_neg h₀,if_pos h₁]
  obtain ⟨hlen,hlen'⟩ := (hrecord.resolve_left h₀).resolve_left h₁
  have hfields := (hfields.resolve_left h₀).resolve_left h₁
  rw [if_neg h₀,if_neg h₁,if_neg (Nat.not_lt.mpr hlen),if_neg h₀,if_neg h₁,
    if_neg (Nat.not_lt.mpr hlen')]
  split
  · rfl
  split
  · rfl
  split
  · rfl
  split
  · rfl
  rename_i h₅ _ h₃₅
  have hblock := (hfields.resolve_left h₅).resolve_left h₃₅
  have random : 49 ≤ blockEnd p := by
    simp only [blockEnd,methodsEnd,suitesEnd,sessionEnd]
    omega
  rw [version_append (by omega),version_append (by omega),parseBody_append t _ hblock,
    parseBody_append t' _ hblock]

theorem Contained.continued (h : Contained p) (hlen : p.length = messageEnd p) (t t' : Bytes) :
    parseClientHello (p++t) = parseClientHello (p++t') := by
  have hm : messageEnd p = 9+handshakeLength p := rfl
  apply parseClientHello_continued (by omega)
  · rcases h with h₀ | h₁ | ⟨hfull,-⟩
    · exact .inl h₀
    · exact .inr (.inl h₁)
    · exact .inr (.inr ⟨by omega,by omega⟩)
  · rcases h with h₀ | h₁ | ⟨-,hfields⟩
    · exact .inl h₀
    · exact .inr (.inl h₁)
    · rw [← hlen] at hfields
      exact .inr (.inr hfields)

/-- A hello that is complete without what follows it is not read as far as it is with the
filling. -/
theorem blockEnd_of_filled {n : ℕ} (hn : 140000 ≤ n) (hp : 44 ≤ p.length) {v : Bytes}
    (hv : v.length = 2) (h : parseBody p v 43 = parseBody (filled p n) v 43) :
    blockEnd p ≤ p.length := by
  by_contra hcut
  obtain ⟨r,hr,hcases⟩ := parseBody_cut v (by omega) (Nat.lt_of_not_le hcut)
  rw [h] at hr
  rcases hcases with herr | ⟨hnone,hsuites,hmethods⟩
  · obtain ⟨r',hr',hmem⟩ := parseBody_filled hv hn
    rw [Except.ok.inj (hr.symm.trans hr')] at herr
    exact herr hmem
  · rw [parseBody_filled_extension v hn hsuites hmethods] at hr
    rw [← Except.ok.inj hr] at hnone
    cases hnone

/-- The outcome on a hello with the filling behind it. -/
theorem parseClientHello_filled {n : ℕ} (hn : 140000 ≤ n) (h : 9 ≤ p.length)
    (h₀ : p.getD 0 0 = tlsRecordTypeHandshake) (h₁ : p.getD 1 0 = tlsMajorVersion) :
    ∃ r, parseClientHello (filled p n) = .ok r ∧
      r.err ≠ some "record length exceeds data size" := by
  have hrecord : ¬ p.length+(List.replicate n (0xff : UInt8)).length < 5+recordLength p := by
    have h₃ := (p.getD 3 0).toNat_lt
    have h₄ := (p.getD 4 0).toNat_lt
    simp only [recordLength,wordAt,byteAt,List.length_replicate,Nat.reduceAdd]
    omega
  have hver : (((filled p n).drop 9).take 2).length = 2 := by
    have := filled_length p n
    simp only [List.length_take,List.length_drop]
    omega
  obtain ⟨r,hr,hmem⟩ := parseBody_filled (p := p) hver hn
  have hne : r.err ≠ some "record length exceeds data size" := by
    intro herr
    rw [herr] at hmem
    revert hmem
    decide
  rw [filled,parseClientHello_append h,if_neg (not_not.mpr h₀),if_neg (not_not.mpr h₁),
    if_neg hrecord]
  split
  · exact ⟨_,rfl,by decide⟩
  split
  · refine ⟨_,rfl,?_⟩
    intro herr
    have head := congrArg (fun s => s.toList.head?) (Option.some.inj herr)
    simp at head
  split
  · exact ⟨_,rfl,by decide⟩
  split
  · exact ⟨_,rfl,by decide⟩
  · exact ⟨r,hr,hne⟩

/-- A record that is cut off is told from one that is not. -/
theorem parseClientHello_cut {n : ℕ} (hn : 140000 ≤ n) (h : 9 ≤ p.length)
    (h₀ : p.getD 0 0 = tlsRecordTypeHandshake) (h₁ : p.getD 1 0 = tlsMajorVersion)
    (hcut : p.length < 5+recordLength p) :
    parseClientHello p ≠ parseClientHello (filled p n) := by
  intro heq
  obtain ⟨r,hr,hne⟩ := parseClientHello_filled hn h h₀ h₁
  rw [hr,parseClientHello_eq p h,if_neg (not_not.mpr h₀),if_neg (not_not.mpr h₁),if_pos hcut] at heq
  rw [← Except.ok.inj heq] at hne
  exact hne rfl

theorem contained_of_message (hp : p.length = messageEnd p)
    (hfits : handshakeLength p+4 ≤ recordLength p)
    (h : ∀ t, parseClientHello (p++t) = parseClientHello p) : Contained p := by
  obtain ⟨n,hn⟩ : ∃ n, 140000 ≤ n := ⟨_,Nat.le_refl _⟩
  have hm : messageEnd p = 9+handshakeLength p := rfl
  have hnine : 9 ≤ p.length := by omega
  by_contra hnot
  simp only [Contained,not_or,not_not,not_and] at hnot
  obtain ⟨h₀,h₁,hrest⟩ := hnot
  have hfill : parseClientHello p = parseClientHello (filled p n) := (h _).symm
  by_cases hfull : recordLength p = handshakeLength p+4
  · obtain ⟨h₅,h₃₅,hblock⟩ := hrest hfull
    have reads : ∀ t, parseClientHello (p++t) = parseBody (p++t) ((p.drop 9).take 2) 43 := by
      intro t
      rw [parseClientHello_append hnine,if_neg (not_not.mpr h₀),if_neg (not_not.mpr h₁),
        if_neg (by omega),if_neg (by omega),if_neg (not_not.mpr h₅),if_neg (by omega),if_neg h₃₅,
        version_append (by omega)]
    have hver : ((p.drop 9).take 2).length = 2 := by
      simp only [List.length_take,List.length_drop]
      omega
    have hshort := reads []
    rw [List.append_nil] at hshort
    rw [hshort,filled,reads] at hfill
    exact hblock (hp ▸ blockEnd_of_filled hn (by omega) hver hfill)
  · exact parseClientHello_cut hn hnine h₀ h₁ (by omega) hfill

/-- Data that starts with a whole message is the message and a rest. -/
theorem message_split {d : Bytes} (h : messageEnd d ≤ d.length) :
    ∃ p t, d = p++t ∧ p.length = messageEnd d ∧ messageEnd p = messageEnd d ∧
      recordLength p = recordLength d ∧ handshakeLength p = handshakeLength d ∧
      d.take (messageEnd d) = p ∧ (Contained p ↔ Contained d) := by
  refine ⟨d.take (messageEnd d),d.drop (messageEnd d),(List.take_append_drop _ _).symm,?_⟩
  have hlen : (d.take (messageEnd d)).length = messageEnd d := by simp [h]
  generalize hp : d.take (messageEnd d) = p at hlen ⊢
  generalize ht : d.drop (messageEnd d) = t
  have hd : d = p++t := by rw [← hp,← ht,List.take_append_drop]
  have hnine : 9 ≤ p.length := hlen ▸ Nat.le_add_right _ _
  obtain ⟨hrecord,hhandshake,h₀,h₁,h₅⟩ := header_append t hnine
  rw [← hd] at hrecord hhandshake h₀ h₁ h₅
  have hm : messageEnd p = messageEnd d := by rw [messageEnd,messageEnd,hhandshake]
  have hblock : blockEnd p ≤ messageEnd d ↔ blockEnd d ≤ messageEnd d := by
    constructor
    · intro hle
      rw [hd,blockEnd_append t (.inl (hlen ▸ hle)),← hd]
      exact hle
    · intro hle
      rw [← blockEnd_append t (.inr (by rw [← hd,hlen]; exact hle)),← hd]
      exact hle
  refine ⟨hlen,hm,hrecord.symm,hhandshake.symm,rfl,?_⟩
  rw [Contained,Contained,h₀,h₁,h₅,hrecord,hhandshake,hm,hblock]

end Message

/-- The outcome is that of the message alone exactly when the message fills its record and its
fields end inside it. Among records that are all there, the second is enough. -/
theorem readsMessageOnly_iff (d : Bytes) (hmessage : messageEnd d ≤ d.length)
    (hfits : handshakeLength d+4 ≤ recordLength d) :
    (ReadsMessageOnly d ↔ Contained d) ∧
      (blockEnd d ≤ messageEnd d → 5+recordLength d ≤ d.length → ∀ d',
        5+recordLength d ≤ d'.length → d'.take (messageEnd d) = d.take (messageEnd d) →
          parseClientHello d' = parseClientHello d) := by
  have hm : messageEnd d = 9+handshakeLength d := rfl
  obtain ⟨p,t,hd,hlen,hmessage',hrecord,hhandshake,htake,hcontained⟩ := message_split hmessage
  have hnine : 9 ≤ p.length := by omega
  have hlend : d.length = p.length+t.length := by rw [hd,List.length_append]
  have continued : ∀ d' : Bytes, d'.take (messageEnd d) = d.take (messageEnd d) →
      ∃ t', d' = p++t' := by
    intro d' h
    exact ⟨d'.drop (messageEnd d),by rw [← htake,← h,List.take_append_drop]⟩
  constructor
  · constructor
    · intro h
      have only : ∀ t', parseClientHello (p++t') = parseClientHello d := by
        intro t'
        apply h
        · rw [List.length_append]
          omega
        · rw [htake,← hlen,List.take_left]
      rw [← hcontained]
      apply contained_of_message (by omega) (by omega)
      intro t'
      rw [only t',← only [],List.append_nil]
    · intro h d' _ htake'
      obtain ⟨t',rfl⟩ := continued d' htake'
      rw [hd]
      exact (hcontained.mpr h).continued (by omega) t' t
  · intro hblock hcomplete d' hcomplete' htake'
    obtain ⟨t',rfl⟩ := continued d' htake'
    rw [List.length_append] at hcomplete'
    have hinside : blockEnd (p++t) ≤ p.length := by
      rw [← hd]
      omega
    have hblock' : blockEnd p ≤ p.length := blockEnd_append t (.inr hinside) ▸ hinside
    rw [hd]
    apply parseClientHello_continued hnine
    · exact .inr (.inr ⟨by omega,by omega⟩)
    · exact .inr (.inr (.inr (.inr hblock')))

/-- A hello without extensions whose record goes on behind the message. -/
def cutHello (rest : Bytes) : Bytes :=
  [0x16,3,1,0,59,1,0,0,41,3,3]++List.replicate 32 0++[0,0,2,0x13,1,1,0]++rest

/-- A server_name extension for `a.c` with the length of the block in front. -/
def nameBlock : Bytes := [0,12,0,0,0,8,0,6,0,0,3,97,46,99]

/-- The same hello with the extension in its message. -/
def fullHello : Bytes :=
  [0x16,3,1,0,59,1,0,0,55,3,3]++List.replicate 32 0++[0,0,2,0x13,1,1,0]++nameBlock

theorem readsMessageOnly_iff_full :
    ReadsMessageOnly fullHello ∧
      parseClientHello fullHello = .ok ⟨[3,3],61,3,false,false,none⟩ := by
  have hcontained : Contained fullHello := .inr (.inr ⟨by decide,.inr (.inr (by decide))⟩)
  exact ⟨(readsMessageOnly_iff fullHello (by decide) (by decide)).1.mpr hcontained,by decide⟩

/-- Bytes behind the message are taken for its extensions. -/
theorem bytes_behind_message_give_name :
    messageEnd (cutHello nameBlock) = 50 ∧
    (cutHello nameBlock).length = 64 ∧
    (cutHello (List.replicate 14 0)).length = 64 ∧
    (cutHello nameBlock).take 50 = (cutHello (List.replicate 14 0)).take 50 ∧
    parseClientHello (cutHello (List.replicate 14 0)) = .ok ⟨[3,3],-1,0,false,false,none⟩ ∧
    parseClientHello (cutHello nameBlock) = .ok ⟨[3,3],61,3,false,false,none⟩ := by
  decide

end ClientHello
end Enimul
