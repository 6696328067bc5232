import Enimul.GoRun
import Enimul.GoTime
import Enimul.Policies

/-! Decoding a policy.
`PolicyJSON` is the object after the typed decoding of its fields: a missing field is
`none`. `unmarshalJSON` checks the values and gives missing fields their unset value. -/
namespace Enimul
namespace PolicyDecode

open GoSlice GoText GoTime Policies GoRun

structure PolicyJSON where
  sniffOverride : Option Str := none
  replyFirst : Option Bool := none
  connectTimeout : Option Str := none
  host : Option Str := none
  mapTo : Option Str := none
  nat64Prefix : Option Str := none
  port : Option UInt16 := none
  dnsMode : Option Str := none
  dnsCacheTTL : Option Str := none
  httpStatus : Option UInt64 := none
  tls13Only : Option Bool := none
  mode : Option Str := none
  numRecords : Option UInt64 := none
  numSegments : Option Int64 := none
  waitForAck : Option Bool := none
  oob : Option Bool := none
  oobEx : Option Bool := none
  minorVer : Option UInt8 := none
  sendInterval : Option Str := none
  fakeTTL : Option UInt8 := none
  fakeSleep : Option Str := none
  maxTTL : Option UInt8 := none
  attempts : Option UInt64 := none
  singleTimeout : Option Str := none
  ttlCacheTTL : Option Str := none
  deriving DecidableEq

def sniffOverrideMode : Option Str → Except String SniffOverrideMode
  | none => .ok .unset
  | some s =>
    if s = str "off" then .ok .off
    else if s = str "always" then .ok .always
    else if s = str "policy_exists" then .ok .policyExists
    else if s = str "route_only" then .ok .routeOnly
    else .error ("invalid sniff_override: " ++ text s)

def modeOf : Option Str → Except String Mode
  | none => .ok .unset
  | some s =>
    if s = str "raw" then .ok .raw
    else if s = str "direct" then .ok .direct
    else if s = str "tls-rf" then .ok .tlsRF
    else if s = str "ttl-d" then .ok .ttld
    else if s = str "block" then .ok .block
    else if s = str "tls-alert" then .ok .tlsAlert
    else .error ("invalid mode: " ++ text s)

def dnsModeOf : Option Str → Except String DNSMode
  | none => .ok .unset
  | some s =>
    if s = str "prefer_ipv4" then .ok .preferIPv4
    else if s = str "prefer_ipv6" then .ok .preferIPv6
    else if s = str "ipv4_only" then .ok .ipv4Only
    else if s = str "ipv6_only" then .ok .ipv6Only
    else .error ("invalid dns_mode: " ++ text s)

def triBool : Option Bool → TriBool
  | none => .unset
  | some false => .false
  | some true => .true

def byteOf : Option UInt8 → Byte
  | none => ⟨0,false⟩
  | some b => ⟨b,true⟩

/-- `host` and `map_to` must not be the text that stands for unset. -/
def hostText (name : String) : Option Str → Except String Str
  | none => .ok unsetString
  | some s => if s = unsetString then .error (name ++ " cannot be `\\x00`") else .ok s

def nat64Text : Option Str → Str
  | none => []
  | some s =>
    let trimmed := trimSpace s
    if trimmed = unsetString ∨ trimmed = [] ∨ trimmed = str "off" then [] else trimmed

/-- A count that may be missing but not zero; 0 means unset. -/
def countOf (name : String) : Option UInt64 → Except String ℤ
  | none => .ok 0
  | some n => if n = 0 then .error (name ++ " cannot be 0") else .ok n.toInt64.toInt

def segmentsOf : Option Int64 → Except String ℤ
  | none => .ok 0
  | some n =>
    if n.toInt = 0 then .error "num_segs cannot be 0"
    else if n.toInt < -1 then .error "num_segs cannot be less than -1"
    else .ok n.toInt

def maxTTLOf : Option UInt8 → Except String ℤ
  | none => .ok 0
  | some n => if n = 0 then .error "max_ttl cannot be 0" else .ok n.toNat

/-- A duration that has to pass a check; `unset` stands for a missing one. -/
def durationOf (name : String) (unset : ℤ) (valid : ℤ → Bool) (complaint : String) :
    Option Str → Except String ℤ
  | none => .ok unset
  | some s =>
    match parseDuration s with
    | .error err => .error ("parse " ++ name ++ " " ++ text s ++ ": " ++ err)
    | .ok d => if valid d then .ok d else .error (name ++ " " ++ text s ++ ": " ++ complaint)

def connectTimeoutOf : Option Str → Except String ℤ :=
  durationOf "connect_timeout" unsetInt (fun d => 0 < d) "must be greater than 0"

def sendIntervalOf : Option Str → Except String ℤ :=
  durationOf "send_interval" unsetInt (fun d => 0 ≤ d) "outside the valid range"

def fakeSleepOf : Option Str → Except String ℤ :=
  durationOf "fake_sleep" 0 (fun d => 0 < d) "must be greater than 0"

def singleTimeoutOf : Option Str → Except String ℤ :=
  durationOf "single_timeout" unsetInt (fun d => 0 < d) "must be greater than 0"

def dnsCacheTTLOf : Option Str → Except String ℤ :=
  durationOf "dns_cache_ttl" unsetInt (fun d => 0 ≤ d) "must be greater than -1"

def ttlCacheTTLOf : Option Str → Except String ℤ :=
  durationOf "ttl_cache_ttl" unsetInt (fun d => 0 ≤ d) "must be greater than -1"

def unmarshalJSON (tmp : PolicyJSON) : Except String Policy := do
  let sniffOverrideMode ← sniffOverrideMode tmp.sniffOverride
  let dnsMode ← dnsModeOf tmp.dnsMode
  let mode ← modeOf tmp.mode
  let host ← hostText "host" tmp.host
  let mapTo ← hostText "map_to" tmp.mapTo
  let numRecords ← countOf "num_records" tmp.numRecords
  let numSegments ← segmentsOf tmp.numSegments
  let attempts ← countOf "attempts" tmp.attempts
  let maxTTL ← maxTTLOf tmp.maxTTL
  let connectTimeout ← connectTimeoutOf tmp.connectTimeout
  let sendInterval ← sendIntervalOf tmp.sendInterval
  let fakeSleep ← fakeSleepOf tmp.fakeSleep
  let singleTimeout ← singleTimeoutOf tmp.singleTimeout
  let dnsCacheTTL ← dnsCacheTTLOf tmp.dnsCacheTTL
  let ttlCacheTTL ← ttlCacheTTLOf tmp.ttlCacheTTL
  return {
    sniffOverrideMode, dnsMode, mode, host, mapTo, numRecords, numSegments, attempts, maxTTL,
    connectTimeout, sendInterval, fakeSleep, singleTimeout, dnsCacheTTL, ttlCacheTTL,
    replyFirst := triBool tmp.replyFirst
    tls13Only := triBool tmp.tls13Only
    oob := triBool tmp.oob
    oobEx := triBool tmp.oobEx
    waitForAck := triBool tmp.waitForAck
    minorVer := byteOf tmp.minorVer
    nat64Prefix := nat64Text tmp.nat64Prefix
    port := (tmp.port.map fun n => (n.toNat : ℤ)).getD unsetInt
    httpStatus := (tmp.httpStatus.map fun n => n.toInt64.toInt).getD unsetInt
    fakeTTL := (tmp.fakeTTL.map fun n => (n.toNat : ℤ)).getD unsetInt}

/-- A decoded duration is missing or has passed its check. -/
theorem durationOf_ok {name complaint : String} {unset d : ℤ} {valid : ℤ → Bool} {field : Option Str}
    (h : durationOf name unset valid complaint field = .ok d) : d = unset ∨ valid d = true := by
  cases field with
  | none => exact .inl (Except.ok.inj h).symm
  | some s =>
    rw [durationOf] at h
    split at h
    · simp at h
    split at h
    · rename_i hv
      exact .inr (Except.ok.inj h ▸ hv)
    · simp at h

/-- The connect timeout is unset or can be given to a dial. -/
def WellTimed (p : Policy) : Prop := p.connectTimeout = unsetInt ∨ 0 < p.connectTimeout

theorem unmarshalJSON_ok {tmp : PolicyJSON} {p : Policy} (h : unmarshalJSON tmp = .ok p) :
    connectTimeoutOf tmp.connectTimeout = .ok p.connectTimeout ∧
      p.minorVer = byteOf tmp.minorVer ∧ p.nat64Prefix = nat64Text tmp.nat64Prefix := by
  rw [unmarshalJSON] at h
  obtain ⟨sniffOverrideMode,-,h⟩ := except_bind_ok h
  obtain ⟨dnsMode,-,h⟩ := except_bind_ok h
  obtain ⟨mode,-,h⟩ := except_bind_ok h
  obtain ⟨host,-,h⟩ := except_bind_ok h
  obtain ⟨mapTo,-,h⟩ := except_bind_ok h
  obtain ⟨numRecords,-,h⟩ := except_bind_ok h
  obtain ⟨numSegments,-,h⟩ := except_bind_ok h
  obtain ⟨attempts,-,h⟩ := except_bind_ok h
  obtain ⟨maxTTL,-,h⟩ := except_bind_ok h
  obtain ⟨connectTimeout,htimeout,h⟩ := except_bind_ok h
  obtain ⟨sendInterval,-,h⟩ := except_bind_ok h
  obtain ⟨fakeSleep,-,h⟩ := except_bind_ok h
  obtain ⟨singleTimeout,-,h⟩ := except_bind_ok h
  obtain ⟨dnsCacheTTL,-,h⟩ := except_bind_ok h
  obtain ⟨ttlCacheTTL,-,h⟩ := except_bind_ok h
  rw [← Except.ok.inj h]
  exact ⟨htimeout,rfl,rfl⟩

theorem unmarshalJSON_wellTimed {tmp : PolicyJSON} {p : Policy} (h : unmarshalJSON tmp = .ok p) :
    WellTimed p := by
  rcases durationOf_ok (unmarshalJSON_ok h).1 with hunset | hpos
  · exact .inl hunset
  · exact .inr (of_decide_eq_true hpos)

/-- A decoded version byte that is unset is zero. -/
theorem unmarshalJSON_minorVer {tmp : PolicyJSON} {p : Policy} (h : unmarshalJSON tmp = .ok p)
    (hunset : p.minorVer.valid = false) : p.minorVer = ⟨0,false⟩ := by
  have hver := (unmarshalJSON_ok h).2.1
  cases hm : tmp.minorVer with
  | none => rw [hver,hm,byteOf]
  | some b => simp [hver,hm,byteOf] at hunset

end PolicyDecode
end Enimul
