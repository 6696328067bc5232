import Enimul.PolicyFields
import Mathlib.Data.List.Nodup
import Mathlib.Data.List.Induction
import Mathlib.Data.List.Perm.Subperm

/-! The policy format of the app.
The app reads a policy object into a class of its own, which has the fields of the format once
more, and writes it back for the core. Both readers take an object as a list of members; the core
also takes a key that is written in another case, the app only the exact one. -/
namespace Enimul
namespace KotlinPolicy

open GoSlice GoText Policies PolicyDecode GoRun

/-- A value in an object. `other` is a number that is not written as an integer, an array or an
object. -/
inductive Value
  | null
  | bool (b : Bool)
  | int (n : ℤ)
  | string (s : Str)
  | other
  deriving DecidableEq

abbrev Object := List (Str × Value)

section Go

/-- `foldName` of encoding/json. Besides the ASCII letters only ſ and the Kelvin sign are folded
to ASCII. -/
def foldName : Str → Str
  | 0xC5::0xBF::rest => 83::foldName rest
  | 0xE2::0x84::0xAA::rest => 75::foldName rest
  | b::rest => (if 97 ≤ b ∧ b ≤ 122 then b-32 else b)::foldName rest
  | [] => []

/-- The tags of the struct that an object is decoded into. -/
def fieldNames : List Str :=
  [str "sniff_override",str "reply_first",str "connect_timeout",str "host",str "map_to",
    str "nat64_prefix",str "port",str "dns_mode",str "dns_cache_ttl",str "http_status",
    str "tls13_only",str "mode",str "num_records",str "num_segs",str "wait_for_ack",str "oob",
    str "oob_ex",str "minor_ver",str "send_interval",str "fake_ttl",str "fake_sleep",str "max_ttl",
    str "attempts",str "single_timeout",str "ttl_cache_ttl"]

/-- The field for a key: the one with this name, else one with this name up to case. -/
def lookupField (names : List Str) (key : Str) : Option Str :=
  match names.find? fun name => name = key with
  | some name => some name
  | none => names.find? fun name => foldName name = foldName key

/-- The members of the object for a field. -/
def spelled (o : Object) (name : Str) : Object :=
  o.filter fun m => lookupField fieldNames m.1 = some name

/-- The members for a field are decoded one after the other, and the last one stays. -/
def decodeField {ρ : Type} (o : Object) (name : String)
    (fromValue : Value → Except String (Option ρ)) : Except String (Option ρ) :=
  (spelled o (str name)).foldlM (fun _ m => fromValue m.2) none

def stringField : Value → Except String (Option Str)
  | .null => .ok none
  | .string s => .ok (some s)
  | _ => .error "json: cannot unmarshal into Go value of type string"

def numberField {α : Type} (lo hi : ℤ) (ofInt : ℤ → α) : Value → Except String (Option α)
  | .null => .ok none
  | .int n =>
    if lo ≤ n ∧ n < hi then .ok (some (ofInt n))
    else .error "json: cannot unmarshal number into Go value"
  | _ => .error "json: cannot unmarshal into Go value of type number"

def uint8Field : Value → Except String (Option UInt8) :=
  numberField 0 (2^8) fun n => .ofNat n.toNat

def uint16Field : Value → Except String (Option UInt16) :=
  numberField 0 (2^16) fun n => .ofNat n.toNat

def uintField : Value → Except String (Option UInt64) :=
  numberField 0 (2^64) fun n => .ofNat n.toNat

def intField : Value → Except String (Option Int64) := numberField (-2^63) (2^63) .ofInt

/-- `TriBool.UnmarshalJSON`. -/
def triBoolField : Value → Except String (Option Bool)
  | .bool b => .ok (some b)
  | _ => .error "invalid bool"

/-- `UnmarshalJSON` of the enumerations. Null leaves the text empty. -/
def enumField {α : Type} (parse : Option Str → Except String α) (v : Value) :
    Except String (Option Str) := do
  let s := (← stringField v).getD []
  let _ ← parse (some s)
  return some s

/-- `Byte.UnmarshalJSON`. Null leaves the byte zero. -/
def byteField (v : Value) : Except String (Option UInt8) := do
  let x := (← uint8Field v).getD 0
  return some x

/-- `json.Unmarshal` into the struct of `Policy.UnmarshalJSON`. -/
def decodeJSON (o : Object) : Except String PolicyJSON := do
  let sniffOverride ← decodeField o "sniff_override" (enumField sniffOverrideMode)
  let replyFirst ← decodeField o "reply_first" triBoolField
  let connectTimeout ← decodeField o "connect_timeout" stringField
  let host ← decodeField o "host" stringField
  let mapTo ← decodeField o "map_to" stringField
  let nat64Prefix ← decodeField o "nat64_prefix" stringField
  let port ← decodeField o "port" uint16Field
  let dnsMode ← decodeField o "dns_mode" (enumField dnsModeOf)
  let dnsCacheTTL ← decodeField o "dns_cache_ttl" stringField
  let httpStatus ← decodeField o "http_status" uintField
  let tls13Only ← decodeField o "tls13_only" triBoolField
  let mode ← decodeField o "mode" (enumField modeOf)
  let numRecords ← decodeField o "num_records" uintField
  let numSegments ← decodeField o "num_segs" intField
  let waitForAck ← decodeField o "wait_for_ack" triBoolField
  let oob ← decodeField o "oob" triBoolField
  let oobEx ← decodeField o "oob_ex" triBoolField
  let minorVer ← decodeField o "minor_ver" byteField
  let sendInterval ← decodeField o "send_interval" stringField
  let fakeTTL ← decodeField o "fake_ttl" uint8Field
  let fakeSleep ← decodeField o "fake_sleep" stringField
  let maxTTL ← decodeField o "max_ttl" uint8Field
  let attempts ← decodeField o "attempts" uintField
  let singleTimeout ← decodeField o "single_timeout" stringField
  let ttlCacheTTL ← decodeField o "ttl_cache_ttl" stringField
  return {
    sniffOverride, replyFirst, connectTimeout, host, mapTo, nat64Prefix, port, dnsMode, dnsCacheTTL,
    httpStatus, tls13Only, mode, numRecords, numSegments, waitForAck, oob, oobEx, minorVer,
    sendInterval, fakeTTL, fakeSleep, maxTTL, attempts, singleTimeout, ttlCacheTTL}

/-- `Policy.UnmarshalJSON` on an object. -/
def unmarshal (o : Object) : Except String Policy := do
  let tmp ← decodeJSON o
  unmarshalJSON tmp

end Go

section Kotlin

/-- The class `Policy` of the app. -/
structure KPolicy where
  replyFirst : Option Bool := none
  sniffOverride : Option Str := none
  dnsMode : Option Str := none
  dnsCacheTtl : Option Str := none
  connectTimeout : Option Str := none
  tls13Only : Option Bool := none
  httpStatus : Option Int32 := none
  mode : Option Str := none
  minorVer : Option Int32 := none
  numRecords : Option Int32 := none
  numSegs : Option Int32 := none
  waitForAck : Option Bool := none
  sendInterval : Option Str := none
  oob : Option Bool := none
  oobEx : Option Bool := none
  fakeTtl : Option Int32 := none
  fakeSleep : Option Str := none
  attempts : Option Int32 := none
  maxTtl : Option Int32 := none
  singleTimeout : Option Str := none
  ttlCacheTtl : Option Str := none
  host : Option Str := none
  mapTo : Option Str := none
  nat64Prefix : Option Str := none

/-- The types of the properties, all of them nullable. -/
inductive KType
  | boolean
  | string
  | int
  deriving DecidableEq

/-- A property of the class: its name in an object, its type and the value to write for it. -/
structure Property where
  name : String
  type : KType
  value : KPolicy → Option Value

def Property.boolean (name : String) (get : KPolicy → Option Bool) : Property :=
  ⟨name,.boolean,fun k => (get k).map .bool⟩

def Property.string (name : String) (get : KPolicy → Option Str) : Property :=
  ⟨name,.string,fun k => (get k).map .string⟩

def Property.int (name : String) (get : KPolicy → Option Int32) : Property :=
  ⟨name,.int,fun k => (get k).map fun n => .int n.toInt⟩

def properties : List Property :=
  [.boolean "reply_first" KPolicy.replyFirst,.string "sniff_override" KPolicy.sniffOverride,
    .string "dns_mode" KPolicy.dnsMode,.string "dns_cache_ttl" KPolicy.dnsCacheTtl,
    .string "connect_timeout" KPolicy.connectTimeout,.boolean "tls13_only" KPolicy.tls13Only,
    .int "http_status" KPolicy.httpStatus,.string "mode" KPolicy.mode,
    .int "minor_ver" KPolicy.minorVer,.int "num_records" KPolicy.numRecords,
    .int "num_segs" KPolicy.numSegs,.boolean "wait_for_ack" KPolicy.waitForAck,
    .string "send_interval" KPolicy.sendInterval,.boolean "oob" KPolicy.oob,
    .boolean "oob_ex" KPolicy.oobEx,.int "fake_ttl" KPolicy.fakeTtl,
    .string "fake_sleep" KPolicy.fakeSleep,.int "attempts" KPolicy.attempts,
    .int "max_ttl" KPolicy.maxTtl,.string "single_timeout" KPolicy.singleTimeout,
    .string "ttl_cache_ttl" KPolicy.ttlCacheTtl,.string "host" KPolicy.host,
    .string "map_to" KPolicy.mapTo,.string "nat64_prefix" KPolicy.nat64Prefix]

/-- The value of the member with exactly this name. -/
def exactly (o : Object) (name : Str) : Option Value := (o.find? fun m => m.1 = name).map (·.2)

def booleanOf : Option Value → Option Bool
  | some (.bool b) => some b
  | _ => none

def stringOf : Option Value → Option Str
  | some (.string s) => some s
  | _ => none

def intOf : Option Value → Option Int32
  | some (.int n) => some (.ofInt n)
  | _ => none

/-- The object as an instance of the class: other names are skipped, and a property that is
missing or null is null. -/
def readPolicy (o : Object) : KPolicy where
  replyFirst := booleanOf (exactly o (str "reply_first"))
  sniffOverride := stringOf (exactly o (str "sniff_override"))
  dnsMode := stringOf (exactly o (str "dns_mode"))
  dnsCacheTtl := stringOf (exactly o (str "dns_cache_ttl"))
  connectTimeout := stringOf (exactly o (str "connect_timeout"))
  tls13Only := booleanOf (exactly o (str "tls13_only"))
  httpStatus := intOf (exactly o (str "http_status"))
  mode := stringOf (exactly o (str "mode"))
  minorVer := intOf (exactly o (str "minor_ver"))
  numRecords := intOf (exactly o (str "num_records"))
  numSegs := intOf (exactly o (str "num_segs"))
  waitForAck := booleanOf (exactly o (str "wait_for_ack"))
  sendInterval := stringOf (exactly o (str "send_interval"))
  oob := booleanOf (exactly o (str "oob"))
  oobEx := booleanOf (exactly o (str "oob_ex"))
  fakeTtl := intOf (exactly o (str "fake_ttl"))
  fakeSleep := stringOf (exactly o (str "fake_sleep"))
  attempts := intOf (exactly o (str "attempts"))
  maxTtl := intOf (exactly o (str "max_ttl"))
  singleTimeout := stringOf (exactly o (str "single_timeout"))
  ttlCacheTtl := stringOf (exactly o (str "ttl_cache_ttl"))
  host := stringOf (exactly o (str "host"))
  mapTo := stringOf (exactly o (str "map_to"))
  nat64Prefix := stringOf (exactly o (str "nat64_prefix"))

/-- The members for the properties that are not null. -/
def writePolicy (k : KPolicy) : Object :=
  properties.filterMap fun property =>
    (property.value k).map fun v => (str property.name,v)

/-- What can be read into a property of the type. -/
def KType.accepts : KType → Value → Bool
  | _,.null => true
  | .boolean,.bool _ => true
  | .string,.string _ => true
  | .int,.int n => -2^31 ≤ n ∧ n < 2^31
  | _,_ => false

def WellTyped (o : Object) : Prop :=
  ∀ property ∈ properties, ∀ v ∈ exactly o (str property.name), property.type.accepts v

/-- No property of the class occurs twice. -/
def Once (o : Object) : Prop :=
  ∀ property ∈ properties, (o.filter fun m => m.1 = str property.name).length ≤ 1

/-- The Moshi adapter for the class. What it does with a name that occurs twice is not said. -/
structure Adapter where
  fromJson : Object → Except String KPolicy
  toJson : KPolicy → Object
  reads : ∀ o, Once o → WellTyped o → fromJson o = .ok (readPolicy o)
  writes : ∀ k, toJson k = writePolicy k

/-- A policy object that has been through the app, as the core reads it. -/
def roundTrip (adapter : Adapter) (o : Object) : Except String Policy := do
  let k ← adapter.fromJson o
  unmarshal (adapter.toJson k)

end Kotlin

section Members

theorem foldNames_nodup : (fieldNames.map foldName).Nodup := by decide +kernel

theorem fieldNames_nodup : fieldNames.Nodup := foldNames_nodup.of_map

theorem foldName_injOn {name name' : Str} (h : name ∈ fieldNames) (h' : name' ∈ fieldNames)
    (heq : foldName name = foldName name') : name = name' :=
  List.inj_on_of_nodup_map foldNames_nodup h h' heq

theorem perm_fieldNames {names : List Str} (hlen : names.length ≤ 25) (h : fieldNames ⊆ names) :
    fieldNames.Perm names :=
  (fieldNames_nodup.subperm h).perm_of_length_le hlen

/-- A key belongs to the field whose name it is up to case. -/
theorem lookupField_iff {name : Str} (h : name ∈ fieldNames) (key : Str) :
    lookupField fieldNames key = some name ↔ foldName key = foldName name := by
  rw [lookupField]
  cases hexact : fieldNames.find? fun name => name = key with
  | some name' =>
    have hmem := List.mem_of_find?_eq_some hexact
    obtain rfl : name' = key := by simpa using List.find?_some hexact
    constructor
    · intro heq
      rw [Option.some.inj heq]
    · intro heq
      rw [foldName_injOn hmem h heq]
  | none =>
    constructor
    · intro hfind
      have heq : foldName name = foldName key := by simpa using List.find?_some hfind
      exact heq.symm
    · intro heq
      have hsome : (fieldNames.find? fun name => foldName name = foldName key).isSome := by
        rw [List.find?_isSome]
        exact ⟨name,h,decide_eq_true heq.symm⟩
      obtain ⟨name',hfind⟩ := Option.isSome_iff_exists.mp hsome
      have hmem := List.mem_of_find?_eq_some hfind
      have heq' : foldName name' = foldName key := by simpa using List.find?_some hfind
      rw [hfind,foldName_injOn hmem h (heq'.trans heq)]

/-- The value of the last member for a field. -/
def lastSpelled (o : Object) (name : Str) : Option Value := (spelled o name).getLast?.map (·.2)

/-- A missing value leaves the field missing. -/
def typed {ρ : Type} (fromValue : Value → Except String (Option ρ)) :
    Option Value → Except String (Option ρ)
  | none => .ok none
  | some v => fromValue v

theorem foldlM_last {ρ : Type} {fromValue : Value → Except String (Option ρ)} {raw : Option ρ}
    (ms : Object) :
    ms.foldlM (fun _ m => fromValue m.2) none = .ok raw ↔
      (∀ m ∈ ms, ∃ raw, fromValue m.2 = .ok raw) ∧
        typed fromValue (ms.getLast?.map (·.2)) = .ok raw := by
  induction ms using List.reverseRecOn generalizing raw with
  | nil => simp [typed,pure,Except.pure]
  | append_singleton ms m ih =>
    rw [List.foldlM_append,List.getLast?_concat]
    constructor
    · intro h
      obtain ⟨before,hbefore,h⟩ := except_bind_ok h
      have hm : fromValue m.2 = .ok raw := by simpa using h
      refine ⟨?_,hm⟩
      intro m' hm'
      rcases List.mem_append.mp hm' with hm' | hm'
      · exact (ih.mp hbefore).1 m' hm'
      · rw [List.mem_singleton.mp hm']
        exact ⟨raw,hm⟩
    · rintro ⟨hall,hlast⟩
      have hms : ∀ m ∈ ms, ∃ raw, fromValue m.2 = .ok raw :=
        fun m' hm' => hall m' (List.mem_append_left _ hm')
      have hbefore : ∃ before, typed fromValue (ms.getLast?.map (·.2)) = .ok before := by
        cases hm' : ms.getLast? with
        | none => exact ⟨none,rfl⟩
        | some m' => exact hms m' (List.mem_of_getLast? hm')
      obtain ⟨before,hbefore⟩ := hbefore
      refine except_bind_of_ok (ih.mpr ⟨hms,hbefore⟩) ?_
      simpa [typed] using hlast

/-- How the core decodes a key: the value into the struct, and the struct's field into the policy's.
`type` is the type of the values that it takes. -/
structure Member where
  name : String
  type : KType
  Raw : Type
  Out : Type
  fromValue : Value → Except String (Option Raw)
  json : PolicyJSON → Option Raw
  decode : Option Raw → Except String Out
  get : Policy → Out

def Member.port : Member :=
  ⟨"port",.int,_,_,uint16Field,PolicyJSON.port,portOf,Policy.port⟩

def Member.minorVer : Member :=
  ⟨"minor_ver",.int,_,_,byteField,PolicyJSON.minorVer,fun raw => .ok (byteOf raw),Policy.minorVer⟩

/-- The keys in the order of `keys`. -/
def members : List Member :=
  [⟨"reply_first",.boolean,_,_,triBoolField,PolicyJSON.replyFirst,triBoolOf,Policy.replyFirst⟩,
    ⟨"sniff_override",.string,_,_,enumField sniffOverrideMode,PolicyJSON.sniffOverride,
      sniffOverrideMode,Policy.sniffOverrideMode⟩,
    ⟨"dns_mode",.string,_,_,enumField dnsModeOf,PolicyJSON.dnsMode,dnsModeOf,Policy.dnsMode⟩,
    ⟨"dns_cache_ttl",.string,_,_,stringField,PolicyJSON.dnsCacheTTL,dnsCacheTTLOf,
      Policy.dnsCacheTTL⟩,
    ⟨"connect_timeout",.string,_,_,stringField,PolicyJSON.connectTimeout,connectTimeoutOf,
      Policy.connectTimeout⟩,
    ⟨"host",.string,_,_,stringField,PolicyJSON.host,hostText "host",Policy.host⟩,
    ⟨"map_to",.string,_,_,stringField,PolicyJSON.mapTo,hostText "map_to",Policy.mapTo⟩,
    ⟨"nat64_prefix",.string,_,_,stringField,PolicyJSON.nat64Prefix,nat64Of,Policy.nat64Prefix⟩,
    .port,
    ⟨"http_status",.int,_,_,uintField,PolicyJSON.httpStatus,statusOf,Policy.httpStatus⟩,
    ⟨"tls13_only",.boolean,_,_,triBoolField,PolicyJSON.tls13Only,triBoolOf,Policy.tls13Only⟩,
    ⟨"mode",.string,_,_,enumField modeOf,PolicyJSON.mode,modeOf,Policy.mode⟩,
    ⟨"num_records",.int,_,_,uintField,PolicyJSON.numRecords,countOf "num_records",
      Policy.numRecords⟩,
    ⟨"num_segs",.int,_,_,intField,PolicyJSON.numSegments,segmentsOf,Policy.numSegments⟩,
    ⟨"wait_for_ack",.boolean,_,_,triBoolField,PolicyJSON.waitForAck,triBoolOf,Policy.waitForAck⟩,
    ⟨"oob",.boolean,_,_,triBoolField,PolicyJSON.oob,triBoolOf,Policy.oob⟩,
    ⟨"oob_ex",.boolean,_,_,triBoolField,PolicyJSON.oobEx,triBoolOf,Policy.oobEx⟩,
    .minorVer,
    ⟨"send_interval",.string,_,_,stringField,PolicyJSON.sendInterval,sendIntervalOf,
      Policy.sendInterval⟩,
    ⟨"fake_ttl",.int,_,_,uint8Field,PolicyJSON.fakeTTL,fakeTTLOf,Policy.fakeTTL⟩,
    ⟨"fake_sleep",.string,_,_,stringField,PolicyJSON.fakeSleep,fakeSleepOf,Policy.fakeSleep⟩,
    ⟨"max_ttl",.int,_,_,uint8Field,PolicyJSON.maxTTL,maxTTLOf,Policy.maxTTL⟩,
    ⟨"attempts",.int,_,_,uintField,PolicyJSON.attempts,countOf "attempts",Policy.attempts⟩,
    ⟨"single_timeout",.string,_,_,stringField,PolicyJSON.singleTimeout,singleTimeoutOf,
      Policy.singleTimeout⟩,
    ⟨"ttl_cache_ttl",.string,_,_,stringField,PolicyJSON.ttlCacheTTL,ttlCacheTTLOf,
      Policy.ttlCacheTTL⟩]

theorem unmarshalJSON_members {tmp : PolicyJSON} {p : Policy} :
    unmarshalJSON tmp = .ok p ↔ ∀ m ∈ members, m.decode (m.json tmp) = .ok (m.get p) := by
  rw [unmarshalJSON_iff]
  simp only [keys,members,List.forall_mem_cons,List.not_mem_nil,false_implies,implies_true]
  exact Iff.rfl

theorem decodeJSON_iff {o : Object} {tmp : PolicyJSON} :
    decodeJSON o = .ok tmp ↔
      ∀ m ∈ members, decodeField o m.name m.fromValue = .ok (m.json tmp) := by
  simp only [members,List.forall_mem_cons]
  constructor
  · intro h
    rw [decodeJSON] at h
    obtain ⟨sniffOverride,h₁,h⟩ := except_bind_ok h
    obtain ⟨replyFirst,h₂,h⟩ := except_bind_ok h
    obtain ⟨connectTimeout,h₃,h⟩ := except_bind_ok h
    obtain ⟨host,h₄,h⟩ := except_bind_ok h
    obtain ⟨mapTo,h₅,h⟩ := except_bind_ok h
    obtain ⟨nat64Prefix,h₆,h⟩ := except_bind_ok h
    obtain ⟨port,h₇,h⟩ := except_bind_ok h
    obtain ⟨dnsMode,h₈,h⟩ := except_bind_ok h
    obtain ⟨dnsCacheTTL,h₉,h⟩ := except_bind_ok h
    obtain ⟨httpStatus,h₁₀,h⟩ := except_bind_ok h
    obtain ⟨tls13Only,h₁₁,h⟩ := except_bind_ok h
    obtain ⟨mode,h₁₂,h⟩ := except_bind_ok h
    obtain ⟨numRecords,h₁₃,h⟩ := except_bind_ok h
    obtain ⟨numSegments,h₁₄,h⟩ := except_bind_ok h
    obtain ⟨waitForAck,h₁₅,h⟩ := except_bind_ok h
    obtain ⟨oob,h₁₆,h⟩ := except_bind_ok h
    obtain ⟨oobEx,h₁₇,h⟩ := except_bind_ok h
    obtain ⟨minorVer,h₁₈,h⟩ := except_bind_ok h
    obtain ⟨sendInterval,h₁₉,h⟩ := except_bind_ok h
    obtain ⟨fakeTTL,h₂₀,h⟩ := except_bind_ok h
    obtain ⟨fakeSleep,h₂₁,h⟩ := except_bind_ok h
    obtain ⟨maxTTL,h₂₂,h⟩ := except_bind_ok h
    obtain ⟨attempts,h₂₃,h⟩ := except_bind_ok h
    obtain ⟨singleTimeout,h₂₄,h⟩ := except_bind_ok h
    obtain ⟨ttlCacheTTL,h₂₅,h⟩ := except_bind_ok h
    obtain rfl := Except.ok.inj h
    exact ⟨h₂,h₁,h₈,h₉,h₃,h₄,h₅,h₆,h₇,h₁₀,h₁₁,h₁₂,h₁₃,h₁₄,h₁₅,h₁₆,h₁₇,h₁₈,h₁₉,h₂₀,h₂₁,h₂₂,h₂₃,h₂₄,
      h₂₅,by simp⟩
  · rintro ⟨h₂,h₁,h₈,h₉,h₃,h₄,h₅,h₆,h₇,h₁₀,h₁₁,h₁₂,h₁₃,h₁₄,h₁₅,h₁₆,h₁₇,h₁₈,h₁₉,h₂₀,h₂₁,h₂₂,h₂₃,h₂₄,
      h₂₅,-⟩
    rw [decodeJSON]
    exact except_bind_of_ok h₁ (except_bind_of_ok h₂ (except_bind_of_ok h₃ (except_bind_of_ok h₄
      (except_bind_of_ok h₅ (except_bind_of_ok h₆ (except_bind_of_ok h₇ (except_bind_of_ok h₈
      (except_bind_of_ok h₉ (except_bind_of_ok h₁₀ (except_bind_of_ok h₁₁ (except_bind_of_ok h₁₂
      (except_bind_of_ok h₁₃ (except_bind_of_ok h₁₄ (except_bind_of_ok h₁₅ (except_bind_of_ok h₁₆
      (except_bind_of_ok h₁₇ (except_bind_of_ok h₁₈ (except_bind_of_ok h₁₉ (except_bind_of_ok h₂₀
      (except_bind_of_ok h₂₁ (except_bind_of_ok h₂₂ (except_bind_of_ok h₂₃ (except_bind_of_ok h₂₄
      (except_bind_of_ok h₂₅ rfl))))))))))))))))))))))))

theorem decodeJSON_exists {o : Object}
    (h : ∀ m ∈ members, ∃ raw, decodeField o m.name m.fromValue = .ok raw) :
    ∃ tmp, decodeJSON o = .ok tmp := by
  simp only [members,List.forall_mem_cons] at h
  obtain ⟨h₂,h₁,h₈,h₉,h₃,h₄,h₅,h₆,h₇,h₁₀,h₁₁,h₁₂,h₁₃,h₁₄,h₁₅,h₁₆,h₁₇,h₁₈,h₁₉,h₂₀,h₂₁,h₂₂,h₂₃,h₂₄,
    h₂₅,-⟩ := h
  rw [decodeJSON]
  exact except_bind_exists h₁ fun _ => except_bind_exists h₂ fun _ =>
    except_bind_exists h₃ fun _ => except_bind_exists h₄ fun _ => except_bind_exists h₅ fun _ =>
    except_bind_exists h₆ fun _ => except_bind_exists h₇ fun _ => except_bind_exists h₈ fun _ =>
    except_bind_exists h₉ fun _ => except_bind_exists h₁₀ fun _ => except_bind_exists h₁₁ fun _ =>
    except_bind_exists h₁₂ fun _ => except_bind_exists h₁₃ fun _ =>
    except_bind_exists h₁₄ fun _ => except_bind_exists h₁₅ fun _ =>
    except_bind_exists h₁₆ fun _ => except_bind_exists h₁₇ fun _ =>
    except_bind_exists h₁₈ fun _ => except_bind_exists h₁₉ fun _ =>
    except_bind_exists h₂₀ fun _ => except_bind_exists h₂₁ fun _ =>
    except_bind_exists h₂₂ fun _ => except_bind_exists h₂₃ fun _ =>
    except_bind_exists h₂₄ fun _ => except_bind_exists h₂₅ fun _ => ⟨_,rfl⟩

/-- What the core makes of the value for a key. -/
def Member.value (m : Member) (v : Option Value) : Except String m.Out := do
  let raw ← typed m.fromValue v
  m.decode raw

/-- Every member for the key can be decoded. -/
def Member.Takes (m : Member) (o : Object) : Prop :=
  ∀ x ∈ spelled o (str m.name), ∃ raw, m.fromValue x.2 = .ok raw

/-- A policy is what the core makes of the last value for each key. -/
theorem unmarshal_iff {o : Object} {p : Policy} :
    unmarshal o = .ok p ↔
      ∀ m ∈ members, m.Takes o ∧ m.value (lastSpelled o (str m.name)) = .ok (m.get p) := by
  constructor
  · intro h m hm
    obtain ⟨tmp,htmp,h⟩ := except_bind_ok h
    obtain ⟨htakes,hraw⟩ := (foldlM_last _).mp (decodeJSON_iff.mp htmp m hm)
    exact ⟨htakes,except_bind_of_ok hraw (unmarshalJSON_members.mp h m hm)⟩
  · intro h
    have hraw : ∀ m ∈ members, ∃ raw, decodeField o m.name m.fromValue = .ok raw ∧
        m.decode raw = .ok (m.get p) := by
      intro m hm
      obtain ⟨htakes,hvalue⟩ := h m hm
      obtain ⟨raw,hraw,hdecode⟩ := except_bind_ok hvalue
      exact ⟨raw,(foldlM_last _).mpr ⟨htakes,hraw⟩,hdecode⟩
    obtain ⟨tmp,htmp⟩ := decodeJSON_exists fun m hm => (hraw m hm).imp fun _ h => h.1
    refine except_bind_of_ok htmp (unmarshalJSON_members.mpr ?_)
    intro m hm
    obtain ⟨raw,hfield,hdecode⟩ := hraw m hm
    rw [← Except.ok.inj (hfield.symm.trans (decodeJSON_iff.mp htmp m hm))]
    exact hdecode

end Members

section Written

variable {o : Object} {k : KPolicy}

theorem fieldNames_perm_members : fieldNames.Perm (members.map fun m => str m.name) := by
  refine perm_fieldNames (Nat.le_refl 25) (List.forall_iff_forall_mem.mp ?_)
  simp only [fieldNames,members,Member.port,Member.minorVer,List.map_cons,List.Forall,List.mem_cons,
    true_or,or_true,and_self]

/-- The app has every key of the core except one. -/
theorem fieldNames_perm_properties :
    fieldNames.Perm (str "port"::properties.map fun property => str property.name) := by
  refine perm_fieldNames (Nat.le_refl 25) (List.forall_iff_forall_mem.mp ?_)
  simp only [fieldNames,properties,Property.boolean,Property.string,Property.int,List.map_cons,
    List.Forall,List.mem_cons,true_or,or_true,and_self]

theorem members_name (m : Member) (h : m ∈ members) : str m.name ∈ fieldNames :=
  fieldNames_perm_members.mem_iff.mpr (List.mem_map_of_mem h)

theorem members_name_inj {m m' : Member} (h : m ∈ members) (h' : m' ∈ members)
    (heq : m.name = m'.name) : m = m' :=
  List.inj_on_of_nodup_map (fieldNames_perm_members.nodup_iff.mp fieldNames_nodup) h h'
    (congrArg str heq)

theorem properties_name (property : Property) (h : property ∈ properties) :
    str property.name ∈ fieldNames :=
  fieldNames_perm_properties.mem_iff.mpr (List.mem_cons_of_mem _ (List.mem_map_of_mem h))

theorem properties_nodup : (properties.map fun property => str property.name).Nodup ∧
    ∀ property ∈ properties, str property.name ≠ str "port" := by
  obtain ⟨hport,hnodup⟩ :=
    List.nodup_cons.mp (fieldNames_perm_properties.nodup_iff.mp fieldNames_nodup)
  exact ⟨hnodup,fun property h heq => hport (heq ▸ List.mem_map_of_mem h)⟩

/-- The core has every property of the app, with the same type. -/
theorem properties_known :
    ∀ property ∈ properties, ∃ m ∈ members, m.name = property.name ∧ m.type = property.type := by
  refine List.forall_iff_forall_mem.mp ?_
  simp only [properties,Property.boolean,Property.string,Property.int,members,Member.port,
    Member.minorVer,List.Forall,List.exists_mem_cons_iff,and_self,true_or,or_true]

theorem members_known :
    ∀ m ∈ members, m.name = "port" ∨ ∃ property ∈ properties, property.name = m.name := by
  refine List.forall_iff_forall_mem.mp ?_
  simp only [properties,Property.boolean,Property.string,Property.int,members,Member.port,
    Member.minorVer,List.Forall,List.exists_mem_cons_iff,and_self,true_or,or_true]

theorem lookupField_self {name : Str} (h : name ∈ fieldNames) :
    lookupField fieldNames name = some name :=
  (lookupField_iff h name).mpr rfl

/-- The member for a property, if it is not null. -/
def written (k : KPolicy) (property : Property) : Option (Str × Value) :=
  (property.value k).map fun v => (str property.name,v)

theorem filter_written_of_not {name : Str} {ps : List Property}
    (h : ∀ property ∈ ps, str property.name ≠ name) :
    (ps.filterMap (written k)).filter (fun m => m.1 = name) = [] := by
  rw [List.filter_eq_nil_iff]
  intro m hm
  obtain ⟨property,hp,hm⟩ := List.mem_filterMap.mp hm
  obtain ⟨v,-,rfl⟩ := Option.map_eq_some_iff.mp hm
  simpa using h property hp

theorem filter_written_self (property : Property) :
    ([property].filterMap (written k)).filter (fun m => m.1 = str property.name) =
      (written k property).toList := by
  rw [List.filterMap_cons,written]
  cases property.value k with
  | none => rfl
  | some v => simp

/-- Names that are all different are found again. -/
theorem filter_written {ps : List Property} {property : Property}
    (hnodup : ps.Pairwise fun a b => str a.name ≠ str b.name) (h : property ∈ ps) :
    (ps.filterMap (written k)).filter (fun m => m.1 = str property.name) =
      (written k property).toList := by
  induction ps with
  | nil => cases h
  | cons first ps ih =>
    obtain ⟨hfirst,hnodup⟩ := List.pairwise_cons.mp hnodup
    rw [← List.singleton_append,List.filterMap_append,List.filter_append]
    cases h with
    | head =>
      rw [filter_written_self,filter_written_of_not fun b hb => (hfirst b hb).symm,List.append_nil]
    | tail _ h =>
      have hother : ∀ a ∈ [first], str a.name ≠ str property.name := by
        simpa using hfirst property h
      rw [ih hnodup h,filter_written_of_not hother,List.nil_append]

/-- In an object that the app has written the core finds each key as it is written. -/
theorem spelled_writePolicy (k : KPolicy) (name : Str) :
    spelled (writePolicy k) name = (writePolicy k).filter fun m => m.1 = name := by
  refine List.filter_congr fun m hm => ?_
  obtain ⟨property,hp,hm⟩ := List.mem_filterMap.mp hm
  obtain ⟨v,-,rfl⟩ := Option.map_eq_some_iff.mp hm
  rw [lookupField_self (properties_name property hp)]
  simp

theorem spelled_property {property : Property} (h : property ∈ properties) (k : KPolicy) :
    spelled (writePolicy k) (str property.name) = (written k property).toList := by
  rw [spelled_writePolicy]
  exact filter_written (List.pairwise_map.mp properties_nodup.1) h

theorem spelled_port (k : KPolicy) : spelled (writePolicy k) (str "port") = [] := by
  rw [spelled_writePolicy]
  exact filter_written_of_not properties_nodup.2

/-- A null is not written. -/
def withoutNull : Option Value → Option Value
  | some .null => none
  | v => v

theorem withoutNull_of_ne {v : Option Value} (h : v ≠ some .null) : withoutNull v = v := by
  rw [withoutNull.eq_def]
  split
  · exact absurd rfl h
  · rfl

theorem booleanOf_map {v : Option Value} (h : ∀ x ∈ v, KType.boolean.accepts x) :
    (booleanOf v).map .bool = withoutNull v := by
  cases v with
  | none => rfl
  | some x => cases x <;> first | rfl | simp [KType.accepts] at h

theorem stringOf_map {v : Option Value} (h : ∀ x ∈ v, KType.string.accepts x) :
    (stringOf v).map .string = withoutNull v := by
  cases v with
  | none => rfl
  | some x => cases x <;> first | rfl | simp [KType.accepts] at h

theorem intOf_map {v : Option Value} (h : ∀ x ∈ v, KType.int.accepts x) :
    ((intOf v).map fun n => Value.int n.toInt) = withoutNull v := by
  cases v with
  | none => rfl
  | some x =>
    cases x with
    | null => rfl
    | int n =>
      have hn : -2^31 ≤ n ∧ n < 2^31 := by simpa [KType.accepts] using h
      simp only [intOf,Option.map_some,withoutNull,Int32.toInt_ofInt_of_le hn.1 hn.2]
    | _ => simp [KType.accepts] at h

/-- What the app writes for a property is what it read. -/
theorem value_readPolicy (h : WellTyped o) :
    ∀ property ∈ properties,
      property.value (readPolicy o) = withoutNull (exactly o (str property.name)) := by
  intro property hp
  have htype := h property hp
  revert htype
  revert property
  simp only [properties,List.forall_mem_cons]
  refine ⟨booleanOf_map,stringOf_map,stringOf_map,stringOf_map,stringOf_map,booleanOf_map,
    intOf_map,stringOf_map,intOf_map,intOf_map,intOf_map,booleanOf_map,stringOf_map,booleanOf_map,
    booleanOf_map,intOf_map,stringOf_map,intOf_map,intOf_map,stringOf_map,stringOf_map,stringOf_map,
    stringOf_map,stringOf_map,by simp⟩

end Written

section Kinds

/-- The value is not an integer outside of 32 bits. -/
def InRange (v : Value) : Prop := ∀ n, v = .int n → -2^31 ≤ n ∧ n < 2^31

/-- A decoder takes the values of one type. -/
def Accepts {ρ : Type} (type : KType) (fromValue : Value → Except String (Option ρ)) : Prop :=
  ∀ v raw, InRange v → fromValue v = .ok raw → type.accepts v

theorem accepts_int {v : Value} (h : InRange v) (hv : v = .null ∨ ∃ n, v = .int n) :
    KType.int.accepts v := by
  rcases hv with rfl | ⟨n,rfl⟩
  · rfl
  · exact decide_eq_true (h n rfl)

theorem triBoolField_accepts : Accepts .boolean triBoolField := by
  intro v raw _ h
  cases v <;> first | rfl | cases h

theorem stringField_accepts : Accepts .string stringField := by
  intro v raw _ h
  cases v <;> first | rfl | cases h

theorem enumField_accepts {α : Type} (parse : Option Str → Except String α) :
    Accepts .string (enumField parse) := by
  intro v raw hv h
  obtain ⟨s,hs,-⟩ := except_bind_ok h
  exact stringField_accepts v s hv hs

theorem numberField_accepts {α : Type} (lo hi : ℤ) (ofInt : ℤ → α) :
    Accepts .int (numberField lo hi ofInt) := by
  intro v raw hv h
  refine accepts_int hv ?_
  cases v with
  | null => exact .inl rfl
  | int n => exact .inr ⟨n,rfl⟩
  | bool b => cases h
  | string s => cases h
  | other => cases h

theorem byteField_accepts : Accepts .int byteField := by
  intro v raw hv h
  obtain ⟨x,hx,-⟩ := except_bind_ok h
  exact numberField_accepts _ _ _ v x hv hx

theorem members_accepts : ∀ m ∈ members, Accepts m.type m.fromValue := by
  simp only [members,List.forall_mem_cons]
  refine ⟨triBoolField_accepts,enumField_accepts _,enumField_accepts _,stringField_accepts,
    stringField_accepts,stringField_accepts,stringField_accepts,stringField_accepts,
    numberField_accepts _ _ _,numberField_accepts _ _ _,triBoolField_accepts,enumField_accepts _,
    numberField_accepts _ _ _,numberField_accepts _ _ _,triBoolField_accepts,triBoolField_accepts,
    triBoolField_accepts,byteField_accepts,stringField_accepts,numberField_accepts _ _ _,
    stringField_accepts,numberField_accepts _ _ _,numberField_accepts _ _ _,stringField_accepts,
    stringField_accepts,by simp⟩

/-- A null counts as missing, or is refused. -/
def NullMissing {ρ : Type} (fromValue : Value → Except String (Option ρ)) : Prop :=
  ∀ raw, fromValue .null = .ok raw → raw = none

theorem members_nullMissing : ∀ m ∈ members, m.name ≠ "minor_ver" → NullMissing m.fromValue := by
  have htri : NullMissing triBoolField := fun raw h => by cases h
  have hstring : NullMissing stringField := fun raw h => (Except.ok.inj h).symm
  have henum : ∀ {α : Type} {parse : Option Str → Except String α} {err : String},
      parse (some []) = .error err → NullMissing (enumField parse) := by
    intro α parse err hparse raw h
    have hnull : enumField parse .null = .error err := by
      show (parse (some [])).bind _ = _
      rw [hparse]
      rfl
    rw [hnull] at h
    cases h
  have hnumber : ∀ {α : Type} {lo hi : ℤ} {ofInt : ℤ → α},
      NullMissing (numberField lo hi ofInt) := fun raw h => (Except.ok.inj h).symm
  simp only [members,List.forall_mem_cons]
  refine ⟨fun _ => htri,fun _ => henum rfl,fun _ => henum rfl,fun _ => hstring,fun _ => hstring,
    fun _ => hstring,fun _ => hstring,fun _ => hstring,fun _ => hnumber,fun _ => hnumber,
    fun _ => htri,fun _ => henum rfl,fun _ => hnumber,fun _ => hnumber,fun _ => htri,fun _ => htri,
    fun _ => htri,fun h => absurd rfl h,fun _ => hstring,fun _ => hnumber,fun _ => hstring,
    fun _ => hnumber,fun _ => hnumber,fun _ => hstring,fun _ => hstring,by simp⟩

theorem value_withoutNull {m : Member} (h : NullMissing m.fromValue) {v : Option Value}
    (hv : ∀ x ∈ v, ∃ raw, m.fromValue x = .ok raw) : m.value (withoutNull v) = m.value v := by
  cases v with
  | none => rfl
  | some x =>
    cases x with
    | null =>
      obtain ⟨raw,hraw⟩ := hv .null rfl
      rw [h raw hraw] at hraw
      have hnull : typed m.fromValue (some .null) = .ok none := hraw
      rw [Member.value,Member.value,hnull]
      rfl
    | _ => rfl

theorem numberField_eq_none {α : Type} {lo hi : ℤ} {ofInt : ℤ → α} {v : Value}
    (h : numberField lo hi ofInt v = .ok none) : v = .null := by
  cases v with
  | null => rfl
  | int n =>
    rw [numberField] at h
    split at h <;> cases h
  | bool b => cases h
  | string s => cases h
  | other => cases h

/-- Only a missing or null port is unset. -/
theorem value_port {v : Option Value} {out : ℤ} (h : Member.port.value v = .ok out) :
    Member.port.value none = .ok out ↔ v = none ∨ v = some .null := by
  constructor
  · intro hnone
    obtain rfl : unsetInt = out := Except.ok.inj hnone
    cases v with
    | none => exact .inl rfl
    | some x =>
      obtain ⟨raw,hraw,hport⟩ := except_bind_ok h
      cases raw with
      | some n =>
        have hn := (portOf_decodes.present trivial hport).2
        exact absurd rfl hn
      | none => exact .inr (congrArg some (numberField_eq_none hraw))
  · rintro (rfl | rfl)
    · exact h
    · exact h

/-- A version that is written is valid, null included. -/
theorem value_minorVer {v : Value} {out : Byte} (h : Member.minorVer.value (some v) = .ok out) :
    Member.minorVer.value none ≠ .ok out := by
  intro hnone
  obtain rfl : ⟨0,false⟩ = out := Except.ok.inj hnone
  obtain ⟨raw,hraw,hbyte⟩ := except_bind_ok h
  obtain ⟨x,-,hraw⟩ := except_bind_ok hraw
  obtain rfl := Except.ok.inj hraw
  exact Bool.false_ne_true (congrArg Byte.valid (Except.ok.inj hbyte)).symm

end Kinds

section Agreement

variable {o : Object} {p : Policy}

theorem exactly_mem {name : Str} {v : Value} (hname : name ∈ fieldNames)
    (h : exactly o name = some v) : (name,v) ∈ spelled o name := by
  obtain ⟨x,hx,rfl⟩ := Option.map_eq_some_iff.mp h
  have heq : x.1 = name := by simpa using List.find?_some hx
  refine List.mem_filter.mpr ⟨heq ▸ List.mem_of_find?_eq_some hx,?_⟩
  rw [lookupField_self hname]
  simp

theorem lastSpelled_of_exactly {name : Str} {v : Value} (hname : name ∈ fieldNames)
    (h : exactly o name = some v) : ∃ w, lastSpelled o name = some w := by
  rw [lastSpelled]
  cases hlast : (spelled o name).getLast? with
  | none =>
    rw [List.getLast?_eq_none_iff] at hlast
    exact absurd (exactly_mem hname h) (by simp [hlast])
  | some x => exact ⟨x.2,rfl⟩

theorem takes_exactly {m : Member} (hm : m ∈ members) (h : m.Takes o) :
    ∀ v ∈ exactly o (str m.name), ∃ raw, m.fromValue v = .ok raw :=
  fun _ hv => h _ (exactly_mem (members_name m hm) hv)

theorem wellTyped_of_unmarshal (h : unmarshal o = .ok p) (hrange : ∀ m ∈ o, InRange m.2) :
    WellTyped o := by
  intro property hp v hv
  obtain ⟨m,hm,hname,htype⟩ := properties_known property hp
  rw [← hname] at hv
  obtain ⟨raw,hraw⟩ := takes_exactly hm (unmarshal_iff.mp h m hm).1 v hv
  rw [← htype]
  have hmem := exactly_mem (members_name m hm) hv
  exact members_accepts m hm v raw (hrange _ (List.mem_of_mem_filter hmem)) hraw

/-- The value for a key in the object that the app writes after it has read this one. -/
def sent (o : Object) (name : String) : Option Value :=
  if name = "port" then none else withoutNull (exactly o (str name))

theorem spelled_sent (h : WellTyped o) {m : Member} (hm : m ∈ members) :
    spelled (writePolicy (readPolicy o)) (str m.name) =
      ((sent o m.name).map fun v => (str m.name,v)).toList := by
  rw [sent]
  rcases members_known m hm with hport | ⟨property,hp,hname⟩
  · rw [if_pos hport,hport,spelled_port]
    rfl
  · have hne : m.name ≠ "port" :=
      fun hport => properties_nodup.2 property hp (congrArg str (hname.trans hport))
    rw [if_neg hne,← hname,spelled_property hp,written,value_readPolicy h property hp]

theorem sent_mem {name : String} {v : Value} (h : sent o name = some v) :
    exactly o (str name) = some v := by
  rw [sent] at h
  split at h
  · cases h
  · rw [withoutNull.eq_def] at h
    split at h
    · cases h
    · exact h

/-- What the core makes of the object that the app has written. -/
theorem unmarshal_written {q : Policy} (ho : unmarshal o = .ok q) (h : WellTyped o) :
    unmarshal (writePolicy (readPolicy o)) = .ok p ↔
      ∀ m ∈ members, m.value (sent o m.name) = .ok (m.get p) := by
  rw [unmarshal_iff]
  refine forall_congr' fun m => forall_congr' fun hm => ?_
  have hspelled := spelled_sent h hm
  have htakes : m.Takes (writePolicy (readPolicy o)) := by
    intro x hx
    rw [hspelled,Option.mem_toList,Option.map_eq_some_iff] at hx
    obtain ⟨v,hv,rfl⟩ := hx
    exact takes_exactly hm (unmarshal_iff.mp ho m hm).1 v (sent_mem hv)
  have hlast : lastSpelled (writePolicy (readPolicy o)) (str m.name) = sent o m.name := by
    rw [lastSpelled,hspelled]
    cases sent o m.name <;> rfl
  rw [hlast]
  exact and_iff_right htakes

/-- The objects that come back as they were. A key that is also written in another case has to say
there what it says where it is written exactly. -/
structure Portable (o : Object) : Prop where
  once : Once o
  port : lastSpelled o (str "port") = none ∨ lastSpelled o (str "port") = some .null
  minorVer : exactly o (str "minor_ver") ≠ some .null
  spelling : ∀ m ∈ members, m.name ≠ "port" →
    m.value (lastSpelled o (str m.name)) = m.value (exactly o (str m.name))

instance (o : Object) : Decidable (Once o) :=
  inferInstanceAs (Decidable (∀ property ∈ properties, _))

instance (o : Object) : Decidable (WellTyped o) :=
  inferInstanceAs (Decidable (∀ property ∈ properties, _))

/-- An adapter that refuses a name that occurs twice. -/
def strictAdapter : Adapter where
  fromJson o :=
    if Once o ∧ WellTyped o then .ok (readPolicy o) else .error "Multiple values"
  toJson := writePolicy
  reads _ honce htyped := if_pos ⟨honce,htyped⟩
  writes _ := rfl

theorem strictAdapter_refuses (h : ¬ Once o) : roundTrip strictAdapter o ≠ .ok p := by
  have hread : strictAdapter.fromJson o = .error "Multiple values" := if_neg fun hboth => h hboth.1
  rw [roundTrip,hread]
  exact fun hok => nomatch hok

theorem roundTrip_of_once (honce : Once o) (htyped : WellTyped o) (adapter : Adapter) :
    roundTrip adapter o = unmarshal (writePolicy (readPolicy o)) := by
  rw [roundTrip,adapter.reads o honce htyped]
  exact congrArg unmarshal (adapter.writes _)

/-- A property comes back as the core read it exactly when the core takes the exact member for it,
or one that says the same. -/
theorem value_sent_iff {m : Member} (hm : m ∈ members) (hport : m.name ≠ "port")
    (htakes : m.Takes o) {out : m.Out} (h : m.value (lastSpelled o (str m.name)) = .ok out) :
    m.value (sent o m.name) = .ok out ↔
      (m.name = "minor_ver" → exactly o (str "minor_ver") ≠ some .null) ∧
        m.value (lastSpelled o (str m.name)) = m.value (exactly o (str m.name)) := by
  rw [sent,if_neg hport,h]
  by_cases hver : m.name = "minor_ver"
  · obtain rfl : m = .minorVer := members_name_inj hm (by simp [members]) hver
    by_cases hnull : exactly o (str "minor_ver") = some .null
    · obtain ⟨v,hv⟩ := lastSpelled_of_exactly (members_name _ hm) hnull
      have hsome : Member.minorVer.value (some v) = .ok out := hv ▸ h
      have hexact : exactly o (str Member.minorVer.name) = some .null := hnull
      rw [hexact]
      exact ⟨fun hnone => absurd hnone (value_minorVer hsome),fun hne => absurd hnull (hne.1 rfl)⟩
    · have hsame : withoutNull (exactly o (str Member.minorVer.name)) =
          exactly o (str Member.minorVer.name) := withoutNull_of_ne hnull
      rw [hsame]
      exact ⟨fun heq => ⟨fun _ => hnull,heq.symm⟩,fun heq => heq.2.symm⟩
  · rw [value_withoutNull (members_nullMissing m hm hver) (takes_exactly hm htakes)]
    simp only [hver,false_implies,true_and]
    exact eq_comm

/-- The app gives an object back unchanged, as the core reads it, exactly when it is portable. -/
theorem roundTrip_iff (h : unmarshal o = .ok p) (hrange : ∀ m ∈ o, InRange m.2) :
    (∀ adapter, roundTrip adapter o = .ok p) ↔ Portable o := by
  have htyped := wellTyped_of_unmarshal h hrange
  have hkeys := unmarshal_iff.mp h
  have hport : Member.port ∈ members := by simp [members]
  have hver : Member.minorVer ∈ members := by simp [members]
  constructor
  · intro hall
    have honce : Once o := by
      by_contra hnot
      exact absurd (hall strictAdapter) (strictAdapter_refuses hnot)
    have hvalues := hall strictAdapter
    rw [roundTrip_of_once honce htyped,unmarshal_written h htyped] at hvalues
    have hsent : ∀ m ∈ members, m.name ≠ "port" → _ := fun m hm hne =>
      (value_sent_iff hm hne (hkeys m hm).1 (hkeys m hm).2).mp (hvalues m hm)
    exact {
      once := honce
      port := (value_port (hkeys _ hport).2).mp (hvalues _ hport)
      minorVer := (hsent _ hver (by decide)).1 rfl
      spelling := fun m hm hne => (hsent m hm hne).2}
  · intro ho adapter
    rw [roundTrip_of_once ho.once htyped,unmarshal_written h htyped]
    intro m hm
    by_cases hne : m.name = "port"
    · obtain rfl : m = .port := members_name_inj hm hport hne
      exact (value_port (hkeys _ hport).2).mpr ho.port
    · exact (value_sent_iff hm hne (hkeys m hm).1 (hkeys m hm).2).mpr
        ⟨fun _ => ho.minorVer,ho.spelling m hm hne⟩

theorem roundTrip_iff_block :
    let o : Object := [(str "mode",.string (str "block")),(str "num_segs",.int (-1))]
    let p : Policy := {mergeStart with mode := .block, numSegments := -1}
    unmarshal o = .ok p ∧ Portable o := by
  intro o p
  have h : unmarshal o = .ok p := rfl
  have hrange : ∀ m ∈ o, InRange m.2 := by
    simp [o,InRange]
  refine ⟨h,(roundTrip_iff h hrange).mp fun adapter => ?_⟩
  rw [roundTrip_of_once (by decide +kernel) (by decide +kernel)]
  rfl

/-- The port is lost, a rule that is written in another case is lost, and a version that is null is
no longer set. -/
theorem roundTrip_loses :
    let seen {α : Type} (field : Policy → α) (o : Object) :=
      ((unmarshal o).toOption.map field,(roundTrip strictAdapter o).toOption.map field)
    seen Policy.port [(str "port",.int 443)] = (some 443,some (-1)) ∧
      seen Policy.mode [(str "Mode",.string (str "block"))] = (some .block,some .unset) ∧
      seen Policy.minorVer [(str "minor_ver",.null)] = (some ⟨0,true⟩,some ⟨0,false⟩) := by
  decide +kernel

end Agreement

end KotlinPolicy
end Enimul
