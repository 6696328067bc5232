import Enimul.PolicyDecode
import Mathlib.Algebra.Group.Int.Defs
import Mathlib.Algebra.Group.Nat.Defs
import Mathlib.Data.List.Forall2

/-! Policies field by field and key by key.
A field knows which of its values count as unset and what it falls back to in the end. The
merge of some policies has in each field the first value that is set. A key has the value it is
given in an object, the field of a policy that it sets, and the decoding of the one into the
other. A policy object is decoded key by key, and the decoder and the merge agree on what is
set. -/
namespace Enimul

namespace Policies

open GoText

/-- The first value that is set. -/
def firstSetBy {α : Type} (isUnset : α → Bool) (unset : α) : List α → α
  | [] => unset
  | a::as => if isUnset a then firstSetBy isUnset unset as else a

theorem foldl_fill {α : Type} (isUnset : α → Bool) {unset : α} (h : isUnset unset = true)
    (as : List α) : as.foldl (fill isUnset) unset = firstSetBy isUnset unset as := by
  have hset : ∀ (bs : List α) (m : α), isUnset m = false → bs.foldl (fill isUnset) m = m := by
    intro bs m hm
    induction bs with
    | nil => rfl
    | cons b bs ih => rw [List.foldl_cons,fill,if_neg (by simp [hm]),ih]
  induction as with
  | nil => rfl
  | cons a as ih =>
    rw [List.foldl_cons,firstSetBy]
    cases ha : isUnset a with
    | true => rw [fill,if_neg (by simp [ha]),ih,if_pos rfl]
    | false => rw [fill,if_pos ⟨h,by simp [ha]⟩,hset as a ha,if_neg Bool.false_ne_true]

/-- A field of a policy. The laws say that the merge treats it as a field of its own. -/
structure Field where
  Value : Type
  get : Policy → Value
  isUnset : Value → Bool
  finish : Value → Value
  unset_start : isUnset (get mergeStart) = true
  get_overlay : ∀ m p, get (overlay m p) = fill isUnset (get m) (get p)
  get_merge : ∀ ps, get (mergePolicies ps) = finish (get (ps.foldl overlay mergeStart))
  finish_set : ∀ a, isUnset a = false → finish a = a

namespace Field

/-- A field whose unset value is one value, and that has no default. -/
def plain {α : Type} [DecidableEq α] (get : Policy → α) (unset : α) (hstart : get mergeStart = unset)
    (hoverlay : ∀ m p, get (overlay m p) = fillFrom unset (get m) (get p))
    (hmerge : ∀ ps, get (mergePolicies ps) = get (ps.foldl overlay mergeStart)) : Field where
  Value := α
  get := get
  isUnset a := a = unset
  finish := id
  unset_start := decide_eq_true hstart
  get_overlay := hoverlay
  get_merge := hmerge
  finish_set _ _ := rfl

/-- A field that gets a default when no policy sets it. -/
def defaulted {α : Type} [DecidableEq α] (get : Policy → α) (unset default : α)
    (hstart : get mergeStart = unset)
    (hoverlay : ∀ m p, get (overlay m p) = fillFrom unset (get m) (get p))
    (hmerge : ∀ ps, get (mergePolicies ps) =
      if get (ps.foldl overlay mergeStart) = unset then default
      else get (ps.foldl overlay mergeStart)) : Field where
  Value := α
  get := get
  isUnset a := a = unset
  finish a := if a = unset then default else a
  unset_start := decide_eq_true hstart
  get_overlay := hoverlay
  get_merge := hmerge
  finish_set _ h := if_neg (of_decide_eq_false h)

def minorVer : Field where
  Value := Byte
  get := Policy.minorVer
  isUnset := Byte.isUnset
  finish := id
  unset_start := rfl
  get_overlay _ _ := rfl
  get_merge _ := rfl
  finish_set _ _ := rfl

/-- The value of the field in the merge of some policies. -/
def merged (f : Field) (ps : List Policy) : f.Value :=
  f.finish (firstSetBy f.isUnset (f.get mergeStart) (ps.map f.get))

def IsSet (f : Field) (p : Policy) : Prop := f.isUnset (f.get p) = false

theorem foldl_overlay (f : Field) (ps : List Policy) (m : Policy) :
    f.get (ps.foldl overlay m) = (ps.map f.get).foldl (fill f.isUnset) (f.get m) := by
  induction ps generalizing m with
  | nil => rfl
  | cons p ps ih => rw [List.foldl_cons,ih,f.get_overlay,List.map_cons,List.foldl_cons]

theorem get_mergePolicies (f : Field) (ps : List Policy) : f.get (mergePolicies ps) = f.merged ps := by
  rw [f.get_merge,f.foldl_overlay,foldl_fill f.isUnset f.unset_start]
  rfl

variable {f : Field} {p : Policy} {ps : List Policy}

theorem merged_cons_set (h : f.IsSet p) : f.merged (p::ps) = f.get p := by
  rw [merged,List.map_cons,firstSetBy,if_neg (by simp [show f.isUnset (f.get p) = false from h])]
  exact f.finish_set _ h

theorem merged_cons_unset (h : ¬ f.IsSet p) : f.merged (p::ps) = f.merged ps := by
  rw [merged,List.map_cons,firstSetBy,if_pos (by simpa [IsSet] using h)]
  rfl

/-- A merge that leaves a field unset is the merge of nothing there. -/
theorem merged_of_unset (h : ¬ f.IsSet (mergePolicies ps)) : f.merged ps = f.merged [] := by
  rw [IsSet,f.get_mergePolicies] at h
  induction ps with
  | nil => rfl
  | cons p ps ih =>
    by_cases hp : f.IsSet p
    · rw [merged_cons_set hp] at h
      exact absurd hp h
    · rw [merged_cons_unset hp] at h ⊢
      exact ih h

end Field

def fields : List Field :=
  [.plain Policy.replyFirst .unset rfl (fun _ _ => rfl) fun _ => rfl,
    .plain Policy.sniffOverrideMode .unset rfl (fun _ _ => rfl) fun _ => rfl,
    .defaulted Policy.dnsMode .unset DNSMode.default rfl (fun _ _ => rfl) fun _ => rfl,
    .plain Policy.dnsCacheTTL unsetInt rfl (fun _ _ => rfl) fun _ => rfl,
    .plain Policy.connectTimeout unsetInt rfl (fun _ _ => rfl) fun _ => rfl,
    .plain Policy.host unsetString rfl (fun _ _ => rfl) fun _ => rfl,
    .plain Policy.mapTo unsetString rfl (fun _ _ => rfl) fun _ => rfl,
    .plain Policy.nat64Prefix [] rfl (fun _ _ => rfl) fun _ => rfl,
    .plain Policy.port unsetInt rfl (fun _ _ => rfl) fun _ => rfl,
    .plain Policy.httpStatus unsetInt rfl (fun _ _ => rfl) fun _ => rfl,
    .plain Policy.tls13Only .unset rfl (fun _ _ => rfl) fun _ => rfl,
    .defaulted Policy.mode .unset Mode.default rfl (fun _ _ => rfl) fun _ => rfl,
    .plain Policy.numRecords 0 rfl (fun _ _ => rfl) fun _ => rfl,
    .plain Policy.numSegments 0 rfl (fun _ _ => rfl) fun _ => rfl,
    .plain Policy.waitForAck .unset rfl (fun _ _ => rfl) fun _ => rfl,
    .plain Policy.oob .unset rfl (fun _ _ => rfl) fun _ => rfl,
    .plain Policy.oobEx .unset rfl (fun _ _ => rfl) fun _ => rfl,
    .minorVer,
    .plain Policy.sendInterval unsetInt rfl (fun _ _ => rfl) fun _ => rfl,
    .plain Policy.fakeTTL unsetInt rfl (fun _ _ => rfl) fun _ => rfl,
    .plain Policy.fakeSleep 0 rfl (fun _ _ => rfl) fun _ => rfl,
    .plain Policy.maxTTL 0 rfl (fun _ _ => rfl) fun _ => rfl,
    .plain Policy.attempts 0 rfl (fun _ _ => rfl) fun _ => rfl,
    .plain Policy.singleTimeout unsetInt rfl (fun _ _ => rfl) fun _ => rfl,
    .plain Policy.ttlCacheTTL unsetInt rfl (fun _ _ => rfl) fun _ => rfl]

/-- The list has all the fields. -/
theorem policy_ext {p q : Policy} (h : ∀ f ∈ fields, f.get p = f.get q) : p = q := by
  cases p
  cases q
  simpa [fields,Field.plain,Field.defaulted,Field.minorVer] using h

/-- A merged policy can stand in a merge for the policies it was made of. -/
theorem mergePolicies_cons_merged (a : Policy) (ps : List Policy) :
    mergePolicies [a,mergePolicies ps] = mergePolicies (a::ps) := by
  refine policy_ext fun f _ => ?_
  rw [f.get_mergePolicies,f.get_mergePolicies]
  by_cases ha : f.IsSet a
  · rw [Field.merged_cons_set ha,Field.merged_cons_set ha]
  · rw [Field.merged_cons_unset ha,Field.merged_cons_unset ha]
    by_cases hps : f.IsSet (mergePolicies ps)
    · rw [Field.merged_cons_set hps,f.get_mergePolicies]
    · rw [Field.merged_cons_unset hps,Field.merged_of_unset hps]

/-- Each field has the first value that is set in the given policies, or its default. -/
def IsLayered (ps : List Policy) (p : Policy) : Prop := ∀ f ∈ fields, f.get p = f.merged ps

theorem isLayered_iff {ps : List Policy} {p : Policy} : IsLayered ps p ↔ p = mergePolicies ps := by
  constructor
  · intro h
    refine policy_ext fun f hf => ?_
    rw [h f hf,f.get_mergePolicies]
  · rintro rfl f -
    exact f.get_mergePolicies ps

/-- Every field that the rule sets has the value of the rule. -/
def Honours (rule p : Policy) : Prop := ∀ f ∈ fields, f.IsSet rule → f.get p = f.get rule

theorem honours_merge (rule : Policy) (ps : List Policy) : Honours rule (mergePolicies (rule::ps)) := by
  intro f _ hset
  rw [f.get_mergePolicies,Field.merged_cons_set hset]

/-- The fields that the rule sets have the same values without it, in the merge of two other
policies. -/
def Coincides (upper lower rule : Policy) : Prop :=
  ∀ f ∈ fields, f.IsSet rule → (f.IsSet upper → f.get rule = f.get upper) ∧
    (¬ f.IsSet upper → f.get rule = f.get (mergePolicies [lower]))

theorem honours_merge_iff {upper lower rule : Policy} :
    Honours rule (mergePolicies [upper,lower]) ↔ Coincides upper lower rule := by
  constructor
  · intro h f hf hset
    have hget := h f hf hset
    rw [f.get_mergePolicies] at hget
    constructor
    · intro hupper
      rw [Field.merged_cons_set hupper] at hget
      exact hget.symm
    · intro hupper
      rw [Field.merged_cons_unset hupper,← f.get_mergePolicies] at hget
      exact hget.symm
  · intro h f hf hset
    obtain ⟨hyes,hno⟩ := h f hf hset
    rw [f.get_mergePolicies]
    by_cases hupper : f.IsSet upper
    · rw [Field.merged_cons_set hupper,hyes hupper]
    · rw [Field.merged_cons_unset hupper,← f.get_mergePolicies,hno hupper]

theorem fillFrom_unset {α : Type} [DecidableEq α] (unset a : α) : fillFrom unset unset a = a := by
  by_cases ha : a = unset <;> simp [fillFrom,fill,ha]

theorem fillFrom_of_ne {α : Type} [DecidableEq α] {unset a : α} (h : a ≠ unset) (b : α) :
    fillFrom unset a b = a := by
  simp [fillFrom,fill,h]

/-- A policy with both modes set is its own merge. -/
theorem mergePolicies_singleton {p : Policy} (hver : p.minorVer.valid = false → p.minorVer = ⟨0,false⟩)
    (hmode : p.mode ≠ .unset) (hdns : p.dnsMode ≠ .unset) : mergePolicies [p] = p := by
  have hbyte : fill Byte.isUnset ⟨0,false⟩ p.minorVer = p.minorVer := by
    cases hv : p.minorVer.valid with
    | false => simp [fill,hver hv]
    | true => simp [fill,Byte.isUnset,hv]
  simp only [mergePolicies,List.foldl_cons,List.foldl_nil,overlay,mergeStart,fillFrom_unset,hbyte,
    if_neg hmode,if_neg hdns]

end Policies

namespace PolicyDecode

open GoSlice GoText GoTime Policies GoRun

/-- A key of the format. `means raw v` is that a written value stands for `v`, `fits raw` that the
program's integers can hold it. -/
structure Key where
  name : Str
  field : Field
  Raw : Type
  json : PolicyJSON → Option Raw
  decode : Option Raw → Except String field.Value
  means : Raw → field.Value → Prop
  fits : Raw → Prop

/-- A missing key leaves its field unset, and a value that is accepted sets it to what it means. -/
structure Key.Faithful (k : Key) : Prop where
  missing : k.decode none = .ok (k.field.get mergeStart)
  present : ∀ {raw v}, k.fits raw → k.decode (some raw) = .ok v →
    k.means raw v ∧ k.field.isUnset v = false

/-- What `Key.Faithful` asks of a decoder into a field with one unset value. -/
structure Decodes {α ρ : Type} (unset : α) (decode : Option ρ → Except String α)
    (means : ρ → α → Prop) (fits : ρ → Prop) : Prop where
  missing : decode none = .ok unset
  present : ∀ {raw v}, fits raw → decode (some raw) = .ok v → means raw v ∧ v ≠ unset

section Kinds

variable {α ρ : Type} [DecidableEq α]

theorem Decodes.present_set {unset : α} {decode : Option ρ → Except String α} {means : ρ → α → Prop}
    {fits : ρ → Prop} (h : Decodes unset decode means fits) {raw : ρ} {v : α} (hraw : fits raw)
    (hv : decode (some raw) = .ok v) : means raw v ∧ decide (v = unset) = false :=
  ⟨(h.present hraw hv).1,decide_eq_false (h.present hraw hv).2⟩

variable (name : String) (get : Policy → α) (unset : α) (hstart : get mergeStart = unset)
  (hoverlay : ∀ m p, get (overlay m p) = fillFrom unset (get m) (get p))
  (json : PolicyJSON → Option ρ) (decode : Option ρ → Except String α) (means : ρ → α → Prop)
  (fits : ρ → Prop)

def Key.plain (hmerge : ∀ ps, get (mergePolicies ps) = get (ps.foldl overlay mergeStart)) :
    Key where
  name := str name
  field := .plain get unset hstart hoverlay hmerge
  Raw := ρ
  json := json
  decode := decode
  means := means
  fits := fits

def Key.defaulted (default : α)
    (hmerge : ∀ ps, get (mergePolicies ps) =
      if get (ps.foldl overlay mergeStart) = unset then default
      else get (ps.foldl overlay mergeStart)) : Key where
  name := str name
  field := .defaulted get unset default hstart hoverlay hmerge
  Raw := ρ
  json := json
  decode := decode
  means := means
  fits := fits

variable {name get unset hstart hoverlay json decode means fits}

theorem Key.plain_faithful
    {hmerge : ∀ ps, get (mergePolicies ps) = get (ps.foldl overlay mergeStart)}
    (h : Decodes unset decode means fits) :
    (Key.plain name get unset hstart hoverlay json decode means fits hmerge).Faithful where
  missing := h.missing.trans (congrArg Except.ok hstart.symm)
  present := h.present_set

theorem Key.defaulted_faithful {default : α}
    {hmerge : ∀ ps, get (mergePolicies ps) =
      if get (ps.foldl overlay mergeStart) = unset then default
      else get (ps.foldl overlay mergeStart)} (h : Decodes unset decode means fits) :
    (Key.defaulted name get unset hstart hoverlay json decode means fits default hmerge).Faithful
    where
  missing := h.missing.trans (congrArg Except.ok hstart.symm)
  present := h.present_set

end Kinds

def Mode.string : Mode → Str
  | .raw => str "raw"
  | .direct => str "direct"
  | .tlsRF => str "tls-rf"
  | .ttld => str "ttl-d"
  | .block => str "block"
  | .tlsAlert => str "tls-alert"
  | .unset => str "unknown"

def DNSMode.string : DNSMode → Str
  | .preferIPv4 => str "prefer_ipv4"
  | .preferIPv6 => str "prefer_ipv6"
  | .ipv4Only => str "ipv4_only"
  | .ipv6Only => str "ipv6_only"
  | .unset => str "unknown"

def SniffOverrideMode.string : SniffOverrideMode → Str
  | .off => str "off"
  | .always => str "always"
  | .policyExists => str "policy_exists"
  | .routeOnly => str "route_only"
  | .unset => str "unknown"

def triBoolOf (raw : Option Bool) : Except String TriBool := .ok (triBool raw)

def nat64Of (raw : Option Str) : Except String Str := .ok (nat64Text raw)

def portOf (raw : Option UInt16) : Except String ℤ :=
  .ok ((raw.map fun n => (n.toNat : ℤ)).getD unsetInt)

def statusOf (raw : Option UInt64) : Except String ℤ :=
  .ok ((raw.map fun n => n.toInt64.toInt).getD unsetInt)

def fakeTTLOf (raw : Option UInt8) : Except String ℤ :=
  .ok ((raw.map fun n => (n.toNat : ℤ)).getD unsetInt)

def spells {α : Type} (string : α → Str) (s : Str) (v : α) : Prop := string v = s

def flagMeans (b : Bool) (v : TriBool) : Prop := v = if b then .true else .false

def durationMeans (s : Str) (d : ℤ) : Prop := parseDuration s = .ok d

def numberMeans (n : UInt64) (v : ℤ) : Prop := v = n.toNat

/-- Every written value is held as it is. -/
def always {ρ : Type} (_ : ρ) : Prop := True

def fitsInt (n : UInt64) : Prop := n.toNat < 2^63

def Key.minorVer : Key where
  name := str "minor_ver"
  field := .minorVer
  Raw := UInt8
  json := PolicyJSON.minorVer
  decode raw := .ok (byteOf raw)
  means b v := v = ⟨b,true⟩
  fits := always

/-- The keys for the fields of `fields`, in the same order. -/
def keys : List Key :=
  [.plain "reply_first" Policy.replyFirst .unset rfl (fun _ _ => rfl)
      PolicyJSON.replyFirst triBoolOf flagMeans always fun _ => rfl,
    .plain "sniff_override" Policy.sniffOverrideMode .unset rfl (fun _ _ => rfl)
      PolicyJSON.sniffOverride sniffOverrideMode (spells SniffOverrideMode.string) always
      fun _ => rfl,
    .defaulted "dns_mode" Policy.dnsMode .unset rfl (fun _ _ => rfl)
      PolicyJSON.dnsMode dnsModeOf (spells DNSMode.string) always DNSMode.default fun _ => rfl,
    .plain "dns_cache_ttl" Policy.dnsCacheTTL unsetInt rfl (fun _ _ => rfl)
      PolicyJSON.dnsCacheTTL dnsCacheTTLOf durationMeans always fun _ => rfl,
    .plain "connect_timeout" Policy.connectTimeout unsetInt rfl (fun _ _ => rfl)
      PolicyJSON.connectTimeout connectTimeoutOf durationMeans always fun _ => rfl,
    .plain "host" Policy.host unsetString rfl (fun _ _ => rfl)
      PolicyJSON.host (hostText "host") (fun s v => v = s) always fun _ => rfl,
    .plain "map_to" Policy.mapTo unsetString rfl (fun _ _ => rfl)
      PolicyJSON.mapTo (hostText "map_to") (fun s v => v = s) always fun _ => rfl,
    .plain "nat64_prefix" Policy.nat64Prefix [] rfl (fun _ _ => rfl)
      PolicyJSON.nat64Prefix nat64Of (fun s v => v = nat64Text s) always fun _ => rfl,
    .plain "port" Policy.port unsetInt rfl (fun _ _ => rfl)
      PolicyJSON.port portOf (fun n v => v = n.toNat) always fun _ => rfl,
    .plain "http_status" Policy.httpStatus unsetInt rfl (fun _ _ => rfl)
      PolicyJSON.httpStatus statusOf numberMeans fitsInt fun _ => rfl,
    .plain "tls13_only" Policy.tls13Only .unset rfl (fun _ _ => rfl)
      PolicyJSON.tls13Only triBoolOf flagMeans always fun _ => rfl,
    .defaulted "mode" Policy.mode .unset rfl (fun _ _ => rfl)
      PolicyJSON.mode modeOf (spells Mode.string) always Mode.default fun _ => rfl,
    .plain "num_records" Policy.numRecords 0 rfl (fun _ _ => rfl)
      PolicyJSON.numRecords (countOf "num_records") numberMeans fitsInt fun _ => rfl,
    .plain "num_segs" Policy.numSegments 0 rfl (fun _ _ => rfl)
      PolicyJSON.numSegments segmentsOf (fun n v => v = n.toInt) always fun _ => rfl,
    .plain "wait_for_ack" Policy.waitForAck .unset rfl (fun _ _ => rfl)
      PolicyJSON.waitForAck triBoolOf flagMeans always fun _ => rfl,
    .plain "oob" Policy.oob .unset rfl (fun _ _ => rfl)
      PolicyJSON.oob triBoolOf flagMeans always fun _ => rfl,
    .plain "oob_ex" Policy.oobEx .unset rfl (fun _ _ => rfl)
      PolicyJSON.oobEx triBoolOf flagMeans always fun _ => rfl,
    .minorVer,
    .plain "send_interval" Policy.sendInterval unsetInt rfl (fun _ _ => rfl)
      PolicyJSON.sendInterval sendIntervalOf durationMeans always fun _ => rfl,
    .plain "fake_ttl" Policy.fakeTTL unsetInt rfl (fun _ _ => rfl)
      PolicyJSON.fakeTTL fakeTTLOf (fun n v => v = n.toNat) always fun _ => rfl,
    .plain "fake_sleep" Policy.fakeSleep 0 rfl (fun _ _ => rfl)
      PolicyJSON.fakeSleep fakeSleepOf durationMeans always fun _ => rfl,
    .plain "max_ttl" Policy.maxTTL 0 rfl (fun _ _ => rfl)
      PolicyJSON.maxTTL maxTTLOf (fun n v => v = n.toNat) always fun _ => rfl,
    .plain "attempts" Policy.attempts 0 rfl (fun _ _ => rfl)
      PolicyJSON.attempts (countOf "attempts") numberMeans fitsInt fun _ => rfl,
    .plain "single_timeout" Policy.singleTimeout unsetInt rfl (fun _ _ => rfl)
      PolicyJSON.singleTimeout singleTimeoutOf durationMeans always fun _ => rfl,
    .plain "ttl_cache_ttl" Policy.ttlCacheTTL unsetInt rfl (fun _ _ => rfl)
      PolicyJSON.ttlCacheTTL ttlCacheTTLOf durationMeans always fun _ => rfl]

/-- A policy is what each key of the object is decoded into. -/
theorem unmarshalJSON_iff {tmp : PolicyJSON} {p : Policy} :
    unmarshalJSON tmp = .ok p ↔ ∀ k ∈ keys, k.decode (k.json tmp) = .ok (k.field.get p) := by
  simp only [keys,List.forall_mem_cons]
  constructor
  · intro h
    rw [unmarshalJSON] at h
    obtain ⟨sniffOverrideMode,h₁,h⟩ := except_bind_ok h
    obtain ⟨dnsMode,h₂,h⟩ := except_bind_ok h
    obtain ⟨mode,h₃,h⟩ := except_bind_ok h
    obtain ⟨host,h₄,h⟩ := except_bind_ok h
    obtain ⟨mapTo,h₅,h⟩ := except_bind_ok h
    obtain ⟨numRecords,h₆,h⟩ := except_bind_ok h
    obtain ⟨numSegments,h₇,h⟩ := except_bind_ok h
    obtain ⟨attempts,h₈,h⟩ := except_bind_ok h
    obtain ⟨maxTTL,h₉,h⟩ := except_bind_ok h
    obtain ⟨connectTimeout,h₁₀,h⟩ := except_bind_ok h
    obtain ⟨sendInterval,h₁₁,h⟩ := except_bind_ok h
    obtain ⟨fakeSleep,h₁₂,h⟩ := except_bind_ok h
    obtain ⟨singleTimeout,h₁₃,h⟩ := except_bind_ok h
    obtain ⟨dnsCacheTTL,h₁₄,h⟩ := except_bind_ok h
    obtain ⟨ttlCacheTTL,h₁₅,h⟩ := except_bind_ok h
    obtain rfl := Except.ok.inj h
    exact ⟨rfl,h₁,h₂,h₁₄,h₁₀,h₄,h₅,rfl,rfl,rfl,rfl,h₃,h₆,h₇,rfl,rfl,rfl,rfl,h₁₁,rfl,h₁₂,h₉,h₈,h₁₃,
      h₁₅,by simp⟩
  · rintro ⟨r₁,h₁,h₂,h₁₄,h₁₀,h₄,h₅,r₂,r₃,r₄,r₅,h₃,h₆,h₇,r₆,r₇,r₈,r₉,h₁₁,r₁₀,h₁₂,h₉,h₈,h₁₃,h₁₅,-⟩
    rw [unmarshalJSON]
    refine except_bind_of_ok h₁ (except_bind_of_ok h₂ (except_bind_of_ok h₃ (except_bind_of_ok h₄
      (except_bind_of_ok h₅ (except_bind_of_ok h₆ (except_bind_of_ok h₇ (except_bind_of_ok h₈
      (except_bind_of_ok h₉ (except_bind_of_ok h₁₀ (except_bind_of_ok h₁₁ (except_bind_of_ok h₁₂
      (except_bind_of_ok h₁₃ (except_bind_of_ok h₁₄ (except_bind_of_ok h₁₅ ?_))))))))))))))
    refine congrArg Except.ok (policy_ext ?_)
    simp only [fields,List.forall_mem_cons]
    exact ⟨Except.ok.inj r₁,rfl,rfl,rfl,rfl,rfl,rfl,Except.ok.inj r₂,Except.ok.inj r₃,
      Except.ok.inj r₄,Except.ok.inj r₅,rfl,rfl,rfl,Except.ok.inj r₆,Except.ok.inj r₇,
      Except.ok.inj r₈,Except.ok.inj r₉,rfl,Except.ok.inj r₁₀,rfl,rfl,rfl,rfl,rfl,by simp⟩

theorem triBoolOf_decodes : Decodes .unset triBoolOf flagMeans always where
  missing := rfl
  present {b v} _ h := by
    obtain rfl := Except.ok.inj h
    cases b with
    | false => exact ⟨rfl,by decide⟩
    | true => exact ⟨rfl,by decide⟩

theorem hostText_decodes (name : String) :
    Decodes unsetString (hostText name) (fun s v => v = s) always where
  missing := rfl
  present {s v} _ h := by
    by_cases hs : s = unsetString
    · simp [hostText,hs] at h
    · rw [hostText,if_neg hs] at h
      obtain rfl := Except.ok.inj h
      exact ⟨rfl,hs⟩

theorem durationOf_decodes (name complaint : String) {unset : ℤ} {valid : ℤ → Bool}
    (hvalid : valid unset = false) :
    Decodes unset (durationOf name unset valid complaint) durationMeans always where
  missing := rfl
  present {s d} _ h := by
    rw [durationOf] at h
    split at h
    · simp at h
    rename_i hd
    split at h
    · rename_i hv
      obtain rfl := Except.ok.inj h
      refine ⟨hd,?_⟩
      rintro rfl
      simp [hvalid] at hv
    · simp at h

theorem toInt64_toInt {n : UInt64} (h : fitsInt n) : n.toInt64.toInt = n.toNat := by
  rw [fitsInt] at h
  exact BitVec.toInt_eq_toNat_of_lt (show 2 * n.toNat < 2^64 by omega)

theorem statusOf_decodes : Decodes unsetInt statusOf numberMeans fitsInt where
  missing := rfl
  present {n v} hn h := by
    obtain rfl := Except.ok.inj h
    refine ⟨toInt64_toInt hn,?_⟩
    rw [Option.map_some,Option.getD_some,toInt64_toInt hn,unsetInt]
    omega

theorem countOf_decodes (name : String) : Decodes 0 (countOf name) numberMeans fitsInt where
  missing := rfl
  present {n v} hn h := by
    by_cases h0 : n = 0
    · simp [countOf,h0] at h
    · rw [countOf,if_neg h0] at h
      obtain rfl := Except.ok.inj h
      rw [toInt64_toInt hn]
      refine ⟨rfl,?_⟩
      intro hz
      exact h0 (UInt64.toNat_inj.mp (by simpa using hz))

theorem portOf_decodes :
    Decodes unsetInt portOf (fun n v => v = (n.toNat : ℤ)) always where
  missing := rfl
  present {n v} _ h := by
    obtain rfl := Except.ok.inj h
    exact ⟨rfl,by simp [unsetInt]⟩

theorem fakeTTLOf_decodes :
    Decodes unsetInt fakeTTLOf (fun n v => v = (n.toNat : ℤ)) always where
  missing := rfl
  present {n v} _ h := by
    obtain rfl := Except.ok.inj h
    exact ⟨rfl,by simp [unsetInt]⟩

theorem maxTTLOf_decodes : Decodes 0 maxTTLOf (fun n v => v = (n.toNat : ℤ)) always where
  missing := rfl
  present {n v} _ h := by
    by_cases h0 : n = 0
    · simp [maxTTLOf,h0] at h
    · rw [maxTTLOf,if_neg h0] at h
      obtain rfl := Except.ok.inj h
      refine ⟨rfl,?_⟩
      intro hz
      exact h0 (UInt8.toNat_inj.mp (by simpa using hz))

theorem segmentsOf_decodes : Decodes 0 segmentsOf (fun n v => v = n.toInt) always where
  missing := rfl
  present {n v} _ h := by
    rw [segmentsOf] at h
    split at h
    · simp at h
    rename_i h0
    split at h
    · simp at h
    · obtain rfl := Except.ok.inj h
      exact ⟨rfl,h0⟩

theorem modeOf_decodes : Decodes .unset modeOf (spells Mode.string) always where
  missing := rfl
  present {s v} _ h := by
    rw [modeOf] at h
    split_ifs at h
    all_goals
      obtain rfl := Except.ok.inj h
      exact ⟨Eq.symm (by assumption),by decide⟩

theorem dnsModeOf_decodes :
    Decodes .unset dnsModeOf (spells DNSMode.string) always where
  missing := rfl
  present {s v} _ h := by
    rw [dnsModeOf] at h
    split_ifs at h
    all_goals
      obtain rfl := Except.ok.inj h
      exact ⟨Eq.symm (by assumption),by decide⟩

theorem sniffOverrideMode_decodes :
    Decodes .unset sniffOverrideMode (spells SniffOverrideMode.string) always where
  missing := rfl
  present {s v} _ h := by
    rw [sniffOverrideMode] at h
    split_ifs at h
    all_goals
      obtain rfl := Except.ok.inj h
      exact ⟨Eq.symm (by assumption),by decide⟩

theorem Key.minorVer_faithful : Key.minorVer.Faithful where
  missing := rfl
  present {b v} _ h := by
    obtain rfl := Except.ok.inj h
    exact ⟨rfl,rfl⟩

/-- Only `nat64_prefix` has written values that mean unset. -/
theorem keys_faithful : ∀ k ∈ keys, k.name ≠ str "nat64_prefix" → k.Faithful := by
  simp only [keys,List.forall_mem_cons]
  refine ⟨?_,?_,?_,?_,?_,?_,?_,?_,?_,?_,?_,?_,?_,?_,?_,?_,?_,?_,?_,?_,?_,?_,?_,?_,?_,by simp⟩
  all_goals intro hname
  case refine_1 | refine_11 | refine_15 | refine_16 | refine_17 =>
    exact Key.plain_faithful triBoolOf_decodes
  case refine_4 | refine_5 | refine_19 | refine_21 | refine_24 | refine_25 =>
    exact Key.plain_faithful (durationOf_decodes _ _ (by decide))
  case refine_6 | refine_7 => exact Key.plain_faithful (hostText_decodes _)
  case refine_13 | refine_23 => exact Key.plain_faithful (countOf_decodes _)
  case refine_2 => exact Key.plain_faithful sniffOverrideMode_decodes
  case refine_3 => exact Key.defaulted_faithful dnsModeOf_decodes
  case refine_8 => exact absurd rfl hname
  case refine_9 => exact Key.plain_faithful portOf_decodes
  case refine_10 => exact Key.plain_faithful statusOf_decodes
  case refine_12 => exact Key.defaulted_faithful modeOf_decodes
  case refine_14 => exact Key.plain_faithful segmentsOf_decodes
  case refine_18 => exact Key.minorVer_faithful
  case refine_20 => exact Key.plain_faithful fakeTTLOf_decodes
  case refine_22 => exact Key.plain_faithful maxTTLOf_decodes

/-- What a merge has where no policy sets anything. -/
def defaults : Policy := {mergeStart with mode := .tlsRF, dnsMode := .preferIPv4}

/-- The policy has what the first object with the key says, or the default. -/
def Key.Honoured (k : Key) (objects : List PolicyJSON) (p : Policy) : Prop :=
  match objects.findSome? k.json with
  | some raw => k.means raw (k.field.get p)
  | none => k.field.get p = k.field.get defaults

theorem Key.Faithful.honoured {k : Key} (hk : k.Faithful) {objects : List PolicyJSON}
    {ps : List Policy}
    (h : List.Forall₂ (fun o p => k.decode (k.json o) = .ok (k.field.get p)) objects ps)
    (hfits : ∀ o ∈ objects, ∀ raw, k.json o = some raw → k.fits raw) :
    k.Honoured objects (mergePolicies ps) := by
  rw [Key.Honoured,k.field.get_mergePolicies]
  induction h with
  | nil => exact (k.field.get_mergePolicies []).symm
  | @cons o p objects ps hp _ ih =>
    rw [List.findSome?_cons]
    cases hraw : k.json o with
    | none =>
      have hunset : ¬ k.field.IsSet p := by
        rw [hraw,hk.missing] at hp
        rw [Field.IsSet,← Except.ok.inj hp,k.field.unset_start]
        decide
      rw [Field.merged_cons_unset hunset]
      exact ih fun o' ho' => hfits o' (List.mem_cons_of_mem _ ho')
    | some raw =>
      rw [hraw] at hp
      obtain ⟨hmeans,hset⟩ := hk.present (hfits o List.mem_cons_self raw hraw) hp
      rw [Field.merged_cons_set hset]
      exact hmeans

/-- Decoding and merging agree on what is set. -/
theorem mergePolicies_decoded {objects : List PolicyJSON} {ps : List Policy}
    (hps : List.Forall₂ (fun o p => unmarshalJSON o = .ok p) objects ps)
    (hfits : ∀ o ∈ objects, ∀ k ∈ keys, ∀ raw, k.json o = some raw → k.fits raw) :
    (∀ k ∈ keys, k.name ≠ str "nat64_prefix" → k.Honoured objects (mergePolicies ps)) ∧
      ∀ a b c, mergePolicies [a,mergePolicies [b,c]] = mergePolicies [a,b,c] := by
  refine ⟨?_,fun a b c => mergePolicies_cons_merged a [b,c]⟩
  intro k hk hname
  refine (keys_faithful k hk hname).honoured ?_ fun o ho => hfits o ho k hk
  exact hps.imp fun _ _ hp => unmarshalJSON_iff.mp hp k hk

theorem mergePolicies_decoded_block :
    let objects : List PolicyJSON :=
      [{port := some 443},{port := some 80, mode := some (str "block")}]
    let ps : List Policy :=
      [{mergeStart with port := 443},{mergeStart with port := 80, mode := .block}]
    List.Forall₂ (fun o p => unmarshalJSON o = .ok p) objects ps ∧
      ∀ k ∈ keys, k.name ≠ str "nat64_prefix" → k.Honoured objects (mergePolicies ps) := by
  intro objects ps
  have hps : List.Forall₂ (fun o p => unmarshalJSON o = .ok p) objects ps :=
    .cons rfl (.cons rfl .nil)
  refine ⟨hps,(mergePolicies_decoded hps ?_).1⟩
  simp [objects,keys,Key.plain,Key.defaulted,Key.minorVer,always]

end PolicyDecode

end Enimul
