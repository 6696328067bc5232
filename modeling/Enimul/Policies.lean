import Enimul.GoText

/-! Policies and how they are merged.
Every field has an unset value; a merge takes each field from the first policy that
sets it, and gives the mode and the DNS mode a default when no policy does. -/
namespace Enimul
namespace Policies

open GoSlice GoText

def unsetInt : ℤ := -1
def unsetString : Str := [0]

inductive SniffOverrideMode
  | unset | off | always | policyExists | routeOnly
  deriving DecidableEq, Repr

inductive Mode
  | unset | raw | direct | tlsRF | ttld | block | tlsAlert
  deriving DecidableEq, Repr

def Mode.default : Mode := .tlsRF

inductive DNSMode
  | unset | preferIPv4 | preferIPv6 | ipv4Only | ipv6Only
  deriving DecidableEq, Repr

def DNSMode.default : DNSMode := .preferIPv4

inductive TriBool
  | unset | false | true
  deriving DecidableEq, Repr

def TriBool.isTrue (b : TriBool) : Bool := b = .true

/-- An optional byte of the configuration. -/
structure Byte where
  b : UInt8
  valid : Bool
  deriving DecidableEq, Repr

def Byte.isUnset (x : Byte) : Bool := !x.valid

/-- Durations are in nanoseconds. The default values are those of a zero struct. -/
structure Policy where
  replyFirst : TriBool := .unset
  sniffOverrideMode : SniffOverrideMode := .unset
  dnsMode : DNSMode := .unset
  dnsCacheTTL : ℤ := 0
  connectTimeout : ℤ := 0
  host : Str := []
  mapTo : Str := []
  nat64Prefix : Str := []
  port : ℤ := 0
  httpStatus : ℤ := 0
  tls13Only : TriBool := .unset
  mode : Mode := .unset
  numRecords : ℤ := 0
  numSegments : ℤ := 0
  waitForAck : TriBool := .unset
  oob : TriBool := .unset
  oobEx : TriBool := .unset
  minorVer : Byte := ⟨0,.false⟩
  sendInterval : ℤ := 0
  fakeTTL : ℤ := 0
  fakeSleep : ℤ := 0
  maxTTL : ℤ := 0
  attempts : ℤ := 0
  singleTimeout : ℤ := 0
  ttlCacheTTL : ℤ := 0
  deriving DecidableEq, Repr

/-- The rule for one field: an unset value gives way to a set one. -/
def fill {α : Type} (isUnset : α → Bool) (merged p : α) : α :=
  if isUnset merged ∧ ¬ isUnset p then p else merged

def fillFrom {α : Type} [DecidableEq α] (unset merged p : α) : α :=
  fill (fun a => a = unset) merged p

/-- One round of the loop of `mergePolicies`. -/
def overlay (merged p : Policy) : Policy where
  sniffOverrideMode := fillFrom .unset merged.sniffOverrideMode p.sniffOverrideMode
  replyFirst := fillFrom .unset merged.replyFirst p.replyFirst
  connectTimeout := fillFrom unsetInt merged.connectTimeout p.connectTimeout
  host := fillFrom unsetString merged.host p.host
  mapTo := fillFrom unsetString merged.mapTo p.mapTo
  nat64Prefix := fillFrom [] merged.nat64Prefix p.nat64Prefix
  port := fillFrom unsetInt merged.port p.port
  httpStatus := fillFrom unsetInt merged.httpStatus p.httpStatus
  tls13Only := fillFrom .unset merged.tls13Only p.tls13Only
  mode := fillFrom .unset merged.mode p.mode
  dnsMode := fillFrom .unset merged.dnsMode p.dnsMode
  dnsCacheTTL := fillFrom unsetInt merged.dnsCacheTTL p.dnsCacheTTL
  numRecords := fillFrom 0 merged.numRecords p.numRecords
  numSegments := fillFrom 0 merged.numSegments p.numSegments
  waitForAck := fillFrom .unset merged.waitForAck p.waitForAck
  oob := fillFrom .unset merged.oob p.oob
  oobEx := fillFrom .unset merged.oobEx p.oobEx
  minorVer := fill Byte.isUnset merged.minorVer p.minorVer
  sendInterval := fillFrom unsetInt merged.sendInterval p.sendInterval
  fakeSleep := fillFrom 0 merged.fakeSleep p.fakeSleep
  fakeTTL := fillFrom unsetInt merged.fakeTTL p.fakeTTL
  maxTTL := fillFrom 0 merged.maxTTL p.maxTTL
  attempts := fillFrom 0 merged.attempts p.attempts
  singleTimeout := fillFrom unsetInt merged.singleTimeout p.singleTimeout
  ttlCacheTTL := fillFrom unsetInt merged.ttlCacheTTL p.ttlCacheTTL

/-- The policy in which nothing is set. -/
def mergeStart : Policy :=
  {host := unsetString, mapTo := unsetString, port := unsetInt, httpStatus := unsetInt,
    sendInterval := unsetInt, fakeTTL := unsetInt, connectTimeout := unsetInt,
    singleTimeout := unsetInt, dnsCacheTTL := unsetInt, ttlCacheTTL := unsetInt}

def mergePolicies (policies : List Policy) : Policy :=
  let merged := policies.foldl overlay mergeStart
  {merged with
    mode := if merged.mode = .unset then Mode.default else merged.mode
    dnsMode := if merged.dnsMode = .unset then DNSMode.default else merged.dnsMode}

/-- The first value of a field that is set. -/
def firstSet {α : Type} [DecidableEq α] (unset : α) : List α → α
  | [] => unset
  | a::as => if a = unset then firstSet unset as else a

section Merge

variable {α : Type} [DecidableEq α] {unset : α}

theorem foldl_fillFrom (m : α) (as : List α) :
    as.foldl (fillFrom unset) m = if m = unset then firstSet unset as else m := by
  induction as generalizing m with
  | nil =>
    simp only [List.foldl_nil,firstSet]
    split
    · assumption
    · rfl
  | cons a as ih =>
    rw [List.foldl_cons,ih]
    by_cases hm : m = unset <;> by_cases ha : a = unset <;>
      simp [fillFrom,fill,firstSet,hm,ha]

/-- A field that is merged by its own rule is the fold of that rule. -/
theorem foldl_overlay (f : Policy → α) (h : ∀ m p, f (overlay m p) = fillFrom unset (f m) (f p))
    (ps : List Policy) (m : Policy) :
    f (ps.foldl overlay m) = (ps.map f).foldl (fillFrom unset) (f m) := by
  induction ps generalizing m with
  | nil => rfl
  | cons p ps ih => rw [List.foldl_cons,ih,h,List.map_cons,List.foldl_cons]

theorem foldl_overlay_start (f : Policy → α)
    (h : ∀ m p, f (overlay m p) = fillFrom unset (f m) (f p)) (h₀ : f mergeStart = unset)
    (ps : List Policy) : f (ps.foldl overlay mergeStart) = firstSet unset (ps.map f) := by
  rw [foldl_overlay f h,foldl_fillFrom,if_pos h₀]

theorem mergePolicies_mode (ps : List Policy) :
    (mergePolicies ps).mode =
      if firstSet .unset (ps.map Policy.mode) = .unset then Mode.default
      else firstSet .unset (ps.map Policy.mode) := by
  have hf := foldl_overlay_start Policy.mode (fun _ _ => rfl) rfl ps
  simp only [mergePolicies,hf]

theorem mergePolicies_dnsMode (ps : List Policy) :
    (mergePolicies ps).dnsMode =
      if firstSet .unset (ps.map Policy.dnsMode) = .unset then DNSMode.default
      else firstSet .unset (ps.map Policy.dnsMode) := by
  have hf := foldl_overlay_start Policy.dnsMode (fun _ _ => rfl) rfl ps
  simp only [mergePolicies,hf]

theorem mergePolicies_connectTimeout (ps : List Policy) :
    (mergePolicies ps).connectTimeout = firstSet unsetInt (ps.map Policy.connectTimeout) := by
  have hf := foldl_overlay_start Policy.connectTimeout (fun _ _ => rfl) rfl ps
  simp only [mergePolicies,hf]

theorem mergePolicies_mode_ne_unset (ps : List Policy) : (mergePolicies ps).mode ≠ .unset := by
  rw [mergePolicies_mode]
  split
  · simp [Mode.default]
  · assumption

theorem mergePolicies_dnsMode_ne_unset (ps : List Policy) :
    (mergePolicies ps).dnsMode ≠ .unset := by
  rw [mergePolicies_dnsMode]
  split
  · simp [DNSMode.default]
  · assumption

theorem firstSet_append (as bs : List α) :
    firstSet unset (as++bs) = if firstSet unset as = unset then firstSet unset bs
      else firstSet unset as := by
  induction as with
  | nil => simp [firstSet]
  | cons a as ih =>
    by_cases ha : a = unset
    · simp [firstSet,ha,ih]
    · simp [firstSet,ha]

theorem firstSet_eq_unset {as : List α} : firstSet unset as = unset ↔ ∀ a ∈ as, a = unset := by
  induction as with
  | nil => simp [firstSet]
  | cons a as ih =>
    by_cases ha : a = unset
    · simp [firstSet,ha,ih]
    · simp [firstSet,ha]

theorem firstSet_mem {as : List α} (h : firstSet unset as ≠ unset) : firstSet unset as ∈ as := by
  induction as with
  | nil => exact absurd rfl h
  | cons a as ih =>
    by_cases ha : a = unset
    · simp only [firstSet,ha,if_true] at h ⊢
      exact List.mem_cons_of_mem unset (ih h)
    · simp [firstSet,ha]

end Merge

end Policies
end Enimul
