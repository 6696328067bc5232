import Enimul.ConfigRepository
import Enimul.DoHDial
import Enimul.KotlinPolicy

/-! The rule editor of the app.
The screen takes the policy of a rule apart into the state of a form, in which nothing is null and
numbers are text, and the save button makes a policy of the form again. The core then reads the new
policy and merges it with the default policy. -/
namespace Enimul
namespace RuleEditor

open GoSlice GoText NetIP Policies PolicyDecode GoRun KotlinPolicy ConfigRepository

/-- The characters for which `isWhitespace` holds, in UTF-8. -/
def whitespace : List Str :=
  [[9],[10],[11],[12],[13],[0x1c],[0x1d],[0x1e],[0x1f],[32],[0xc2,0xa0],[0xe1,0x9a,0x80],
    [0xe2,0x80,0xa8],[0xe2,0x80,0xa9],[0xe2,0x80,0xaf],[0xe2,0x81,0x9f],[0xe3,0x80,0x80]]++
  (List.range 11).map fun i => [0xe2,0x80,UInt8.ofNat (0x80+i)]

/-- `String.trim`. -/
def trim (s : Str) : Str := trimSeqs whitespace s

def isBlank (s : Str) : Bool := trim s = []

/-- A number in decimal, for ASCII digits. -/
def parseSigned : Str → Option ℤ
  | 45::digits => (parseNat10 digits).map fun n : ℕ => -(n : ℤ)
  | 43::digits => (parseNat10 digits).map fun n : ℕ => (n : ℤ)
  | digits => (parseNat10 digits).map fun n : ℕ => (n : ℤ)

/-- `String.toIntOrNull`. -/
def toIntOrNull (s : Str) : Option Int32 :=
  ((parseSigned s).filter fun v => -2^31 ≤ v ∧ v < 2^31).map .ofInt

def toText (n : Int32) : Str := DoHDial.formatInt n.toInt

def DEFAULT_NAT64_PREFIX : Str := str "2001:67c:2960:6464::"

def sanitizeHost (raw : Str) : Str :=
  let t := trim raw
  if t = [] then []
  else if t.count 58 = 1 then trim (t.takeWhile fun b => b ≠ 58)
  else t

/-- The state of the screen. -/
structure Form where
  mode : Str
  host : Str
  mapTo : Str
  tls13Only : Bool
  nat64Enabled : Bool
  nat64Prefix : Str
  dnsMode : Str
  numRecordsText : Str
  numSegsText : Str
  oob : Bool
  waitForAck : Bool
  editableRuleKey : Str

def openForm (ruleKey : Str) (initialPolicy : KPolicy) : Form where
  mode := initialPolicy.mode.getD (str "tls-rf")
  host := initialPolicy.host.getD []
  mapTo := initialPolicy.mapTo.getD []
  tls13Only := initialPolicy.tls13Only.getD false
  nat64Enabled := !initialPolicy.nat64Prefix.all isBlank
  nat64Prefix := initialPolicy.nat64Prefix.getD DEFAULT_NAT64_PREFIX
  dnsMode := initialPolicy.dnsMode.getD []
  numRecordsText := (initialPolicy.numRecords.map toText).getD []
  numSegsText := (initialPolicy.numSegs.map toText).getD []
  oob := initialPolicy.oob.getD false
  waitForAck := initialPolicy.waitForAck.getD false
  editableRuleKey := ruleKey

/-- `ifEmpty { null }`. -/
def nullIfEmpty (s : Str) : Option Str := if s = [] then none else some s

def positiveOrNull (s : Str) : Option Int32 := (toIntOrNull s).filter fun n => 0 < n.toInt

def Form.updatedPolicy (f : Form) (initialPolicy : KPolicy) : KPolicy :=
  {initialPolicy with
    mode := some f.mode
    host := nullIfEmpty (sanitizeHost f.host)
    mapTo := nullIfEmpty f.mapTo
    dnsMode := nullIfEmpty f.dnsMode
    tls13Only := some f.tls13Only
    nat64Prefix :=
      if f.nat64Enabled ∧ ¬ isBlank f.nat64Prefix then some (trim f.nat64Prefix) else none
    numRecords := positiveOrNull f.numRecordsText
    numSegs := positiveOrNull f.numSegsText
    oob := some f.oob
    waitForAck := some f.waitForAck}

section Save

variable {ω : Type}

/-- The save button; nothing happens if the key of the rule is blank. -/
def save (config : LumineConfig KPolicy ω) (part : Part) (ruleKey : Str) (initialPolicy : KPolicy)
    (f : Form) : Option (LumineConfig KPolicy ω) :=
  let newKey := trim f.editableRuleKey
  let rules := config.rules part
  if newKey = [] then none
  else
    let rest := if newKey ≠ ruleKey then rules.erase ruleKey else rules
    some (config.setRules (rest.insert newKey (f.updatedPolicy initialPolicy)) part)

/-- A rule is opened and saved with nothing changed. -/
def saveUnedited (config : LumineConfig KPolicy ω) (part : Part) (ruleKey : Str) :
    Option (LumineConfig KPolicy ω) :=
  let initialPolicy := ((config.rules part).lookup ruleKey).getD {}
  save config part ruleKey initialPolicy (openForm ruleKey initialPolicy)

/-- Equal policies, up to the space around the host and the prefix. -/
@[mk_iff] structure SamePolicy (a b : Policy) : Prop where
  host : trim a.host = trim b.host
  nat64Prefix : trim a.nat64Prefix = trim b.nat64Prefix
  rest : {a with host := b.host, nat64Prefix := b.nat64Prefix} = b

/-- The core makes the same of the stored policy as of `p`, which it read before. -/
def Unchanged (config : LumineConfig KPolicy ω) (part : Part) (ruleKey : Str) (p d : Policy) :
    Prop :=
  ∀ config', saveUnedited config part ruleKey = some config' →
    ∃ k' p', (config'.rules part).lookup (trim ruleKey) = some k' ∧
      unmarshal (writePolicy k') = .ok p' ∧
      SamePolicy (mergePolicies [p',d]) (mergePolicies [p,d])

end Save

/-- What the form cannot show is also what the default policy has: a field that is not set comes
back as false, or with the mode tls-rf, and what is cleared comes back as not set. -/
structure Steady (k : KPolicy) (d : Policy) : Prop where
  mode : k.mode = none → d.mode = .unset ∨ d.mode = .tlsRF
  tls13Only : k.tls13Only = none → d.tls13Only = .false
  oob : k.oob = none → d.oob = .false
  waitForAck : k.waitForAck = none → d.waitForAck = .false
  numSegs : k.numSegs = some (-1) → d.numSegments = -1
  mapTo : k.mapTo = some [] → d.mapTo = []
  host : ∀ s, k.host = some s →
    if sanitizeHost s = [] then trim d.host = trim s
    else (trim s).count 58 ≠ 1 ∧ trim s ≠ unsetString
  nat64Prefix : ∀ s, k.nat64Prefix = some s →
    trim (fillFrom [] (nat64Text (some (trim s))) d.nat64Prefix) =
      trim (fillFrom [] (nat64Text (some s)) d.nat64Prefix)

/-! ### Text -/

section Text

theorem trim_trim (s : Str) : trim (trim s) = trim s := trimSeqs_trimSeqs (by decide) s

theorem trim_sanitizeHost (s : Str) : trim (sanitizeHost s) = sanitizeHost s := by
  rw [sanitizeHost]
  split
  · rfl
  · split
    · exact trim_trim _
    · exact trim_trim s

/-- What follows a single colon is lost. -/
theorem sanitizeHost_eq_trim_iff (s : Str) : sanitizeHost s = trim s ↔ (trim s).count 58 ≠ 1 := by
  rw [sanitizeHost]
  by_cases hnil : trim s = []
  · simp [hnil]
  · by_cases hcount : (trim s).count 58 = 1
    · simp only [if_neg hnil,hcount,ne_eq,not_true_eq_false,iff_false]
      intro heq
      have hmem : (58 : UInt8) ∈ trim s := List.count_pos_iff.mp (by omega)
      rw [← heq] at hmem
      have hbefore := List.mem_takeWhile_imp (trimSeqs_subset whitespace _ hmem)
      simp at hbefore
    · simp [hnil,hcount]

theorem parseSigned_formatInt (v : ℤ) : parseSigned (DoHDial.formatInt v) = some v := by
  rcases lt_or_ge v 0 with hneg | hnonneg
  · have hminus : DoHDial.formatInt v = 45::DoHDial.formatInt (-v) := by
      simp [DoHDial.formatInt,hneg,hneg.le,hneg.ne]
    rw [hminus,parseSigned,DoHDial.parseNat10_formatInt (by omega),Option.map_some]
    congr
    omega
  · have hread := DoHDial.parseNat10_formatInt hnonneg
    have hminus : isDigit 45 = false := by decide
    have hplus : isDigit 43 = false := by decide
    rw [parseSigned.eq_def]
    split
    · rename_i hsign
      simp [hsign,parseNat10,hminus] at hread
    · rename_i hsign
      simp [hsign,parseNat10,hplus] at hread
    · rw [hread,Option.map_some]
      congr
      omega

theorem toIntOrNull_toText (n : Int32) : toIntOrNull (toText n) = some n := by
  have hrange : -2^31 ≤ n.toInt ∧ n.toInt < 2^31 := ⟨n.le_toInt,n.toInt_lt⟩
  rw [toIntOrNull,toText,parseSigned_formatInt,Option.filter_some,if_pos (decide_eq_true hrange),
    Option.map_some,Int32.ofInt_toInt]

/-- A number comes back if it is positive. -/
theorem positiveOrNull_toText (n : Option Int32) :
    positiveOrNull ((n.map toText).getD []) = n.filter fun n => 0 < n.toInt := by
  cases n with
  | none => rfl
  | some n => rw [Option.map_some,Option.getD_some,positiveOrNull,toIntOrNull_toText]

end Text

/-! ### What the core reads -/

section Columns

variable {k : KPolicy} {p : Policy}

/-- What the app writes for each key of `members`. -/
def sources : List (KPolicy → Option Value) :=
  [fun k => k.replyFirst.map .bool,fun k => k.sniffOverride.map .string,
    fun k => k.dnsMode.map .string,fun k => k.dnsCacheTtl.map .string,
    fun k => k.connectTimeout.map .string,fun k => k.host.map .string,fun k => k.mapTo.map .string,
    fun k => k.nat64Prefix.map .string,fun _ => none,
    fun k => k.httpStatus.map fun n => .int n.toInt,fun k => k.tls13Only.map .bool,
    fun k => k.mode.map .string,
    fun k => k.numRecords.map fun n => .int n.toInt,fun k => k.numSegs.map fun n => .int n.toInt,
    fun k => k.waitForAck.map .bool,fun k => k.oob.map .bool,fun k => k.oobEx.map .bool,
    fun k => k.minorVer.map fun n => .int n.toInt,fun k => k.sendInterval.map .string,
    fun k => k.fakeTtl.map fun n => .int n.toInt,fun k => k.fakeSleep.map .string,
    fun k => k.maxTtl.map fun n => .int n.toInt,fun k => k.attempts.map fun n => .int n.toInt,
    fun k => k.singleTimeout.map .string,fun k => k.ttlCacheTtl.map .string]

def columns : List (Member × (KPolicy → Option Value)) := members.zip sources

theorem columns_source : ∀ c ∈ columns, (c.1.name = "port" ∧ c.2 = fun _ => none) ∨
    ∃ property ∈ properties, property.name = c.1.name ∧ property.value = c.2 := by
  refine List.forall_iff_forall_mem.mp ?_
  simp only [columns,members,sources,List.zip_cons_cons,List.zip_nil_left,List.Forall,properties,
    Property.boolean,Property.string,Property.int,Member.port,Member.minorVer,
    List.exists_mem_cons_iff,and_self,true_or,or_true]

theorem spelled_column {c : Member × (KPolicy → Option Value)} (hc : c ∈ columns) (k : KPolicy) :
    spelled (writePolicy k) (str c.1.name) = ((c.2 k).map fun v => (str c.1.name,v)).toList := by
  rcases columns_source c hc with ⟨hport,hnone⟩ | ⟨property,hp,hname,hvalue⟩
  · rw [hport,hnone,spelled_port]
    rfl
  · rw [← hname,← hvalue,spelled_property hp,written]

/-- The core reads what the app writes, key by key. -/
theorem unmarshal_writePolicy_iff :
    unmarshal (writePolicy k) = .ok p ↔ ∀ c ∈ columns, c.1.value (c.2 k) = .ok (c.1.get p) := by
  have hcolumn : ∀ c ∈ columns, (c.1.Takes (writePolicy k) ∧
      c.1.value (lastSpelled (writePolicy k) (str c.1.name)) = .ok (c.1.get p)) ↔
      c.1.value (c.2 k) = .ok (c.1.get p) := by
    intro c hc
    rw [Member.Takes,lastSpelled,spelled_column hc]
    cases c.2 k with
    | none => simp
    | some v =>
      simp only [Option.map_some,Option.toList_some,List.mem_singleton,forall_eq,
        List.getLast?_singleton,and_iff_right_iff_imp]
      intro h
      obtain ⟨raw,hraw,-⟩ := except_bind_ok h
      exact ⟨raw,hraw⟩
  have hfirst : members = columns.map Prod.fst := rfl
  rw [unmarshal_iff,hfirst,List.forall_mem_map]
  exact forall₂_congr hcolumn

end Columns

/-! ### The saved policy -/

section Saved

variable {k : KPolicy} {p p' : Policy}

def saved (ruleKey : Str) (k : KPolicy) : KPolicy := (openForm ruleKey k).updatedPolicy k

/-- What the core reads from the saved policy, by what it read before and the new host. -/
def reread (k : KPolicy) (p : Policy) (host : Str) : Policy :=
  {p with
    mode := if k.mode = none then .tlsRF else p.mode
    host := host
    mapTo := if k.mapTo = some [] then unsetString else p.mapTo
    tls13Only := triBool (some (k.tls13Only.getD false))
    nat64Prefix := (k.nat64Prefix.map fun s => nat64Text (some (trim s))).getD []
    numSegments := if k.numSegs = some (-1) then 0 else p.numSegments
    oob := triBool (some (k.oob.getD false))
    waitForAck := triBool (some (k.waitForAck.getD false))}

theorem nullIfEmpty_getD (s : Option Str) :
    nullIfEmpty (s.getD []) = if s = some [] then none else s := by
  cases s with
  | none => rfl
  | some s => by_cases hs : s = [] <;> simp [nullIfEmpty,hs]

theorem saved_nat64Prefix (ruleKey : Str) (k : KPolicy) :
    nat64Text (saved ruleKey k).nat64Prefix =
      (k.nat64Prefix.map fun s => nat64Text (some (trim s))).getD [] := by
  have hblank : nat64Text (some []) = [] := rfl
  have hnone : nat64Text none = [] := rfl
  cases h : k.nat64Prefix with
  | none => simp [saved,Form.updatedPolicy,openForm,h,hnone]
  | some s =>
    by_cases hs : trim s = []
    · simp [saved,Form.updatedPolicy,openForm,h,isBlank,hs,hblank,hnone]
    · simp [saved,Form.updatedPolicy,openForm,h,isBlank,hs]

theorem typed_string (s : Option Str) : typed stringField (s.map .string) = .ok s := by
  cases s <;> rfl

/-- The core takes no empty mode, so none is lost. -/
theorem saved_dnsMode (ruleKey : Str) {v : DNSMode}
    (h : (typed (enumField dnsModeOf) (k.dnsMode.map .string)).bind dnsModeOf = .ok v) :
    (typed (enumField dnsModeOf) ((saved ruleKey k).dnsMode.map .string)).bind dnsModeOf =
      .ok v := by
  have hsaved : (saved ruleKey k).dnsMode = if k.dnsMode = some [] then none else k.dnsMode :=
    nullIfEmpty_getD k.dnsMode
  by_cases hempty : k.dnsMode = some []
  · have herr : (typed (enumField dnsModeOf) (some (.string []))).bind dnsModeOf =
        .error "invalid dns_mode: " := rfl
    rw [hempty] at h
    cases herr.symm.trans h
  · rw [hsaved,if_neg hempty]
    exact h

theorem saved_mapTo (ruleKey : Str)
    (h : (typed stringField (k.mapTo.map .string)).bind (hostText "map_to") = .ok p.mapTo) :
    (typed stringField ((saved ruleKey k).mapTo.map .string)).bind (hostText "map_to") =
      .ok (if k.mapTo = some [] then unsetString else p.mapTo) := by
  have hsaved : (saved ruleKey k).mapTo = if k.mapTo = some [] then none else k.mapTo :=
    nullIfEmpty_getD k.mapTo
  rw [hsaved]
  split
  · rfl
  · exact h

theorem saved_mode (ruleKey : Str) {v : Mode}
    (h : (typed (enumField modeOf) (k.mode.map .string)).bind modeOf = .ok v) :
    (typed (enumField modeOf) ((saved ruleKey k).mode.map .string)).bind modeOf =
      .ok (if k.mode = none then .tlsRF else v) := by
  have hsaved : (saved ruleKey k).mode = some (k.mode.getD (str "tls-rf")) := rfl
  rw [hsaved]
  cases hmode : k.mode with
  | none => rfl
  | some s =>
    rw [hmode] at h
    exact h

/-- The core takes no number of records that is not positive. -/
theorem saved_numRecords (ruleKey : Str) {v : ℤ}
    (h : (typed uintField (k.numRecords.map fun n => .int n.toInt)).bind (countOf "num_records") =
      .ok v) :
    (typed uintField ((saved ruleKey k).numRecords.map fun n => .int n.toInt)).bind
      (countOf "num_records") = .ok v := by
  have hsaved : (saved ruleKey k).numRecords = k.numRecords.filter fun n => 0 < n.toInt :=
    positiveOrNull_toText k.numRecords
  rw [hsaved]
  cases hn : k.numRecords with
  | none =>
    rw [hn] at h
    exact h
  | some n =>
    rw [hn] at h
    obtain ⟨raw,hraw,hcount⟩ := except_bind_ok h
    have hpos : 0 < n.toInt := by
      simp only [Option.map_some,typed,uintField,numberField] at hraw
      split at hraw
      · rename_i hrange
        cases hraw
        by_contra hzero
        have hn : n.toInt = 0 := by omega
        rw [hn] at hcount
        cases hcount
      · cases hraw
    rw [Option.filter_some,if_pos (decide_eq_true hpos)]
    exact h

/-- The core takes -1 and the positive numbers of segments. -/
theorem segmentsOf_int {n : Int32} {v : ℤ}
    (h : (typed intField (some (.int n.toInt))).bind segmentsOf = .ok v) :
    v = n.toInt ∧ (0 < n.toInt ∨ n = -1) := by
  have hlo := n.le_toInt
  have hhi := n.toInt_lt
  have hfield : typed intField (some (.int n.toInt)) = .ok (some (Int64.ofInt n.toInt)) :=
    if_pos ⟨by omega,by omega⟩
  have hn : (Int64.ofInt n.toInt).toInt = n.toInt := Int64.toInt_ofInt_of_le (by omega) (by omega)
  rw [hfield] at h
  change segmentsOf (some (Int64.ofInt n.toInt)) = .ok v at h
  rw [segmentsOf,hn] at h
  split at h
  · cases h
  · split at h
    · cases h
    · refine ⟨(Except.ok.inj h).symm,?_⟩
      have hcases : 0 < n.toInt ∨ n.toInt = -1 := by omega
      exact hcases.imp_right fun hone => Int32.toInt_inj.mp hone

theorem saved_numSegs (ruleKey : Str) {v : ℤ}
    (h : (typed intField (k.numSegs.map fun n => .int n.toInt)).bind segmentsOf = .ok v) :
    (typed intField ((saved ruleKey k).numSegs.map fun n => .int n.toInt)).bind segmentsOf =
      .ok (if k.numSegs = some (-1) then 0 else v) := by
  have hsaved : (saved ruleKey k).numSegs = k.numSegs.filter fun n => 0 < n.toInt :=
    positiveOrNull_toText k.numSegs
  rw [hsaved]
  cases hn : k.numSegs with
  | none =>
    rw [hn] at h
    exact h
  | some n =>
    rw [hn] at h
    rcases (segmentsOf_int h).2 with hpos | rfl
    · have hne : some n ≠ some (-1) := by
        rintro ⟨⟩
        exact absurd hpos (by decide)
      rw [Option.filter_some,if_pos (decide_eq_true hpos),if_neg hne]
      exact h
    · rfl

/-- The core reads the saved policy if it takes the new host, and then as expected. -/
theorem unmarshal_saved (ruleKey : Str) (h : unmarshal (writePolicy k) = .ok p) {host : Str}
    (hhost : hostText "host" (saved ruleKey k).host = .ok host) :
    unmarshal (writePolicy (saved ruleKey k)) = .ok (reread k p host) := by
  rw [unmarshal_writePolicy_iff] at h ⊢
  simp only [columns,members,sources,List.zip_cons_cons,List.zip_nil_left,
    List.forall_mem_cons] at h ⊢
  obtain ⟨h₁,h₂,hdnsMode,h₄,h₅,-,hmapTo,-,h₉,h₁₀,-,hmode,hnumRecords,hnumSegs,-,-,h₁₇,h₁₈,h₁₉,h₂₀,
    h₂₁,h₂₂,h₂₃,h₂₄,h₂₅,-⟩ := h
  have hnat64 : nat64Of (saved ruleKey k).nat64Prefix = .ok (reread k p host).nat64Prefix :=
    congrArg Except.ok (saved_nat64Prefix ruleKey k)
  exact ⟨h₁,h₂,saved_dnsMode ruleKey hdnsMode,h₄,h₅,except_bind_of_ok (typed_string _) hhost,
    saved_mapTo ruleKey hmapTo,except_bind_of_ok (typed_string _) hnat64,h₉,h₁₀,rfl,
    saved_mode ruleKey hmode,saved_numRecords ruleKey hnumRecords,saved_numSegs ruleKey hnumSegs,
    rfl,rfl,h₁₇,h₁₈,h₁₉,h₂₀,h₂₁,h₂₂,h₂₃,h₂₄,h₂₅,by simp⟩

/-- What the core has read for the fields of the form. -/
structure Read (k : KPolicy) (p : Policy) : Prop where
  mode : k.mode = none → p.mode = .unset
  host : hostText "host" k.host = .ok p.host
  mapTo : hostText "map_to" k.mapTo = .ok p.mapTo
  tls13Only : p.tls13Only = triBool k.tls13Only
  nat64Prefix : p.nat64Prefix = nat64Text k.nat64Prefix
  numSegs : k.numSegs = some (-1) → p.numSegments = -1
  oob : p.oob = triBool k.oob
  waitForAck : p.waitForAck = triBool k.waitForAck

theorem triBool_read {b : Option Bool} {v : TriBool}
    (h : (typed triBoolField (b.map .bool)).bind triBoolOf = .ok v) : v = triBool b := by
  cases b <;> exact (Except.ok.inj h).symm

theorem string_read {α : Type} {s : Option Str} {decode : Option Str → Except String α} {v : α}
    (h : (typed stringField (s.map .string)).bind decode = .ok v) : decode s = .ok v := by
  rw [typed_string] at h
  exact h

theorem read_of_unmarshal (h : unmarshal (writePolicy k) = .ok p) : Read k p := by
  have hcolumns := unmarshal_writePolicy_iff.mp h
  simp only [columns,members,sources,List.zip_cons_cons,List.forall_mem_cons] at hcolumns
  obtain ⟨-,-,-,-,-,hhost,hmapTo,hnat64,-,-,htls13,hmode,-,hsegs,hack,hoob,-⟩ := hcolumns
  have hnat64 : nat64Of k.nat64Prefix = .ok p.nat64Prefix := string_read hnat64
  refine ⟨fun hnone => ?_,string_read hhost,string_read hmapTo,triBool_read htls13,
    (Except.ok.inj hnat64).symm,fun hone => ?_,triBool_read hoob,triBool_read hack⟩
  · rw [hnone] at hmode
    exact (Except.ok.inj hmode).symm
  · rw [hone] at hsegs
    exact (segmentsOf_int (n := -1) hsegs).1

theorem unmarshal_saved_iff (ruleKey : Str) (h : unmarshal (writePolicy k) = .ok p) :
    unmarshal (writePolicy (saved ruleKey k)) = .ok p' ↔
      ∃ host, hostText "host" (saved ruleKey k).host = .ok host ∧ p' = reread k p host := by
  constructor
  · intro h'
    have hhost := (read_of_unmarshal h').host
    exact ⟨p'.host,hhost,Except.ok.inj (h'.symm.trans (unmarshal_saved ruleKey h hhost))⟩
  · rintro ⟨host,hhost,rfl⟩
    exact unmarshal_saved ruleKey h hhost

end Saved

/-! ### The merge with the default policy -/

section Merge

variable {k : KPolicy} {p d : Policy}

/-- A value that is cleared is only kept if the default policy has it. -/
theorem cleared_iff {α : Type} [DecidableEq α] {unset a b : α} {c : Prop} [Decidable c]
    (h : c → a ≠ unset) :
    fillFrom unset (if c then unset else a) b = fillFrom unset a b ↔ (c → b = a) := by
  by_cases hc : c
  · simp [hc,fillFrom_unset,fillFrom_of_ne (h hc)]
  · simp [hc]

/-- A flag that is not set comes back as false. -/
theorem flag_kept_iff (b : Option Bool) (v : TriBool) :
    fillFrom .unset (triBool (some (b.getD false))) v = fillFrom .unset (triBool b) v ↔
      (b = none → v = .false) := by
  cases b with
  | none => cases v <;> decide
  | some b => simp

def finishMode (m : Mode) : Mode := if m = .unset then Mode.default else m

theorem mode_kept_iff (h : k.mode = none → p.mode = .unset) :
    finishMode (fillFrom .unset (if k.mode = none then .tlsRF else p.mode) d.mode) =
        finishMode (fillFrom .unset p.mode d.mode) ↔
      (k.mode = none → d.mode = .unset ∨ d.mode = .tlsRF) := by
  by_cases hnone : k.mode = none
  · simp only [h hnone,hnone,true_implies]
    cases d.mode <;> decide
  · simp [hnone]

theorem nat64_kept_iff (h : Read k p) :
    trim (fillFrom [] ((k.nat64Prefix.map fun s => nat64Text (some (trim s))).getD [])
        d.nat64Prefix) = trim (fillFrom [] p.nat64Prefix d.nat64Prefix) ↔
      ∀ s, k.nat64Prefix = some s → trim (fillFrom [] (nat64Text (some (trim s))) d.nat64Prefix) =
        trim (fillFrom [] (nat64Text (some s)) d.nat64Prefix) := by
  rw [h.nat64Prefix]
  cases k.nat64Prefix with
  | none => simp [nat64Text]
  | some s => simp

theorem mapTo_kept_iff (h : Read k p) :
    fillFrom unsetString (if k.mapTo = some [] then unsetString else p.mapTo) d.mapTo =
        fillFrom unsetString p.mapTo d.mapTo ↔ (k.mapTo = some [] → d.mapTo = []) := by
  have hread : k.mapTo = some [] → p.mapTo = [] := by
    intro hempty
    have hmapTo := h.mapTo
    rw [hempty] at hmapTo
    exact (Except.ok.inj hmapTo).symm
  rw [cleared_iff fun hempty => by rw [hread hempty]; decide]
  exact imp_congr_right fun hempty => by rw [hread hempty]

theorem numSegs_kept_iff (h : Read k p) :
    fillFrom 0 (if k.numSegs = some (-1) then 0 else p.numSegments) d.numSegments =
        fillFrom 0 p.numSegments d.numSegments ↔ (k.numSegs = some (-1) → d.numSegments = -1) := by
  rw [cleared_iff fun hone => by rw [h.numSegs hone]; decide]
  exact imp_congr_right fun hone => by rw [h.numSegs hone]

/-- The merge is the same if each of the fields is. -/
theorem merge_kept_iff {host : Str} (h : Read k p) :
    SamePolicy (mergePolicies [reread k p host,d]) (mergePolicies [p,d]) ↔
      trim (fillFrom unsetString host d.host) = trim (fillFrom unsetString p.host d.host) ∧
        (∀ s, k.nat64Prefix = some s →
          trim (fillFrom [] (nat64Text (some (trim s))) d.nat64Prefix) =
            trim (fillFrom [] (nat64Text (some s)) d.nat64Prefix)) ∧
        (k.mapTo = some [] → d.mapTo = []) ∧ (k.tls13Only = none → d.tls13Only = .false) ∧
        (k.mode = none → d.mode = .unset ∨ d.mode = .tlsRF) ∧
        (k.numSegs = some (-1) → d.numSegments = -1) ∧
        (k.waitForAck = none → d.waitForAck = .false) ∧ (k.oob = none → d.oob = .false) := by
  rw [samePolicy_iff]
  simp only [mergePolicies,List.foldl_cons,List.foldl_nil,overlay,mergeStart,fillFrom_unset,reread,
    Policy.mk.injEq,and_true,true_and]
  rw [nat64_kept_iff h,mapTo_kept_iff h,numSegs_kept_iff h,h.tls13Only,h.waitForAck,h.oob,
    flag_kept_iff,flag_kept_iff,flag_kept_iff]
  have hmode := mode_kept_iff (d := d) h.mode
  simp only [finishMode] at hmode
  rw [hmode]

/-- A host comes back if it is not blank and has not a single colon. -/
theorem host_kept_iff (ruleKey : Str) (h : Read k p) :
    (∃ host, hostText "host" (saved ruleKey k).host = .ok host ∧
      trim (fillFrom unsetString host d.host) = trim (fillFrom unsetString p.host d.host)) ↔
      ∀ s, k.host = some s →
        if sanitizeHost s = [] then trim d.host = trim s
        else (trim s).count 58 ≠ 1 ∧ trim s ≠ unsetString := by
  have hsaved : (saved ruleKey k).host = nullIfEmpty (sanitizeHost (k.host.getD [])) := rfl
  have hread := h.host
  rw [hsaved]
  cases hhost : k.host with
  | none =>
    rw [hhost] at hread
    have hp : p.host = unsetString := (Except.ok.inj hread).symm
    exact ⟨fun _ s hs => (nomatch hs),fun _ => ⟨unsetString,rfl,by rw [hp]⟩⟩
  | some s =>
    rw [hhost,hostText] at hread
    split at hread
    · cases hread
    · rename_i hs
      have hp : p.host = s := (Except.ok.inj hread).symm
      simp only [hp,fillFrom_of_ne hs,Option.getD_some,Option.some.injEq,forall_eq']
      by_cases hnil : sanitizeHost s = []
      · simp [hnil,nullIfEmpty,hostText,fillFrom_unset]
      · simp only [nullIfEmpty,if_neg hnil,hostText]
        by_cases hunset : sanitizeHost s = unsetString
        · simp only [if_pos hunset,reduceCtorEq,false_and,exists_false,false_iff,not_and_or,
            not_not]
          by_cases hcount : (trim s).count 58 = 1
          · exact .inl hcount
          · exact .inr (((sanitizeHost_eq_trim_iff s).mpr hcount).symm.trans hunset)
        · simp only [if_neg hunset,Except.ok.injEq,exists_eq_left',fillFrom_of_ne hunset,
            trim_sanitizeHost,← sanitizeHost_eq_trim_iff]
          exact ⟨fun heq => ⟨heq,heq ▸ hunset⟩,fun hboth => hboth.1⟩

end Merge

section Unedited

variable {ω : Type} {k : KPolicy} {p : Policy}

theorem saveUnedited_eq {config : LumineConfig KPolicy ω} {part : Part} {ruleKey : Str}
    (h : (config.rules part).lookup ruleKey = some k) :
    (trim ruleKey = [] ∧ saveUnedited config part ruleKey = none) ∨
      (trim ruleKey ≠ [] ∧ ∃ config', saveUnedited config part ruleKey = some config' ∧
        (config'.rules part).lookup (trim ruleKey) = some (saved ruleKey k)) := by
  have hkey : (openForm ruleKey k).editableRuleKey = ruleKey := rfl
  by_cases hnil : trim ruleKey = []
  · exact .inl ⟨hnil,by simp [saveUnedited,save,h,hkey,hnil]⟩
  · have hsave : saveUnedited config part ruleKey = some (config.setRules
        ((if trim ruleKey ≠ ruleKey then (config.rules part).erase ruleKey
          else config.rules part).insert (trim ruleKey) (saved ruleKey k)) part) := by
      simp only [saveUnedited,save,h,Option.getD_some,hkey,if_neg hnil]
      rfl
    exact .inr ⟨hnil,_,hsave,by rw [rules_setRules,AList.lookup_insert]⟩

end Unedited

/-- Saving a rule unedited changes nothing exactly if what the form cannot show is what the default
policy has. -/
theorem saveUnedited_unchanged_iff {ω : Type} (config : LumineConfig KPolicy ω) (part : Part)
    (ruleKey : Str) {k : KPolicy} {p : Policy} (d : Policy)
    (hrule : (config.rules part).lookup ruleKey = some k)
    (hcore : unmarshal (writePolicy k) = .ok p) :
    Unchanged config part ruleKey p d ↔ trim ruleKey = [] ∨ Steady k d := by
  have hread := read_of_unmarshal hcore
  rcases saveUnedited_eq hrule with ⟨hnil,hnone⟩ | ⟨hne,config',hsome,hlookup⟩
  · refine ⟨fun _ => .inl hnil,fun _ config' h => ?_⟩
    rw [hnone] at h
    cases h
  · constructor
    · intro h
      obtain ⟨k',p',hk',hp',hsame⟩ := h config' hsome
      obtain rfl := Option.some.inj (hlookup.symm.trans hk')
      obtain ⟨host,hhost,rfl⟩ := (unmarshal_saved_iff ruleKey hcore).mp hp'
      obtain ⟨hkept,hnat64,hmapTo,htls13,hmode,hsegs,hack,hoob⟩ := (merge_kept_iff hread).mp hsame
      exact .inr ⟨hmode,htls13,hoob,hack,hsegs,hmapTo,
        (host_kept_iff ruleKey hread).mp ⟨host,hhost,hkept⟩,hnat64⟩
    · rintro (hnil | h) config'' hsome'
      · exact absurd hnil hne
      · obtain rfl := Option.some.inj (hsome.symm.trans hsome')
        obtain ⟨host,hhost,hkept⟩ := (host_kept_iff ruleKey hread).mpr h.host
        exact ⟨saved ruleKey k,reread k p host,hlookup,unmarshal_saved ruleKey hcore hhost,
          (merge_kept_iff hread).mpr ⟨hkept,h.nat64Prefix,h.mapTo,h.tls13Only,h.mode,h.numSegs,
            h.waitForAck,h.oob⟩⟩

/-- A configuration with one rule. -/
def oneRule (k : KPolicy) : LumineConfig KPolicy Unit :=
  ⟨(∅ : Rules KPolicy).insert (str "a.test") k,∅,()⟩

/-- Every field that the form shows is set. -/
def allSet : KPolicy :=
  {mode := some (str "direct"), host := some (str " 1.2.3.4"), tls13Only := some true,
    oob := some false, waitForAck := some false}

def allSetPolicy : Policy :=
  {mergeStart with
    mode := .direct
    host := str " 1.2.3.4"
    tls13Only := .true
    oob := .false
    waitForAck := .false}

theorem saveUnedited_unchanged_allSet :
    unmarshal (writePolicy allSet) = .ok allSetPolicy ∧
      Unchanged (oneRule allSet) .domain (str "a.test") allSetPolicy mergeStart := by
  have hread : unmarshal (writePolicy allSet) = .ok allSetPolicy := rfl
  have hhost : if sanitizeHost (str " 1.2.3.4") = [] then
        trim mergeStart.host = trim (str " 1.2.3.4")
      else (trim (str " 1.2.3.4")).count 58 ≠ 1 ∧ trim (str " 1.2.3.4") ≠ unsetString := by
    decide
  have hsteady : Steady allSet mergeStart :=
    ⟨by decide,by decide,by decide,by decide,by decide,by decide,
      fun s hs => Option.some.inj hs ▸ hhost,fun s hs => (nomatch hs)⟩
  exact ⟨hread,(saveUnedited_unchanged_iff (oneRule allSet) .domain (str "a.test") mergeStart rfl
    hread).mpr (.inr hsteady)⟩

/-- The number of segments, and nothing else. -/
def onlySegments : KPolicy := {numSegs := some (-1)}

/-- The number of segments is lost, and the flag is not inherited any more. -/
theorem saveUnedited_onlySegments :
    let p : Policy := {mergeStart with numSegments := -1}
    let d : Policy := {mergeStart with tls13Only := .true}
    unmarshal (writePolicy onlySegments) = .ok p ∧
      (mergePolicies [p,d]).numSegments = -1 ∧ (mergePolicies [p,d]).tls13Only = .true ∧
      (∃ k' p', (saveUnedited (oneRule onlySegments) .domain (str "a.test")).bind
          (fun config' => (config'.rules .domain).lookup (str "a.test")) = some k' ∧
        unmarshal (writePolicy k') = .ok p' ∧
        (mergePolicies [p',d]).numSegments = 0 ∧ (mergePolicies [p',d]).tls13Only = .false) ∧
      ¬ Unchanged (oneRule onlySegments) .domain (str "a.test") p d := by
  intro p d
  have hread : unmarshal (writePolicy onlySegments) = .ok p := rfl
  have hsaved : unmarshal (writePolicy (saved (str "a.test") onlySegments)) =
      .ok (reread onlySegments p unsetString) := unmarshal_saved (str "a.test") hread rfl
  refine ⟨hread,rfl,rfl,⟨saved (str "a.test") onlySegments,_,rfl,hsaved,rfl,rfl⟩,fun h => ?_⟩
  obtain ⟨k',p',hk',hp',hsame⟩ := h _ rfl
  obtain rfl : saved (str "a.test") onlySegments = k' := Option.some.inj hk'
  obtain rfl := Except.ok.inj (hsaved.symm.trans hp')
  exact absurd (congrArg Policy.numSegments hsame.rest) (by decide)

end RuleEditor
end Enimul
