import Enimul.GoText
import Mathlib.Data.List.AList

/-! The configurations of the app.
A configuration is stored in two places: a file that the proxy core reads, from which the
disabled rules are left out, and for each name a table of the disabled rules with their policies.
Loading puts the two together again. -/
namespace Enimul
namespace ConfigRepository

open GoSlice GoText

abbrev Rules (ρ : Type) := AList fun _ : Str => ρ

/-- The rules of a configuration and everything else in it. -/
structure LumineConfig (ρ ω : Type) where
  domainPolicies : Rules ρ
  ipPolicies : Rules ρ
  other : ω

/-- The tag of a disabled rule, "d" or "i". -/
inductive Part
  | domain
  | ip
  deriving DecidableEq, Repr

/-- A disabled rule: its tag and the text of its policy. -/
structure Snapshot (τ : Type) where
  t : Part
  p : τ

/-- The two Moshi adapters. `fromJson` throws on a malformed text and returns null for the text
null; what `toJson` writes is read back. -/
structure Moshi (ρ ω τ : Type) where
  toJson : LumineConfig ρ ω → τ
  fromJson : τ → Except String (Option (LumineConfig ρ ω))
  policyToJson : ρ → τ
  policyFromJson : τ → Except String (Option ρ)
  fromJson_toJson : ∀ c, fromJson (toJson c) = .ok (some c)
  policyFromJson_toJson : ∀ p, policyFromJson (policyToJson p) = .ok (some p)

/-- The files by configuration name, and the disabled rules by configuration name. -/
structure Store (τ : Type) where
  files : Str → Option τ
  disabled : Str → Rules (Snapshot τ)

section Repository

variable {ρ ω τ : Type}

def LumineConfig.rules (c : LumineConfig ρ ω) : Part → Rules ρ
  | .domain => c.domainPolicies
  | .ip => c.ipPolicies

def LumineConfig.setRules (c : LumineConfig ρ ω) (m : Rules ρ) : Part → LumineConfig ρ ω
  | .domain => {c with domainPolicies := m}
  | .ip => {c with ipPolicies := m}

def loadDisabledSnapshots (s : Store τ) (name : Str) : Rules (Snapshot τ) := s.disabled name

def stripDisabled (s : Store τ) (config : LumineConfig ρ ω) (name : Str) : LumineConfig ρ ω :=
  let snap := loadDisabledSnapshots s name
  if snap.entries.length = 0 then config
  else snap.entries.foldl (fun c e => c.setRules ((c.rules e.2.t).erase e.1) e.2.t) config

variable (moshi : Moshi ρ ω τ)

def restoreRule (c : LumineConfig ρ ω) (e : Sigma fun _ : Str => Snapshot τ) : LumineConfig ρ ω :=
  match moshi.policyFromJson e.2.p with
  | .ok (some policy) => c.setRules ((c.rules e.2.t).insert e.1 policy) e.2.t
  | _ => c

def mergeDisabledSnapshots (s : Store τ) (config : LumineConfig ρ ω) (name : Str) :
    LumineConfig ρ ω :=
  let snap := loadDisabledSnapshots s name
  if snap.entries.length = 0 then config else snap.entries.foldl (restoreRule moshi) config

/-- `writeTextAtomic` with a disk that works. -/
def writeFile (s : Store τ) (name : Str) (content : τ) : Store τ :=
  {s with files := Function.update s.files name (some content)}

/-- `prefs.edit().putString(..).apply()`. -/
def putDisabled (s : Store τ) (name : Str) (snap : Rules (Snapshot τ)) : Store τ :=
  {s with disabled := Function.update s.disabled name snap}

def saveConfig (name : Str) (config : LumineConfig ρ ω) (s : Store τ) : Store τ :=
  writeFile s name (moshi.toJson (stripDisabled s config name))

def setRuleEnabled (name : Str) (config : LumineConfig ρ ω) (key : Str) (enabled : Bool)
    (s : Store τ) : Store τ :=
  let snap := loadDisabledSnapshots s name
  let inDomain := (config.domainPolicies.lookup key).isSome
  let inIp := (config.ipPolicies.lookup key).isSome
  if ¬ inDomain ∧ ¬ inIp then s
  else if enabled then saveConfig moshi name config (putDisabled s name (snap.erase key))
  else
    let part := if inDomain then Part.domain else Part.ip
    match (config.rules part).lookup key with
    | none => s
    | some policy =>
      let entry : Snapshot τ := ⟨part,moshi.policyToJson policy⟩
      saveConfig moshi name config (putDisabled s name (snap.insert key entry))

/-- The store, and the configuration without the rule. -/
def deleteRule (name : Str) (config : LumineConfig ρ ω) (key : Str) (s : Store τ) :
    LumineConfig ρ ω × Store τ :=
  let snap := loadDisabledSnapshots s name
  let s := if (snap.lookup key).isSome then putDisabled s name (snap.erase key) else s
  let updated := {config with
    domainPolicies := config.domainPolicies.erase key
    ipPolicies := config.ipPolicies.erase key}
  (updated,saveConfig moshi name updated s)

def deleteConfig (name : Str) (s : Store τ) : Store τ :=
  {s with files := Function.update s.files name none}

/-- What the app is shipped with: the default configuration as a text, if the asset can be read,
and the configuration that the class has as its default. -/
structure Assets (ρ ω τ : Type) where
  configDefault : Option τ
  lumineConfig : LumineConfig ρ ω

variable (assets : Assets ρ ω τ)

def Assets.config : Except String (LumineConfig ρ ω) :=
  match assets.configDefault with
  | none => .ok assets.lumineConfig
  | some assetJson =>
    match moshi.fromJson assetJson with
    | .error err => .error err
    | .ok config => .ok (config.getD assets.lumineConfig)

/-- Every exception ends in null. -/
def loadConfig (name : Str) (s : Store τ) : Option (LumineConfig ρ ω) × Store τ :=
  match s.files name with
  | none =>
    if name = str "config" then
      match assets.config moshi with
      | .error _ => (none,s)
      | .ok config =>
        let s := saveConfig moshi (str "config") config s
        (some (mergeDisabledSnapshots moshi s config (str "config")),s)
    else (none,s)
  | some text =>
    match moshi.fromJson text with
    | .ok (some parsed) => (some (mergeDisabledSnapshots moshi s parsed name),s)
    | _ => (none,s)

/-- What can be done with the repository. -/
inductive Op (ρ ω : Type)
  | saveConfig (name : Str) (config : LumineConfig ρ ω)
  | setRuleEnabled (name : Str) (config : LumineConfig ρ ω) (key : Str) (enabled : Bool)
  | deleteRule (name : Str) (config : LumineConfig ρ ω) (key : Str)
  | deleteConfig (name : Str)
  | loadConfig (name : Str)

def runOp (s : Store τ) : Op ρ ω → Store τ
  | .saveConfig name config => saveConfig moshi name config s
  | .setRuleEnabled name config key enabled => setRuleEnabled moshi name config key enabled s
  | .deleteRule name config key => (deleteRule moshi name config key s).2
  | .deleteConfig name => deleteConfig name s
  | .loadConfig name => (loadConfig moshi assets name s).2

/-- A store in which nothing has been saved. -/
def emptyStore : Store τ := ⟨fun _ => none,fun _ => ∅⟩

def runOps (ops : List (Op ρ ω)) (s : Store τ) : Store τ := ops.foldl (runOp moshi assets) s

def Reachable (s : Store τ) : Prop := ∃ ops, s = runOps moshi assets ops emptyStore

end Repository

section Folds

variable {σ ε β : Type} {step : σ → ε → σ} {P : ε → Prop} {es : List ε} {v : β}
/-- Nothing to do is no special case. -/
theorem ite_foldl (es : List ε) (step : σ → ε → σ) (c : σ) :
    (if es.length = 0 then c else es.foldl step c) = es.foldl step c := by
  cases es with
  | nil => rfl
  | cons e es => exact if_neg (Nat.succ_ne_zero _)

variable (obs : σ → β)

/-- Entries that have nothing to do with what is looked at leave it as it is. -/
theorem foldl_unchanged (hstep : ∀ c, ∀ e ∈ es, ¬ P e → obs (step c e) = obs c)
    (h : ∀ e ∈ es, ¬ P e) (c : σ) : obs (es.foldl step c) = obs c := by
  induction es generalizing c with
  | nil => rfl
  | cons e es ih =>
    rw [List.foldl_cons,ih (fun c e he => hstep c e (.tail _ he)) fun e he => h e (.tail _ he)]
    exact hstep c e (.head _) (h e (.head _))

/-- One entry that sets it is enough if all that concern it set it to the same value. -/
theorem foldl_set (hstep : ∀ c, ∀ e ∈ es, ¬ P e → obs (step c e) = obs c)
    (hset : ∀ c, ∀ e ∈ es, P e → obs (step c e) = v) (h : ∃ e ∈ es, P e) (c : σ) :
    obs (es.foldl step c) = v := by
  induction es generalizing c with
  | nil => exact absurd h (by simp)
  | cons e es ih =>
    have hstep' : ∀ c, ∀ e ∈ es, ¬ P e → obs (step c e) = obs c :=
      fun c e he => hstep c e (.tail _ he)
    rw [List.foldl_cons]
    by_cases hes : ∃ e ∈ es, P e
    · exact ih hstep' (fun c e he => hset c e (.tail _ he)) hes _
    · have hnot : ∀ e ∈ es, ¬ P e := fun e he hp => hes ⟨e,he,hp⟩
      rw [foldl_unchanged obs hstep' hnot]
      apply hset c e (.head _)
      obtain ⟨e',he',hp⟩ := h
      cases he' with
      | head => exact hp
      | tail _ he' => exact absurd hp (hnot e' he')

end Folds

section Lookups

variable {ρ ω τ : Type} {t t' : Part} {k : Str} {c : LumineConfig ρ ω}
variable {e : Sigma fun _ : Str => Snapshot τ} {s : Store τ} {name : Str} {d : Snapshot τ}

@[simp] theorem rules_setRules (c : LumineConfig ρ ω) (m : Rules ρ) (t : Part) :
    (c.setRules m t).rules t = m := by
  cases t <;> rfl

theorem rules_setRules_of_ne (h : t' ≠ t) (c : LumineConfig ρ ω) (m : Rules ρ) :
    (c.setRules m t).rules t' = c.rules t' := by
  cases t <;> cases t' <;> first | rfl | exact absurd rfl h

/-- The policy of the rule with this key. -/
def LumineConfig.rule (c : LumineConfig ρ ω) (t : Part) (k : Str) : Option ρ :=
  (c.rules t).lookup k

/-- The entry is about this rule. -/
def IsFor (t : Part) (k : Str) (e : Sigma fun _ : Str => Snapshot τ) : Prop := e.1 = k ∧ e.2.t = t

/-- A change of one rule is not seen at another one. -/
theorem lookup_setRules_of_not {m : Rules ρ} (h : ¬ IsFor t k e)
    (hm : ∀ k, k ≠ e.1 → m.lookup k = (c.rules e.2.t).lookup k) :
    (c.setRules m e.2.t).rule t k = c.rule t k := by
  rw [LumineConfig.rule,LumineConfig.rule]
  by_cases ht : t = e.2.t
  · subst ht
    rw [rules_setRules]
    exact hm k fun hk => h ⟨hk.symm,rfl⟩
  · rw [rules_setRules_of_ne ht]

/-- The rule of the name is recorded as disabled in this section. -/
def Recorded (s : Store τ) (name : Str) (t : Part) (k : Str) (d : Snapshot τ) : Prop :=
  (s.disabled name).lookup k = some d ∧ d.t = t

theorem mem_entries_iff {d : Snapshot τ} :
    (⟨k,d⟩ : Sigma fun _ : Str => Snapshot τ) ∈ (s.disabled name).entries ↔
      (s.disabled name).lookup k = some d :=
  AList.mem_lookup_iff.symm

theorem recorded_of_isFor (he : e ∈ (s.disabled name).entries) (h : IsFor t k e) :
    Recorded s name t k e.2 := by
  obtain ⟨rfl,ht⟩ := h
  exact ⟨mem_entries_iff.mp he,ht⟩

theorem exists_isFor (h : Recorded s name t k d) :
    ∃ e ∈ (s.disabled name).entries, IsFor t k e :=
  ⟨⟨k,d⟩,mem_entries_iff.mpr h.1,rfl,h.2⟩

theorem Recorded.unique {d' : Snapshot τ} (h : Recorded s name t k d)
    (h' : Recorded s name t k d') : d = d' :=
  Option.some.inj (h.1.symm.trans h'.1)

theorem stripDisabled_eq (s : Store τ) (c : LumineConfig ρ ω) (name : Str) :
    stripDisabled s c name = (s.disabled name).entries.foldl
      (fun c e => c.setRules ((c.rules e.2.t).erase e.1) e.2.t) c :=
  ite_foldl _ _ c

theorem lookup_strip_of_not (h : ¬ IsFor t k e) (c : LumineConfig ρ ω) :
    (c.setRules ((c.rules e.2.t).erase e.1) e.2.t).rule t k = c.rule t k :=
  lookup_setRules_of_not h fun _ => AList.lookup_erase_ne

/-- A recorded rule is taken out, the others stay. -/
theorem stripDisabled_recorded (h : Recorded s name t k d) (c : LumineConfig ρ ω) :
    (stripDisabled s c name).rule t k = none := by
  rw [stripDisabled_eq]
  apply foldl_set (fun c : LumineConfig ρ ω => c.rule t k)
    (fun c e _ he => lookup_strip_of_not he c) _ (exists_isFor h)
  rintro c e - ⟨rfl,rfl⟩
  simp only [LumineConfig.rule,rules_setRules,AList.lookup_erase]

theorem stripDisabled_other (h : ∀ d, ¬ Recorded s name t k d) (c : LumineConfig ρ ω) :
    (stripDisabled s c name).rule t k = c.rule t k := by
  rw [stripDisabled_eq]
  exact foldl_unchanged (fun c : LumineConfig ρ ω => c.rule t k)
    (fun c e _ he => lookup_strip_of_not he c)
    (fun e he hfor => h e.2 (recorded_of_isFor he hfor)) c

variable {moshi : Moshi ρ ω τ}

theorem mergeDisabledSnapshots_eq (s : Store τ) (c : LumineConfig ρ ω) (name : Str) :
    mergeDisabledSnapshots moshi s c name =
      (s.disabled name).entries.foldl (restoreRule moshi) c :=
  ite_foldl _ _ c

theorem lookup_restore_of_not (h : ¬ IsFor t k e) (c : LumineConfig ρ ω) :
    (restoreRule moshi c e).rule t k = c.rule t k := by
  rw [restoreRule]
  split
  · exact lookup_setRules_of_not h fun _ => AList.lookup_insert_ne
  · rfl

/-- A recorded rule has the policy of the record, the others stay. -/
theorem mergeDisabledSnapshots_recorded {p : ρ} (h : Recorded s name t k d)
    (hp : moshi.policyFromJson d.p = .ok (some p)) (c : LumineConfig ρ ω) :
    (mergeDisabledSnapshots moshi s c name).rule t k = some p := by
  rw [mergeDisabledSnapshots_eq]
  apply foldl_set (fun c : LumineConfig ρ ω => c.rule t k)
    (fun c e _ he => lookup_restore_of_not he c) _ (exists_isFor h)
  intro c e he hfor
  have hd : d = e.2 := h.unique (recorded_of_isFor he hfor)
  obtain ⟨rfl,rfl⟩ := hfor
  simp only [restoreRule,← hd,hp,LumineConfig.rule,rules_setRules]
  exact AList.lookup_insert _

theorem mergeDisabledSnapshots_other (h : ∀ d, ¬ Recorded s name t k d) (c : LumineConfig ρ ω) :
    (mergeDisabledSnapshots moshi s c name).rule t k = c.rule t k := by
  rw [mergeDisabledSnapshots_eq]
  exact foldl_unchanged (fun c : LumineConfig ρ ω => c.rule t k)
    (fun c e _ he => lookup_restore_of_not he c)
    (fun e he hfor => h e.2 (recorded_of_isFor he hfor)) c

end Lookups

section Invariant

variable {ρ ω τ : Type} {moshi : Moshi ρ ω τ} {assets : Assets ρ ω τ} {s : Store τ} {name : Str}
variable {t : Part} {k : Str} {d : Snapshot τ} {c c' : LumineConfig ρ ω}

/-- The configuration in the file of the name. -/
def fileConfig (moshi : Moshi ρ ω τ) (s : Store τ) (name : Str) : Option (LumineConfig ρ ω) :=
  (s.files name).bind fun text =>
    match moshi.fromJson text with
    | .ok parsed => parsed
    | .error _ => none

/-- Every record was written for a policy. -/
def Written (moshi : Moshi ρ ω τ) (snap : Rules (Snapshot τ)) : Prop :=
  ∀ k d, snap.lookup k = some d → ∃ p, d.p = moshi.policyToJson p

/-- If the name has a file, a configuration was written to it, without the recorded rules. -/
def Clean (moshi : Moshi ρ ω τ) (s : Store τ) (name : Str) : Prop :=
  ∀ text, s.files name = some text → ∃ f, text = moshi.toJson f ∧
    ∀ t k d, Recorded s name t k d → f.rule t k = none

structure Inv (moshi : Moshi ρ ω τ) (s : Store τ) : Prop where
  written : ∀ name, Written moshi (s.disabled name)
  clean : ∀ name, Clean moshi s name

theorem Written.erase {snap : Rules (Snapshot τ)} (h : Written moshi snap) (key : Str) :
    Written moshi (snap.erase key) := by
  intro k d hd
  by_cases hk : k = key
  · rw [hk,AList.lookup_erase] at hd
    cases hd
  · rw [AList.lookup_erase_ne hk] at hd
    exact h k d hd

theorem Written.insert {snap : Rules (Snapshot τ)} (h : Written moshi snap) (key : Str) (t : Part)
    (p : ρ) : Written moshi (snap.insert key ⟨t,moshi.policyToJson p⟩) := by
  intro k d hd
  by_cases hk : k = key
  · rw [hk,AList.lookup_insert] at hd
    cases hd
    exact ⟨p,rfl⟩
  · rw [AList.lookup_insert_ne hk] at hd
    exact h k d hd

@[simp] theorem files_saveConfig (name : Str) (c : LumineConfig ρ ω) (s : Store τ) :
    (saveConfig moshi name c s).files name = some (moshi.toJson (stripDisabled s c name)) :=
  Function.update_self ..

theorem files_saveConfig_of_ne {n : Str} (h : n ≠ name) (c : LumineConfig ρ ω) (s : Store τ) :
    (saveConfig moshi name c s).files n = s.files n :=
  Function.update_of_ne h ..

@[simp] theorem disabled_saveConfig (name : Str) (c : LumineConfig ρ ω) (s : Store τ) :
    (saveConfig moshi name c s).disabled = s.disabled := rfl

@[simp] theorem disabled_putDisabled (s : Store τ) (name : Str) (snap : Rules (Snapshot τ)) :
    (putDisabled s name snap).disabled name = snap :=
  Function.update_self ..

theorem disabled_putDisabled_of_ne {n : Str} (h : n ≠ name) (s : Store τ)
    (snap : Rules (Snapshot τ)) : (putDisabled s name snap).disabled n = s.disabled n :=
  Function.update_of_ne h ..

/-- Saving repairs the file that it writes, so the records of the name may have changed before. -/
theorem Inv.save (h : Inv moshi s) {snap : Rules (Snapshot τ)} (hsnap : Written moshi snap)
    (name : Str) (c : LumineConfig ρ ω) :
    Inv moshi (saveConfig moshi name c (putDisabled s name snap)) where
  written n := by
    rw [disabled_saveConfig]
    by_cases hn : n = name
    · rw [hn,disabled_putDisabled]
      exact hsnap
    · rw [disabled_putDisabled_of_ne hn]
      exact h.written n
  clean n text htext := by
    by_cases hn : n = name
    · subst hn
      rw [files_saveConfig] at htext
      cases htext
      exact ⟨_,rfl,fun t k d hd => stripDisabled_recorded hd c⟩
    · rw [files_saveConfig_of_ne hn] at htext
      obtain ⟨f,hf,hclean⟩ := h.clean n text htext
      refine ⟨f,hf,fun t k d hd => hclean t k d ?_⟩
      rw [Recorded,disabled_saveConfig,disabled_putDisabled_of_ne hn] at hd
      exact hd

theorem putDisabled_self (s : Store τ) (name : Str) : putDisabled s name (s.disabled name) = s := by
  rw [putDisabled,Function.update_eq_self]

theorem Inv.saveConfig (h : Inv moshi s) (name : Str) (c : LumineConfig ρ ω) :
    Inv moshi (saveConfig moshi name c s) := by
  have hsave := h.save (h.written name) name c
  rwa [putDisabled_self] at hsave

theorem Inv.setRuleEnabled (h : Inv moshi s) (name : Str) (c : LumineConfig ρ ω) (key : Str)
    (enabled : Bool) : Inv moshi (setRuleEnabled moshi name c key enabled s) := by
  unfold ConfigRepository.setRuleEnabled
  dsimp only
  split
  · exact h
  split
  · exact h.save ((h.written name).erase key) name c
  split
  · exact h
  · exact h.save ((h.written name).insert key _ _) name c

theorem Inv.deleteRule (h : Inv moshi s) (name : Str) (c : LumineConfig ρ ω) (key : Str) :
    Inv moshi (deleteRule moshi name c key s).2 := by
  unfold ConfigRepository.deleteRule
  dsimp only
  split
  · exact h.save ((h.written name).erase key) name _
  · exact h.saveConfig name _

theorem Inv.deleteConfig (h : Inv moshi s) (name : Str) : Inv moshi (deleteConfig name s) where
  written := h.written
  clean n text htext := by
    by_cases hn : n = name
    · have hnone : (ConfigRepository.deleteConfig name s).files n = none := by
        rw [hn]
        exact Function.update_self ..
      rw [hnone] at htext
      cases htext
    · have hsame : (ConfigRepository.deleteConfig name s).files n = s.files n :=
        Function.update_of_ne hn ..
      exact h.clean n text (hsame.symm.trans htext)

theorem Inv.loadConfig (h : Inv moshi s) (assets : Assets ρ ω τ) (name : Str) :
    Inv moshi (loadConfig moshi assets name s).2 := by
  unfold ConfigRepository.loadConfig
  split
  · split
    · split
      · exact h
      · exact h.saveConfig _ _
    · exact h
  · split <;> exact h

theorem Inv.runOp (h : Inv moshi s) (op : Op ρ ω) : Inv moshi (runOp moshi assets s op) := by
  cases op with
  | saveConfig name c => exact h.saveConfig name c
  | setRuleEnabled name c key enabled => exact h.setRuleEnabled name c key enabled
  | deleteRule name c key => exact h.deleteRule name c key
  | deleteConfig name => exact h.deleteConfig name
  | loadConfig name => exact h.loadConfig assets name

theorem Inv.runOps (h : Inv moshi s) (ops : List (Op ρ ω)) :
    Inv moshi (runOps moshi assets ops s) := by
  induction ops generalizing s with
  | nil => exact h
  | cons op ops ih => exact ih (h.runOp op)

theorem Reachable.inv (h : Reachable moshi assets s) : Inv moshi s := by
  obtain ⟨ops,rfl⟩ := h
  refine Inv.runOps ⟨?_,?_⟩ ops
  · intro name k d hd
    cases hd
  · intro name text htext
    cases htext

end Invariant

section RoundTrip

variable {ρ ω τ : Type} {moshi : Moshi ρ ω τ} {assets : Assets ρ ω τ} {s : Store τ} {name : Str}
variable {t : Part} {k : Str} {d : Snapshot τ} {c f : LumineConfig ρ ω}

/-- The same keys with the same policies in both sections. -/
def SameRules (c c' : LumineConfig ρ ω) : Prop := ∀ t k, c.rule t k = c'.rule t k

/-- The record of a rule, read back. -/
def Records (moshi : Moshi ρ ω τ) (s : Store τ) (name : Str) (t : Part) (k : Str) (p : ρ) : Prop :=
  ∃ d, Recorded s name t k d ∧ moshi.policyFromJson d.p = .ok (some p)

theorem Inv.records (h : Inv moshi s) (hd : Recorded s name t k d) :
    ∃ p, Records moshi s name t k p := by
  obtain ⟨p,hp⟩ := h.written name k d hd.1
  exact ⟨p,d,hd,hp ▸ moshi.policyFromJson_toJson p⟩

/-- What is loaded is what is recorded, and for the other rules what is in the file. -/
structure Loaded (moshi : Moshi ρ ω τ) (s : Store τ) (name : Str) (f c : LumineConfig ρ ω) :
    Prop where
  recorded : ∀ t k p, Records moshi s name t k p → c.rule t k = some p
  other : ∀ t k, (∀ d, ¬ Recorded s name t k d) → c.rule t k = f.rule t k

theorem loaded_merge (moshi : Moshi ρ ω τ) (s : Store τ) (name : Str) (f : LumineConfig ρ ω) :
    Loaded moshi s name f (mergeDisabledSnapshots moshi s f name) where
  recorded _ _ _ h := by
    obtain ⟨d,hd,hp⟩ := h
    exact mergeDisabledSnapshots_recorded hd hp f
  other _ _ h := mergeDisabledSnapshots_other h f

theorem loadConfig_of_fileConfig (h : fileConfig moshi s name = some f) :
    loadConfig moshi assets name s = (some (mergeDisabledSnapshots moshi s f name),s) := by
  rw [fileConfig,Option.bind_eq_some_iff] at h
  obtain ⟨text,htext,h⟩ := h
  rw [loadConfig,htext]
  dsimp only
  cases hjson : moshi.fromJson text with
  | error err => simp [hjson] at h
  | ok parsed =>
    simp only [hjson] at h
    rw [h]

@[simp] theorem fileConfig_saveConfig (name : Str) (c : LumineConfig ρ ω) (s : Store τ) :
    fileConfig moshi (saveConfig moshi name c s) name = some (stripDisabled s c name) := by
  simp only [fileConfig,files_saveConfig,Option.bind_some,moshi.fromJson_toJson]

/-- What is loaded after saving: the saved rules, except where a rule is recorded. -/
theorem loadConfig_saveConfig_loaded (moshi : Moshi ρ ω τ) (assets : Assets ρ ω τ) (name : Str)
    (c : LumineConfig ρ ω) (s : Store τ) :
    ∃ c', loadConfig moshi assets name (saveConfig moshi name c s) =
      (some c',saveConfig moshi name c s) ∧ Loaded moshi s name c c' := by
  refine ⟨_,loadConfig_of_fileConfig (fileConfig_saveConfig name c s),?_,?_⟩
  · exact (loaded_merge moshi s name _).recorded
  · intro t k hk
    have hmerge := (loaded_merge moshi s name (stripDisabled s c name)).other t k hk
    exact hmerge.trans (stripDisabled_other hk c)

theorem Loaded.sameRules_iff {c' : LumineConfig ρ ω} (hs : Inv moshi s)
    (h : Loaded moshi s name c c') :
    SameRules c' c ↔ ∀ t k p, Records moshi s name t k p → c.rule t k = some p := by
  constructor
  · intro hsame t k p hp
    rw [← hsame t k]
    exact h.recorded t k p hp
  · intro hrec t k
    by_cases hk : ∃ d, Recorded s name t k d
    · obtain ⟨d,hd⟩ := hk
      obtain ⟨p,hp⟩ := hs.records hd
      rw [h.recorded t k p hp,hrec t k p hp]
    · exact h.other t k fun d hd => hk ⟨d,hd⟩

theorem Loaded.unique {c' : LumineConfig ρ ω} (hs : Inv moshi s) (h : Loaded moshi s name f c)
    (h' : Loaded moshi s name f c') : SameRules c' c := by
  have hcc : Loaded moshi s name c c' :=
    ⟨h'.recorded,fun t k hk => (h'.other t k hk).trans (h.other t k hk).symm⟩
  exact (hcc.sameRules_iff hs).mpr h.recorded

/-- Saving and loading returns the saved rules exactly when every rule that is recorded as disabled
under the name is one of them, with the policy of the record. -/
theorem loadConfig_saveConfig_iff (h : Reachable moshi assets s) (name : Str)
    (c : LumineConfig ρ ω) :
    (∃ c', (loadConfig moshi assets name (saveConfig moshi name c s)).1 = some c' ∧
      SameRules c' c) ↔ ∀ t k p, Records moshi s name t k p → c.rule t k = some p := by
  obtain ⟨c₁,hload,hc₁⟩ := loadConfig_saveConfig_loaded moshi assets name c s
  rw [hload,← hc₁.sameRules_iff h.inv]
  constructor
  · rintro ⟨c',hc',hsame⟩
    cases hc'
    exact hsame
  · exact fun hsame => ⟨_,rfl,hsame⟩

/-- Adapters that keep the value itself as the text. -/
def valueMoshi (ρ ω : Type) : Moshi ρ ω (LumineConfig ρ ω ⊕ ρ) where
  toJson := .inl
  fromJson
    | .inl c => .ok (some c)
    | .inr _ => .error "not a configuration"
  policyToJson := .inr
  policyFromJson
    | .inl _ => .error "not a policy"
    | .inr p => .ok (some p)
  fromJson_toJson _ := rfl
  policyFromJson_toJson _ := rfl

def emptyAssets (ρ τ : Type) : Assets ρ Unit τ := ⟨none,∅,∅,()⟩

/-- A configuration with one domain rule. -/
def oneRule {ρ : Type} (key : String) (p : ρ) : LumineConfig ρ Unit :=
  ⟨AList.singleton (str key) p,∅,()⟩

/-- The only rule of a new configuration has been disabled. -/
def disabledHistory : List (Op Bool Unit) :=
  [.saveConfig (str "home") (oneRule "a.com" true),
    .setRuleEnabled (str "home") (oneRule "a.com" true) (str "a.com") false]

theorem loadConfig_saveConfig_iff_home :
    let moshi := valueMoshi Bool Unit
    let assets := emptyAssets Bool (LumineConfig Bool Unit ⊕ Bool)
    let s := runOps moshi assets disabledHistory emptyStore
    let c := oneRule "a.com" true
    ∃ c', (loadConfig moshi assets (str "home") (saveConfig moshi (str "home") c s)).1 = some c' ∧
      SameRules c' c := by
  intro moshi assets s c
  refine (loadConfig_saveConfig_iff ⟨disabledHistory,rfl⟩ _ _).mpr ?_
  rintro t k p ⟨d,⟨hd,rfl⟩,hp⟩
  have hsnap : s.disabled (str "home") = AList.insert (str "a.com") ⟨.domain,.inr true⟩ ∅ := rfl
  rw [hsnap] at hd
  by_cases hk : k = str "a.com"
  · rw [hk,AList.lookup_insert] at hd
    cases hd
    cases hp
    rw [hk]
    decide +kernel
  · rw [AList.lookup_insert_ne hk] at hd
    cases hd

/-- An edit of the disabled rule is reverted, and the rule is back after it has been removed or the
configuration has been deleted. -/
theorem loadConfig_saveConfig_stale :
    let moshi := valueMoshi Bool Unit
    let assets := emptyAssets Bool (LumineConfig Bool Unit ⊕ Bool)
    let home := str "home"
    let s := runOps moshi assets disabledHistory emptyStore
    let seen (c : LumineConfig Bool Unit) (s : Store (LumineConfig Bool Unit ⊕ Bool)) :=
      (loadConfig moshi assets home (saveConfig moshi home c s)).1.map
        fun c' => c'.rule .domain (str "a.com")
    seen (oneRule "a.com" false) s = some (some true) ∧
      seen (oneRule "b.com" false) s = some (some true) ∧
      seen (oneRule "b.com" false) (deleteConfig home s) = some (some true) := by
  decide +kernel

end RoundTrip

section Toggle

variable {ρ ω τ : Type} {moshi : Moshi ρ ω τ} {assets : Assets ρ ω τ} {s s₁ : Store τ}
variable {name : Str} {t : Part} {k : Str} {d : Snapshot τ} {c c' f : LumineConfig ρ ω}

theorem setRuleEnabled_absent (h : ∀ t, c.rule t k = none) (enabled : Bool) (s : Store τ) :
    setRuleEnabled moshi name c k enabled s = s := by
  have hdomain : c.domainPolicies.lookup k = none := h .domain
  have hip : c.ipPolicies.lookup k = none := h .ip
  rw [setRuleEnabled]
  dsimp only
  rw [if_pos (by simp [hdomain,hip])]

theorem present_of_rule {p : ρ} (h : c.rule t k = some p) :
    ¬ (¬ (c.domainPolicies.lookup k).isSome ∧ ¬ (c.ipPolicies.lookup k).isSome) := by
  rw [LumineConfig.rule] at h
  cases t with
  | domain =>
    have hdomain : c.domainPolicies.lookup k = some p := h
    simp [hdomain]
  | ip =>
    have hip : c.ipPolicies.lookup k = some p := h
    simp [hip]

theorem setRuleEnabled_enable {p : ρ} (h : c.rule t k = some p) (s : Store τ) :
    setRuleEnabled moshi name c k true s =
      saveConfig moshi name c (putDisabled s name ((s.disabled name).erase k)) := by
  rw [setRuleEnabled]
  dsimp only
  rw [if_neg (present_of_rule h),if_pos rfl]
  rfl

/-- The domain rule is recorded, or else the ip rule. -/
theorem setRuleEnabled_disable {p : ρ} (h : c.rule t k = some p) (moshi : Moshi ρ ω τ)
    (name : Str) (s : Store τ) :
    ∃ t₀ p₀, c.rule t₀ k = some p₀ ∧ setRuleEnabled moshi name c k false s =
      saveConfig moshi name c (putDisabled s name
        ((s.disabled name).insert k ⟨t₀,moshi.policyToJson p₀⟩)) := by
  rw [setRuleEnabled]
  dsimp only
  rw [if_neg (present_of_rule h),if_neg Bool.false_ne_true]
  cases hdomain : c.domainPolicies.lookup k with
  | some p₀ =>
    refine ⟨.domain,p₀,hdomain,?_⟩
    have hrule : (c.rules .domain).lookup k = some p₀ := hdomain
    simp only [Option.isSome_some,if_true,hrule]
    rfl
  | none =>
    cases t with
    | domain => exact absurd (hdomain.symm.trans h) (by simp)
    | ip =>
      refine ⟨.ip,p,h,?_⟩
      have hrule : (c.rules .ip).lookup k = some p := h
      simp only [Option.isSome_none,Bool.false_eq_true,if_false,hrule]
      rfl

theorem Inv.fileConfig_rule (h : Inv moshi s) (hf : fileConfig moshi s name = some f)
    (hd : Recorded s name t k d) : f.rule t k = none := by
  rw [fileConfig,Option.bind_eq_some_iff] at hf
  obtain ⟨text,htext,hf⟩ := hf
  obtain ⟨f',rfl,hclean⟩ := h.clean name text htext
  simp only [moshi.fromJson_toJson,Option.some.injEq] at hf
  exact hf ▸ hclean t k d hd

/-- A name that has been loaded has a file. -/
theorem loadConfig_loaded (h : Inv moshi s) (hload : loadConfig moshi assets name s = (some c,s₁)) :
    ∃ f, fileConfig moshi s₁ name = some f ∧ Loaded moshi s₁ name f c := by
  cases htext : s.files name with
  | some text =>
    obtain ⟨f,rfl,-⟩ := h.clean name text htext
    have hf : fileConfig moshi s name = some f := by
      simp only [fileConfig,htext,Option.bind_some,moshi.fromJson_toJson]
    rw [loadConfig_of_fileConfig hf] at hload
    cases hload
    exact ⟨f,hf,loaded_merge moshi s name f⟩
  | none =>
    rw [loadConfig,htext] at hload
    dsimp only at hload
    split at hload
    · next hname =>
      split at hload
      · cases hload
      · next config _ =>
        cases hload
        rw [hname]
        refine ⟨_,fileConfig_saveConfig _ config s,(loaded_merge moshi _ _ config).recorded,?_⟩
        intro t k hk
        have hstrip := stripDisabled_other (s := s) hk config
        exact (mergeDisabledSnapshots_other hk config).trans hstrip.symm
    · cases hload

/-- Disabling records the rule and changes nothing in what is loaded. -/
theorem Loaded.disable {p₀ : ρ} (h : Inv moshi s) (hc : Loaded moshi s name f c)
    (ht : c.rule t k = some p₀)
    (hc' : Loaded moshi (putDisabled s name ((s.disabled name).insert k
      ⟨t,moshi.policyToJson p₀⟩)) name c c') : SameRules c' c := by
  have hs := h.save ((h.written name).insert k t p₀) name c
  refine (Loaded.sameRules_iff hs ⟨hc'.recorded,hc'.other⟩).mpr ?_
  rintro t' k' p ⟨d,⟨hd,rfl⟩,hp⟩
  rw [disabled_saveConfig,disabled_putDisabled] at hd
  by_cases hk : k' = k
  · rw [hk,AList.lookup_insert] at hd
    cases hd
    rw [moshi.policyFromJson_toJson] at hp
    cases hp
    rw [hk,ht]
  · rw [AList.lookup_insert_ne hk] at hd
    exact hc.recorded _ k' p ⟨d,⟨hd,rfl⟩,hp⟩

/-- A rule that was not recorded is recorded and removed again: the records are as they were. -/
theorem lookup_erase_insert {snap : Rules (Snapshot τ)} (hk : snap.lookup k = none) (k' : Str) :
    ((snap.insert k d).erase k).lookup k' = snap.lookup k' := by
  by_cases hk' : k' = k
  · rw [hk',AList.lookup_erase,hk]
  · rw [AList.lookup_erase_ne hk',AList.lookup_insert_ne hk']

/-- With the same records, a configuration that agrees with what was loaded gives the same file. -/
theorem Loaded.sameRules_strip (h : Inv moshi s) (hf : fileConfig moshi s name = some f)
    (hc : Loaded moshi s name f c) (hsame : SameRules c' c)
    (hdis : ∀ k, (s₁.disabled name).lookup k = (s.disabled name).lookup k) :
    SameRules (stripDisabled s₁ c' name) f := by
  intro t k
  have hiff : ∀ d, Recorded s₁ name t k d ↔ Recorded s name t k d := by
    intro d
    rw [Recorded,Recorded,hdis k]
  by_cases hk : ∃ d, Recorded s name t k d
  · obtain ⟨d,hd⟩ := hk
    rw [stripDisabled_recorded ((hiff d).mpr hd),h.fileConfig_rule hf hd]
  · have hnot : ∀ d, ¬ Recorded s name t k d := fun d hd => hk ⟨d,hd⟩
    rw [stripDisabled_other fun d hd => hnot d ((hiff d).mp hd),hsame t k,hc.other t k hnot]

/-- Disabling, loading and enabling a rule of the configuration that was loaded. -/
theorem setRuleEnabled_restores {p : ρ} (h : Inv moshi s) (hf : fileConfig moshi s name = some f)
    (hc : Loaded moshi s name f c) (hk : (s.disabled name).lookup k = none)
    (hp : c.rule t k = some p) :
    ∃ c' s₁, loadConfig moshi assets name (setRuleEnabled moshi name c k false s) = (some c',s₁) ∧
      ∃ f', fileConfig moshi (setRuleEnabled moshi name c' k true s₁) name = some f' ∧
        SameRules f' f := by
  obtain ⟨t₀,p₀,hp₀,hdisable⟩ := setRuleEnabled_disable hp moshi name s
  obtain ⟨c',hload,hc'⟩ := loadConfig_saveConfig_loaded moshi assets name c
    (putDisabled s name ((s.disabled name).insert k ⟨t₀,moshi.policyToJson p₀⟩))
  have hsame := hc.disable h hp₀ hc'
  rw [hdisable]
  refine ⟨c',_,hload,?_⟩
  rw [setRuleEnabled_enable ((hsame t k).trans hp)]
  refine ⟨_,fileConfig_saveConfig .., ?_⟩
  refine hc.sameRules_strip h hf hsame fun k' => ?_
  rw [disabled_putDisabled,disabled_saveConfig,disabled_putDisabled]
  exact lookup_erase_insert hk k'

theorem Loaded.congr (hc : Loaded moshi s name f c) (hsame : SameRules c' c) :
    Loaded moshi s name f c' where
  recorded t k p hp := (hsame t k).trans (hc.recorded t k p hp)
  other t k hk := (hsame t k).trans (hc.other t k hk)

/-- No file has a rule that is recorded as disabled, whatever has been done before; and disabling a
rule of the current configuration, loading and enabling it leaves the rules of the file as they
were. -/
theorem disabled_hidden_and_restored (h : Reachable moshi assets s) :
    (∀ name f, fileConfig moshi s name = some f →
      ∀ t k d, Recorded s name t k d → f.rule t k = none) ∧
    ∀ name current c s₁ k, loadConfig moshi assets name s = (some current,s₁) →
      SameRules c current → (s₁.disabled name).lookup k = none →
      ∃ f, fileConfig moshi s₁ name = some f ∧
        ∃ c' s₂, loadConfig moshi assets name (setRuleEnabled moshi name c k false s₁) =
          (some c',s₂) ∧
        ∃ f', fileConfig moshi (setRuleEnabled moshi name c' k true s₂) name = some f' ∧
          SameRules f' f := by
  refine ⟨fun name f hf t k d hd => h.inv.fileConfig_rule hf hd,?_⟩
  intro name current c s₁ k hload hcurrent hk
  have hinv : Inv moshi s₁ := by
    have hload' := h.inv.loadConfig assets name
    rwa [hload] at hload'
  obtain ⟨f,hf,hloaded⟩ := loadConfig_loaded h.inv hload
  have hc := hloaded.congr hcurrent
  refine ⟨f,hf,?_⟩
  by_cases habsent : ∀ t, c.rule t k = none
  · have hc' := loaded_merge moshi s₁ name f
    rw [setRuleEnabled_absent habsent,loadConfig_of_fileConfig hf]
    refine ⟨_,s₁,rfl,f,?_,fun _ _ => rfl⟩
    rw [setRuleEnabled_absent fun t => (hc.unique hinv hc' t k).trans (habsent t),hf]
  · obtain ⟨t,ht⟩ := not_forall.mp habsent
    obtain ⟨p,hp⟩ := Option.ne_none_iff_exists'.mp ht
    exact setRuleEnabled_restores hinv hf hc hk hp

theorem disabled_hidden_and_restored_home :
    let moshi := valueMoshi Bool Unit
    let assets := emptyAssets Bool (LumineConfig Bool Unit ⊕ Bool)
    let home := str "home"
    let c := oneRule "a.com" true
    let s := runOps moshi assets [.saveConfig home c] emptyStore
    ∃ f, fileConfig moshi s home = some f ∧
      ∃ c' s₂, loadConfig moshi assets home (setRuleEnabled moshi home c (str "a.com") false s) =
        (some c',s₂) ∧
      ∃ f', fileConfig moshi (setRuleEnabled moshi home c' (str "a.com") true s₂) home = some f' ∧
        SameRules f' f := by
  intro moshi assets home c s
  have hreach : Reachable moshi assets s := ⟨[.saveConfig home c],rfl⟩
  exact (disabled_hidden_and_restored hreach).2 home c c s (str "a.com") rfl (fun _ _ => rfl) rfl

/-- The rule is in the file after it has been disabled a second time and enabled, and a rule that
was deleted is in the file after the configuration loaded before has been used again. -/
theorem disabled_not_restored :
    let moshi := valueMoshi Bool Unit
    let assets := emptyAssets Bool (LumineConfig Bool Unit ⊕ Bool)
    let home := str "home"
    let seen (key : String) (s : Store (LumineConfig Bool Unit ⊕ Bool)) :=
      (fileConfig moshi s home).map fun f => f.rule .domain (str key)
    let toggled (c : LumineConfig Bool Unit) (s : Store (LumineConfig Bool Unit ⊕ Bool)) :=
      let loaded := loadConfig moshi assets home (setRuleEnabled moshi home c (str "a.com") false s)
      loaded.1.map fun c' => setRuleEnabled moshi home c' (str "a.com") true loaded.2
    let s := runOps moshi assets disabledHistory emptyStore
    let two : LumineConfig Bool Unit :=
      ⟨(AList.singleton (str "a.com") true).insert (str "b.com") true,∅,()⟩
    let s' := runOps moshi assets [.saveConfig home two,.deleteRule home two (str "b.com")]
      emptyStore
    (seen "a.com" s = some none ∧ ((loadConfig moshi assets home s).1.bind fun c => toggled c s).map
      (seen "a.com") = some (some (some true))) ∧
    (seen "b.com" s' = some none ∧ (toggled two s').map (seen "b.com") =
      some (some (some true))) := by
  decide +kernel

end Toggle

end ConfigRepository
end Enimul
