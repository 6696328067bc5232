import Enimul.FirstFree
import Enimul.RuleEditor
import Enimul.StartLumine
import Mathlib.Data.List.DropRight

/-! The names of new configurations.
The app makes the name of a configuration out of what the user calls it and puts a number behind it
if the name is taken. The core accepts names over a small alphabet only, and checks them in another
language. -/
namespace Enimul
namespace ConfigName

open GoSlice GoText NetIP ConfigRepository StartLumine

section Files

/-- `File.nameWithoutExtension`: what is before the last dot. -/
def nameWithoutExtension (name : Str) : Str :=
  if (46 : UInt8) ∈ name then (name.rdropWhile fun b => b ≠ 46).dropLast else name

/-- The names of the configurations, of which only the set is used here. `files` has the names of
the files of the app, if they can be listed. -/
def listConfigs (files : Option (List Str)) : List Str :=
  ((files.getD []).filter fun name => str ".json" <:+ name).map nameWithoutExtension

theorem nameWithoutExtension_json (name : Str) :
    nameWithoutExtension (name++str ".json") = name := by
  have hmem : (46 : UInt8) ∈ name++str ".json" := by simp [str]
  have hdrop : (name++str ".json").rdropWhile (fun b => b ≠ 46) = name++[46] := by
    simp [List.rdropWhile,str]
  rw [nameWithoutExtension,if_pos hmem,hdrop,List.dropLast_concat]

/-- A name that is not listed has no file. -/
theorem file_notMem {files : List Str} {name : Str} (h : name ∉ listConfigs (some files)) :
    name++str ".json" ∉ files := by
  intro hmem
  apply h
  rw [listConfigs,List.mem_map]
  refine ⟨name++str ".json",?_,nameWithoutExtension_json name⟩
  simpa using hmem

end Files

section Generate

/-- The characters of the class `[a-z0-9_-]`. A character beyond ASCII has no byte among them. -/
def isNameByte (c : UInt8) : Bool :=
  (97 ≤ c ∧ c ≤ 122) ∨ (48 ≤ c ∧ c ≤ 57) ∨ c = 95 ∨ c = 45

/-- Replace every longest sequence of other characters by "_"; `inRun` says that the sequence has
begun already. -/
def replaceFrom (inRun : Bool) : Str → Str
  | [] => []
  | c::rest =>
    if isNameByte c then c::replaceFrom false rest
    else if inRun then replaceFrom true rest
    else 95::replaceFrom true rest

/-- `replace(Regex("[^a-z0-9_-]+"), "_")`. -/
def replaceOthers (s : Str) : Str := replaceFrom false s

/-- `trim('_')`. -/
def trimUnderscores (s : Str) : Str :=
  (s.dropWhile fun b => b = 95).rdropWhile fun b => b = 95

/-- `lowercase()` is `toLower` here: letters beyond ASCII are mapped by the tables of Unicode, of
which nothing is used. -/
def baseName (mapLower : Str → Str) (displayName : Str) : Str :=
  let base := trimUnderscores (replaceOthers (toLower mapLower (RuleEditor.trim displayName)))
  if RuleEditor.isBlank base then str "subscription" else base

def candidate (base : Str) (index : ℕ) : Str := base++95::DoHDial.formatInt index

theorem candidate_injective (base : Str) : (candidate base).Injective := by
  intro i j h
  apply DoHDial.formatInt_natCast_inj.mp
  simpa [candidate] using h

/-- `existing` is the set of `listConfigs()`. The loop counts from 2. -/
def generateConfigName (mapLower : Str → Str) (displayName : Str) (existing : Finset Str) : Str :=
  let base := baseName mapLower displayName
  if base ∉ existing then base
  else candidate base (FirstFree.search (candidate base) (candidate_injective base) existing 2)

variable (mapLower : Str → Str) (displayName : Str) (existing : Finset Str)

theorem generateConfigName_notMem :
    generateConfigName mapLower displayName existing ∉ existing := by
  rw [generateConfigName]
  split
  · assumption
  · exact FirstFree.search_notMem _ _ _

/-- The number behind the base is at most one more than there are names, so that an `Int` does for
as many names as a directory of the app can list. -/
theorem generateConfigName_cases :
    generateConfigName mapLower displayName existing = baseName mapLower displayName ∨
    ∃ index, 2 ≤ index ∧ index ≤ existing.card+1 ∧
      generateConfigName mapLower displayName existing =
        candidate (baseName mapLower displayName) index := by
  rw [generateConfigName]
  split
  · exact Or.inl rfl
  · rename_i htaken
    rw [not_not] at htaken
    refine Or.inr ⟨_,FirstFree.le_search _ _ _,?_,rfl⟩
    generalize baseName mapLower displayName = base at htaken ⊢
    -- the base itself is not among the names that are tried
    have hin (j : ℕ) (hj : candidate base j ∈ existing) :
        candidate base j ∈ existing.erase base :=
      Finset.mem_erase.mpr ⟨by simp [candidate],hj⟩
    have hbound := FirstFree.search_le (candidate_injective base) hin 2
    have hcard := Finset.card_erase_add_one htaken
    omega

end Generate

section Safe

/-- The name is not empty and has characters of the class only. -/
structure IsName (s : Str) : Prop where
  ne_nil : s ≠ []
  bytes : ∀ c ∈ s, isNameByte c = true

theorem isSafeConfigName_of_isName {s : Str} (h : IsName s) : isSafeConfigName s = true := by
  rw [isSafeConfigName,decide_eq_true_eq]
  refine ⟨h.ne_nil,List.all_eq_true.mpr ?_⟩
  intro c hc
  have hbyte := h.bytes c hc
  simp only [isNameByte,decide_eq_true_eq] at hbyte ⊢
  exact Or.inr hbyte

theorem isNameByte_replaceFrom (inRun : Bool) (s : Str) :
    ∀ c ∈ replaceFrom inRun s, isNameByte c = true := by
  induction s generalizing inRun with
  | nil => simp [replaceFrom]
  | cons b s ih =>
    intro c hc
    rw [replaceFrom] at hc
    split at hc
    · rename_i hb
      rcases List.mem_cons.mp hc with rfl | hc
      · exact hb
      · exact ih _ c hc
    · split at hc
      · exact ih _ c hc
      · rcases List.mem_cons.mp hc with rfl | hc
        · decide
        · exact ih _ c hc

theorem trimUnderscores_subset (s : Str) : trimUnderscores s ⊆ s :=
  fun _ hc => (List.dropWhile_suffix _).subset ((List.rdropWhile_prefix _ _).subset hc)

theorem isName_baseName (mapLower : Str → Str) (displayName : Str) :
    IsName (baseName mapLower displayName) := by
  rw [baseName]
  split
  · exact ⟨by simp [str],by simp [str,isNameByte]⟩
  · rename_i hblank
    constructor
    · intro hnil
      rw [hnil] at hblank
      exact hblank (by decide)
    · intro c hc
      exact isNameByte_replaceFrom false _ c (trimUnderscores_subset _ hc)

theorem isNameByte_of_isDigit {c : UInt8} (h : isDigit c = true) : isNameByte c = true := by
  simp only [isDigit,isNameByte,decide_eq_true_eq] at h ⊢
  exact Or.inr (Or.inl h)

theorem IsName.candidate {base : Str} (h : IsName base) (index : ℕ) :
    IsName (candidate base index) := by
  constructor
  · simp [ConfigName.candidate]
  · intro c hc
    rcases List.mem_append.mp hc with hc | hc
    · exact h.bytes c hc
    · rcases List.mem_cons.mp hc with rfl | hc
      · decide
      · exact isNameByte_of_isDigit (DoHDial.isDigit_formatInt hc)

theorem isName_generateConfigName (mapLower : Str → Str) (displayName : Str)
    (existing : Finset Str) : IsName (generateConfigName mapLower displayName existing) := by
  have hbase := isName_baseName mapLower displayName
  rcases generateConfigName_cases mapLower displayName existing with h | ⟨index,-,-,h⟩
  · rwa [h]
  · rw [h]
    exact hbase.candidate index

/-- A new configuration gets a file of its own, whatever files there are. -/
theorem generateConfigName_file (mapLower : Str → Str) (displayName : Str) (files : List Str) :
    generateConfigName mapLower displayName (listConfigs (some files)).toFinset++str ".json" ∉
      files := by
  apply file_notMem
  rw [← List.mem_toFinset]
  exact generateConfigName_notMem _ _ _

/-- The name of a new configuration is free and safe. Saving under it leaves the configurations
that exist as they are, and the core does not refuse to start with it. -/
theorem generateConfigName_fresh_safe (mapLower : Str → Str) (displayName : Str)
    (existing : Finset Str) :
    ∃ name, generateConfigName mapLower displayName existing = name ∧ name ∉ existing ∧
      isSafeConfigName name = true ∧
      (∀ (ρ ω τ : Type) (moshi : Moshi ρ ω τ) (config : LumineConfig ρ ω) (s : Store τ),
        ∀ other ∈ existing, (saveConfig moshi name config s).files other = s.files other) ∧
      ∀ (env : Env) (fd : ℤ) (s : State), startLumine env fd name s =
        if s.workingDir = [] then (.error "working directory not set",s.count)
        else if s.isRunning then (.ok (),s.count) else launch env fd name s.count := by
  have hfree := generateConfigName_notMem mapLower displayName existing
  have hsafe := isSafeConfigName_of_isName (isName_generateConfigName mapLower displayName existing)
  refine ⟨_,rfl,hfree,hsafe,?_,?_⟩
  · intro ρ ω τ moshi config s other hother
    apply Function.update_of_ne
    rintro rfl
    exact hfree hother
  · intro env fd s
    simp [startLumine,hsafe]

example : baseName id (str "  My Config (2) ") = str "my_config_2" := by decide

end Safe

end ConfigName
end Enimul
