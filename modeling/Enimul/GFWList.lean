import Enimul.LetterCase
import Enimul.MostSpecific
import Enimul.PlanPolicy

/-! The built-in GFW list.
The list is a text of rules in base64. The host of a rule becomes a pattern for the host and
the names below it; rules with two at signs in front go to a table of exceptions. -/
namespace Enimul
namespace GFWList

open GoSlice GoText NetIP DomainMatcher PathLookup PlanRequest

/-- `strings.TrimLeft` for characters of ASCII. -/
def trimLeft (cutset s : Str) : Str := s.dropWhile fun c => contains cutset c

def trim (cutset s : Str) : Str := (trimLeft cutset (trimLeft cutset s).reverse).reverse

/-- The text without white space. Bytes that are not UTF-8 stay as they are; no such byte
is a digit of base64. -/
def removeSpaces : ℕ → Str → Str
  | 0, _ => []
  | rounds+1, s =>
    match s with
    | [] => []
    | c::rest =>
      match spaces.find? fun q => hasPrefix s q with
      | some q => removeSpaces rounds (s.drop q.length)
      | none => c::removeSpaces rounds rest

def base64Digit (c : UInt8) : Option ℕ :=
  if 65 ≤ c ∧ c ≤ 90 then some (c.toNat-65)
  else if 97 ≤ c ∧ c ≤ 122 then some (c.toNat-97+26)
  else if 48 ≤ c ∧ c ≤ 57 then some (c.toNat-48+52)
  else if c = 43 then some 62
  else if c = 47 then some 63
  else none

/-- `base64.StdEncoding.DecodeString` for a text without line breaks, none for an error. The
bits that padding leaves over are not checked. -/
def decodeString : Str → Option Bytes
  | [] => some []
  | [a,b,61,61] => do
    let n := (← base64Digit a)*64+(← base64Digit b)
    return [UInt8.ofNat (n/16)]
  | [a,b,c,61] => do
    let n := ((← base64Digit a)*64+(← base64Digit b))*64+(← base64Digit c)
    return [UInt8.ofNat (n/1024),UInt8.ofNat (n/4)]
  | a::b::c::d::rest => do
    let n := (((← base64Digit a)*64+(← base64Digit b))*64+(← base64Digit c))*64+(← base64Digit d)
    return [UInt8.ofNat (n/65536),UInt8.ofNat (n/256),UInt8.ofNat n]++(← decodeString rest)
  | _ => none

/-- What the code asks of the packages `net/url`, `regexp` and `strings`: the host of a URL,
none if it does not parse, the first match of the host expression, and the lower case of
texts beyond ASCII. -/
structure Libs where
  urlHost : Str → Option Str
  findString : Str → Str
  mapLower : Str → Str

section Parse

variable (libs : Libs)

def urlPart (rule : Str) : Str :=
  if str "://" <:+: rule then
    match libs.urlHost rule with
    | none => rule
    | some host => if host = [] then rule else host
  else rule

/-- The rule without a port. -/
def hostPart (rule : Str) : Str :=
  match splitHostPort rule with
  | some (host,_) => host
  | none => rule

def extractGFWListHost (rule : Str) : Option Str :=
  let rule := trimSpace rule
  if rule = [] then none
  else
    let rule := trimLeft (str "|.") (rule.takeWhile fun c => ¬ contains (str "^$") c)
    if rule = [] then none
    else
      let rule := hostPart (trim (str "*./") (urlPart libs rule))
      let found := libs.findString (toLower libs.mapLower rule)
      if found = [] ∨ isIPLiteral found then none else some (trim (str ".") found)

def normalizeGFWListRule (rule : Str) : Option Str :=
  let rule := trimSpace rule
  if rule = [] ∨ hasPrefix rule (str "/") ∨ hasPrefix rule (str "||^") then none
  else (extractGFWListHost libs rule).map fun host => str "*"++host

/-- The patterns for blocked names and those for exceptions. -/
abbrev Sets := List Str × List Str

/-- The body of the loop over the lines. -/
def addLine (sets : Sets) (line : Str) : Sets :=
  let line := trimSpace line
  if line = [] ∨ hasPrefix line (str "!") ∨ hasPrefix line (str "[") then sets
  else if hasPrefix line (str "@@") then
    match normalizeGFWListRule libs (line.drop 2) with
    | none => sets
    | some pattern => (sets.1,sets.2.insert pattern)
  else
    match normalizeGFWListRule libs line with
    | none => sets
    | some pattern => (sets.1.insert pattern,sets.2)

def mapKeysSorted (m : List Str) : List Str := m.mergeSort fun a b => a ≤ b

/-- The text of the list, none if it is not base64. -/
def decodeList (raw : Str) : Option Str := decodeString (removeSpaces raw.length raw)

def parseEmbeddedGFWList (raw : Str) : Except String Sets :=
  match decodeList raw with
  | none => .error "decode embedded gfwlist"
  | some decoded =>
    let sets := (decoded.splitOn 10).foldl (addLine libs) ([],[])
    .ok (mapKeysSorted sets.1,mapKeysSorted sets.2)

def addPatterns (patterns : List Str) : Except String (Matcher Unit) :=
  patterns.foldlM (fun m pattern => add m pattern ()) newDomainMatcher

/-- The two matchers that are set when the list is loaded. -/
def loadBuiltinGFWList (raw : Str) : Except String (Matcher Unit × Matcher Unit) := do
  let (blocked,bypass) ← parseEmbeddedGFWList libs raw
  let gfwDomainMatcher ← addPatterns blocked
  let gfwBypassMatcher ← addPatterns bypass
  return (gfwDomainMatcher,gfwBypassMatcher)

end Parse

section Table

variable {d : Str}

/-- The name is the host or stands below it. -/
def Covers (host d : Str) : Prop := d = host ∨ ∃ x, d = x++46::host

/-- A pattern of the list: a star in front of a host. -/
def IsPattern (pattern : Str) : Prop :=
  ∃ host, pattern = str "*"++host ∧ OverLabels host ∧ contains host 46 = true

theorem star_eq_iff {host host' : Str} : str "*"++host = str "*"++host' ↔ host = host' :=
  iff_of_eq (List.append_cancel_left_eq _ _ _)

theorem contains_star {host : Str} (hdot : contains host 46 = true) :
    contains (str "*"++host) 46 = true := by
  simp only [contains,List.any_append] at hdot ⊢
  rw [hdot,Bool.or_true]

theorem names_star {host : Str} (hdot : contains host 46 = true) :
    names d (str "*"++host) = true ↔ d = host := by
  have hstar : ¬ (str "*"++host = d ∧ hasPrefix d (str "*") = false) := by
    rintro ⟨rfl,hpre⟩
    cases (hasPrefix_star.mpr ⟨host,rfl⟩).symm.trans hpre
  simp only [names,contains_star hdot,Bool.true_and,Bool.or_eq_true,decide_eq_true_eq,
    Bool.and_eq_true,Bool.not_eq_true',hstar,or_false,star_eq_iff]
  exact eq_comm

theorem namesBelow_star {s host : Str} (hhost : OverLabels host) (hdot : contains host 46 = true) :
    namesBelow s (str "*"++host) = true ↔ s = host := by
  have hne : ¬ str "*"++host = str "*."++s := by
    intro heq
    have hcut : host = 46::s := star_eq_iff.mp heq
    exact OverLabels.not_dot s (hcut ▸ hhost)
  simp only [namesBelow,contains_star hdot,Bool.true_and,Bool.or_eq_true,decide_eq_true_eq,hne,
    false_or,star_eq_iff]
  exact eq_comm

theorem mostSpecific_eq_none {log : List (Str × Unit)} : mostSpecific log d = none ↔
    ∀ e ∈ log, names d e.1 = false ∧ (∀ s ∈ properSuffixes d, namesBelow s e.1 = false) ∧
      e.1 ≠ str "*" := by
  simp only [mostSpecific,Option.or_eq_none_iff,List.findSome?_eq_none_iff,latest_eq_none,
    decide_eq_false_iff_not]
  constructor
  · intro h e he
    exact ⟨h.1 e he,fun s hs => h.2.1 s hs e he,h.2.2 e he⟩
  · intro h
    exact ⟨fun e he => (h e he).1,fun s hs e he => (h e he).2.1 s hs,fun e he => (h e he).2.2⟩

theorem covers_iff {host : Str} (hhost : OverLabels host) (hdot : contains host 46 = true) :
    Covers host d ↔ ¬ (names d (str "*"++host) = false ∧
      (∀ s ∈ properSuffixes d, namesBelow s (str "*"++host) = false) ∧
      str "*"++host ≠ str "*") := by
  have hroot : str "*"++host ≠ str "*" := fun h => hhost.ne_nil (List.append_right_eq_self.mp h)
  have hnames : names d (str "*"++host) = false ↔ d ≠ host := by
    rw [← Bool.not_eq_true,names_star hdot]
  have hbelow : (∀ s ∈ properSuffixes d, namesBelow s (str "*"++host) = false) ↔
      ¬ ∃ x, d = x++46::host := by
    rw [← mem_properSuffixes]
    constructor
    · intro h hmem
      have hfalse := h host hmem
      rw [(namesBelow_star hhost hdot).mpr rfl] at hfalse
      cases hfalse
    · intro h s hs
      rw [← Bool.not_eq_true,namesBelow_star hhost hdot]
      rintro rfl
      exact h hs
  rw [hnames,hbelow,and_iff_left hroot,← not_or,not_not]
  exact Iff.rfl

/-- A name is found under the patterns whose host it is or stands below. -/
theorem find_isSome {log : List (Str × Unit)} (hlog : ∀ e ∈ log, IsPattern e.1)
    (hd : OverLabels d) : (find (addAll log) d).isSome = true ↔
      ∃ e ∈ log, ∃ host, e.1 = str "*"++host ∧ Covers host d := by
  have hover : ∀ e ∈ log, OverLabels e.1 := by
    intro e he
    obtain ⟨host,hpattern,hhost,-⟩ := hlog e he
    exact hpattern ▸ hhost.cons (by decide)
  rw [find_addAll hover hd,Option.isSome_iff_ne_none,Ne,mostSpecific_eq_none]
  simp only [not_forall,exists_prop]
  constructor
  · rintro ⟨e,he,hnamed⟩
    obtain ⟨host,hpattern,hhost,hdot⟩ := hlog e he
    rw [hpattern,← covers_iff hhost hdot] at hnamed
    exact ⟨e,he,host,hpattern,hnamed⟩
  · rintro ⟨e,he,host,hpattern,hcovers⟩
    obtain ⟨host',hpattern',hhost,hdot⟩ := hlog e he
    obtain rfl := star_eq_iff.mp (hpattern.symm.trans hpattern')
    refine ⟨e,he,?_⟩
    rwa [hpattern,← covers_iff hhost hdot]

theorem add_of_dot {pattern : Str} (hdot : contains pattern 46 = true) (m : Matcher Unit) :
    add m pattern () = .ok (addOrSkip m (pattern,())) := by
  rw [addOrSkip,add]
  split_ifs <;> rfl

theorem addPatterns_eq {patterns : List Str} (h : ∀ pattern ∈ patterns, IsPattern pattern) :
    addPatterns patterns = .ok (addAll (patterns.map fun pattern => (pattern,()))) := by
  have hfold : ∀ (ps : List Str) (m : Matcher Unit), (∀ pattern ∈ ps, IsPattern pattern) →
      ps.foldlM (fun m pattern => add m pattern ()) m =
        .ok ((ps.map fun pattern => (pattern,())).foldl addOrSkip m) := by
    intro ps
    induction ps with
    | nil => exact fun m _ => rfl
    | cons pattern ps ih =>
      intro m hps
      obtain ⟨host,rfl,-,hdot⟩ := hps pattern List.mem_cons_self
      rw [List.foldlM_cons,add_of_dot (contains_star hdot)]
      exact ih _ fun p hp => hps p (List.mem_cons_of_mem _ hp)
  exact hfold patterns newDomainMatcher h

end Table

section Lines

variable {libs : Libs} {rule line pattern : Str}

/-- A rule with a separator behind the two bars has no host. -/
theorem extractGFWListHost_bars (h : hasPrefix (trimSpace rule) (str "||^") = true) :
    extractGFWListHost libs rule = none := by
  obtain ⟨rest,hrest⟩ := List.isPrefixOf_iff_prefix.mp h
  unfold extractGFWListHost
  dsimp only
  rw [← hrest]
  rfl

/-- A rule that is no regular expression gives the pattern of its host. -/
theorem normalizeGFWListRule_eq_some : normalizeGFWListRule libs rule = some pattern ↔
    hasPrefix (trimSpace rule) (str "/") = false ∧
      ∃ host, extractGFWListHost libs rule = some host ∧ pattern = str "*"++host := by
  have htrim : extractGFWListHost libs (trimSpace rule) = extractGFWListHost libs rule := by
    rw [extractGFWListHost,extractGFWListHost,trimSpace_trimSpace]
  unfold normalizeGFWListRule
  dsimp only
  rw [htrim]
  split
  · rename_i hskip
    refine ⟨fun h => (by cases h),?_⟩
    rintro ⟨hslash,host,hhost,-⟩
    rcases hskip with hnil | hpre | hbars
    · simp [extractGFWListHost,hnil] at hhost
    · rw [hslash] at hpre
      cases hpre
    · rw [extractGFWListHost_bars hbars] at hhost
      cases hhost
  · rename_i hkeep
    simp only [not_or,Bool.not_eq_true] at hkeep
    simp [hkeep.2.1,eq_comm]

/-- The line blocks the host. -/
def Blocks (libs : Libs) (line host : Str) : Prop :=
  hasPrefix line (str "!") = false ∧ hasPrefix line (str "[") = false ∧
    hasPrefix line (str "@@") = false ∧ hasPrefix line (str "/") = false ∧
    extractGFWListHost libs line = some host

/-- The line makes an exception for the host. -/
def Exempts (libs : Libs) (line host : Str) : Prop :=
  hasPrefix line (str "@@") = true ∧ hasPrefix (trimSpace (line.drop 2)) (str "/") = false ∧
    extractGFWListHost libs (line.drop 2) = some host

theorem blocks_iff (hline : hasPrefix line (str "!") = false ∧ hasPrefix line (str "[") = false)
    (hat : hasPrefix line (str "@@") = false) (hclean : trimSpace line = line) :
    (∃ host, Blocks libs line host ∧ pattern = str "*"++host) ↔
      normalizeGFWListRule libs line = some pattern := by
  rw [normalizeGFWListRule_eq_some,hclean]
  simp only [Blocks,hline.1,hline.2,hat,true_and,and_assoc,exists_and_left]

theorem exempts_iff (hat : hasPrefix line (str "@@") = true) :
    (∃ host, Exempts libs line host ∧ pattern = str "*"++host) ↔
      normalizeGFWListRule libs (line.drop 2) = some pattern := by
  rw [normalizeGFWListRule_eq_some]
  simp only [Exempts,hat,true_and,and_assoc,exists_and_left]

theorem not_exempts (h : line = [] ∨ hasPrefix line (str "!") = true ∨
    hasPrefix line (str "[") = true) (host : Str) : ¬ Exempts libs line host := by
  rintro ⟨hat,-⟩
  obtain ⟨rest,rfl⟩ := List.isPrefixOf_iff_prefix.mp hat
  rcases h with h | h | h <;> cases h

theorem not_blocks (h : line = [] ∨ hasPrefix line (str "!") = true ∨
    hasPrefix line (str "[") = true) (host : Str) : ¬ Blocks libs line host := by
  rintro ⟨hbang,hbracket,-,-,hhost⟩
  rcases h with rfl | h | h
  · cases hhost
  · rw [hbang] at h
    cases h
  · rw [hbracket] at h
    cases h

/-- A line adds the patterns of the hosts that it blocks or exempts. -/
theorem mem_addLine (sets : Sets) :
    (pattern ∈ (addLine libs sets line).1 ↔ pattern ∈ sets.1 ∨
      ∃ host, Blocks libs (trimSpace line) host ∧ pattern = str "*"++host) ∧
    (pattern ∈ (addLine libs sets line).2 ↔ pattern ∈ sets.2 ∨
      ∃ host, Exempts libs (trimSpace line) host ∧ pattern = str "*"++host) := by
  have hclean := trimSpace_trimSpace line
  unfold addLine
  dsimp only
  generalize trimSpace line = line at hclean ⊢
  split
  · rename_i hskip
    simp [not_blocks hskip,not_exempts hskip]
  · rename_i hkeep
    simp only [not_or,Bool.not_eq_true] at hkeep
    split
    · rename_i hat
      have hblocks (host : Str) : ¬ Blocks libs line host := by
        rintro ⟨-,-,hnot,-⟩
        rw [hat] at hnot
        cases hnot
      rw [exempts_iff hat]
      cases hrule : normalizeGFWListRule libs (line.drop 2) with
      | none => simp [hblocks]
      | some found => simp [hblocks,List.mem_insert_iff,or_comm,eq_comm]
    · rename_i hat
      rw [Bool.not_eq_true] at hat
      have hexempts (host : Str) : ¬ Exempts libs line host := by
        rintro ⟨hyes,-⟩
        rw [hat] at hyes
        cases hyes
      rw [blocks_iff hkeep.2 hat hclean]
      cases hrule : normalizeGFWListRule libs line with
      | none => simp [hexempts]
      | some found => simp [hexempts,List.mem_insert_iff,or_comm,eq_comm]

theorem mem_addLines (libs : Libs) (pattern : Str) (lines : List Str) (sets : Sets) :
    (pattern ∈ (lines.foldl (addLine libs) sets).1 ↔ pattern ∈ sets.1 ∨
      ∃ line ∈ lines, ∃ host, Blocks libs (trimSpace line) host ∧ pattern = str "*"++host) ∧
    (pattern ∈ (lines.foldl (addLine libs) sets).2 ↔ pattern ∈ sets.2 ∨
      ∃ line ∈ lines, ∃ host, Exempts libs (trimSpace line) host ∧ pattern = str "*"++host) := by
  induction lines generalizing sets with
  | nil => simp
  | cons line lines ih =>
    obtain ⟨hblocked,hexempt⟩ := ih (addLine libs sets line)
    rw [List.foldl_cons,hblocked,hexempt,(mem_addLine sets).1,(mem_addLine sets).2]
    simp only [List.exists_mem_cons_iff,or_assoc,and_self]

end Lines

section Hosts

/-- What the host expression matches is a name with a dot in it. -/
def FindsHosts (findString : Str → Str) : Prop :=
  ∀ s, findString s = [] ∨ (OverLabels (findString s) ∧ contains (findString s) 46 = true)

theorem trimLeft_eq_self {s : Str} (h : s.head? ≠ some 46) : trimLeft (str ".") s = s := by
  cases s with
  | nil => rfl
  | cons c s =>
    have hc : ¬ c = 46 := fun hc => h (by rw [hc]; rfl)
    rw [trimLeft,List.dropWhile_cons_of_neg]
    simpa [contains,str] using Ne.symm hc

theorem getLast?_ne_dot {s : Str} (h : OverLabels s) : s.getLast? ≠ some 46 := by
  obtain ⟨l,ls,hls,rfl⟩ := h
  induction ls generalizing l with
  | nil =>
    rw [dotted_singleton]
    intro hlast
    exact (hls l List.mem_cons_self).2 (List.mem_of_getLast? hlast)
  | cons x ls ih =>
    have hx : ∀ y ∈ x::ls, y ≠ [] ∧ 46 ∉ y := fun y hy => hls y (List.mem_cons_of_mem l hy)
    have hne := OverLabels.ne_nil ⟨x,ls,hx,rfl⟩
    rw [dotted_cons,List.getLast?_append_of_ne_nil _ (List.cons_ne_nil _ _),
      List.getLast?_cons_of_ne_nil hne]
    exact ih x hx

/-- There is nothing to trim around a name. -/
theorem trim_overLabels {s : Str} (h : OverLabels s) : trim (str ".") s = s := by
  have hhead : s.head? ≠ some 46 := by
    intro hhead
    obtain ⟨rest,rfl⟩ : ∃ rest, s = 46::rest := ⟨s.tail,(List.cons_head?_tail hhead).symm⟩
    exact OverLabels.not_dot rest h
  have hlast : s.reverse.head? ≠ some 46 := by
    rw [List.head?_reverse]
    exact getLast?_ne_dot h
  rw [trim,trimLeft_eq_self hhead,trimLeft_eq_self hlast,List.reverse_reverse]

theorem isPattern_of_host {libs : Libs} (hfind : FindsHosts libs.findString) {rule host : Str}
    (h : extractGFWListHost libs rule = some host) : IsPattern (str "*"++host) := by
  unfold extractGFWListHost at h
  dsimp only at h
  split at h
  · cases h
  · split at h
    · cases h
    · split at h
      · cases h
      · rename_i hfound
        have hne := (not_or.mp hfound).1
        obtain ⟨hover,hdot⟩ := (hfind _).resolve_left hne
        rw [trim_overLabels hover] at h
        exact ⟨host,rfl,Option.some.inj h ▸ hover,Option.some.inj h ▸ hdot⟩

/-- The lower case of a name has labels where the name has labels. -/
def KeepsLabels (mapLower : Str → Str) : Prop := ∀ s, OverLabels s → OverLabels (mapLower s)

theorem keepsLabels_id : KeepsLabels id := fun _ h => h

theorem lower_dotted (l : Str) (ls : List Str) :
    lower (dotted (l::ls)) = dotted ((l::ls).map lower) := by
  induction ls generalizing l with
  | nil => simp [dotted_singleton]
  | cons x ls ih =>
    rw [List.map_cons,List.map_cons,dotted_cons,dotted_cons,lower,List.map_append,List.map_cons]
    change lower l++46::lower (dotted (x::ls)) = _
    rw [ih,List.map_cons]

theorem toLower_overLabels {mapLower : Str → Str} (h : KeepsLabels mapLower) {d : Str}
    (hd : OverLabels d) : OverLabels (toLower mapLower d) := by
  rw [toLower]
  split
  · obtain ⟨l,ls,hls,rfl⟩ := hd
    refine ⟨lower l,ls.map lower,?_,lower_dotted l ls⟩
    intro x hx
    obtain ⟨y,hy,rfl⟩ := List.mem_map.mp (by simpa using hx : x ∈ (l::ls).map lower)
    rw [mem_lower (by decide),Ne,lower_eq_nil]
    exact hls y hy
  · exact h d hd

end Hosts

section Classification

variable {σ : Type}

theorem isGFWDomain_withLists (rt : Runtime σ) (gfw bypass : Matcher Unit) {d : Str} (hd : d ≠ []) :
    isGFWDomain (withLists rt (some gfw) (some bypass)) d = true ↔
      (find gfw (toLower rt.mapLower d)).isSome = true ∧
        ¬ (find bypass (toLower rt.mapLower d)).isSome = true := by
  by_cases hbypass : (find bypass (toLower rt.mapLower d)).isSome = true
  · simp [isGFWDomain,withLists,hd,hbypass]
  · simp [isGFWDomain,withLists,hd,hbypass]

theorem mem_mapKeysSorted {m : List Str} {pattern : Str} :
    pattern ∈ mapKeysSorted m ↔ pattern ∈ m := List.mem_mergeSort

/-- The sorted patterns find the names that their hosts cover. -/
theorem find_sorted {m : List Str} (hm : ∀ pattern ∈ m, IsPattern pattern) {d : Str}
    (hd : OverLabels d) :
    (find (addAll ((mapKeysSorted m).map fun pattern => (pattern,()))) d).isSome = true ↔
      ∃ host, str "*"++host ∈ m ∧ Covers host d := by
  have hlog : ∀ e ∈ (mapKeysSorted m).map fun pattern => (pattern,()), IsPattern e.1 := by
    intro e he
    obtain ⟨pattern,hpattern,rfl⟩ := List.mem_map.mp he
    exact hm pattern (mem_mapKeysSorted.mp hpattern)
  rw [find_isSome hlog hd]
  constructor
  · rintro ⟨e,he,host,hpattern,hcovers⟩
    obtain ⟨pattern,hmem,rfl⟩ := List.mem_map.mp he
    exact ⟨host,hpattern ▸ mem_mapKeysSorted.mp hmem,hcovers⟩
  · rintro ⟨host,hmem,hcovers⟩
    exact ⟨(str "*"++host,()),List.mem_map_of_mem (mem_mapKeysSorted.mpr hmem),host,rfl,hcovers⟩

theorem covered_iff {m lines : List Str} {names : Str → Str → Prop} {d : Str}
    (hm : ∀ host, str "*"++host ∈ m ↔
      ∃ line ∈ lines, ∃ host', names line host' ∧ str "*"++host = str "*"++host') :
    (∃ host, str "*"++host ∈ m ∧ Covers host d) ↔
      ∃ line ∈ lines, ∃ host, names line host ∧ Covers host d := by
  constructor
  · rintro ⟨host,hmem,hcovers⟩
    obtain ⟨line,hline,host',hnames,heq⟩ := (hm host).mp hmem
    exact ⟨line,hline,host',hnames,star_eq_iff.mp heq ▸ hcovers⟩
  · rintro ⟨line,hline,host,hnames,hcovers⟩
    exact ⟨host,(hm host).mpr ⟨line,hline,host,hnames,rfl⟩,hcovers⟩

/-- A list in base64 is loaded. Then a name is on it exactly if its lower case is or stands
below a host of a rule, and neither is nor stands below a host of an exception. -/
theorem gfwList_classifies (libs : Libs) (hfind : FindsHosts libs.findString) (rt : Runtime σ)
    (hlower : KeepsLabels rt.mapLower) (raw decoded : Str) (hraw : decodeList raw = some decoded) :
    ∃ gfw bypass, loadBuiltinGFWList libs raw = .ok (gfw,bypass) ∧ ∀ d, OverLabels d →
      (isGFWDomain (withLists rt (some gfw) (some bypass)) d = true ↔
        (∃ line ∈ decoded.splitOn 10, ∃ host, Blocks libs (trimSpace line) host ∧
          Covers host (toLower rt.mapLower d)) ∧
        ¬ ∃ line ∈ decoded.splitOn 10, ∃ host, Exempts libs (trimSpace line) host ∧
          Covers host (toLower rt.mapLower d)) := by
  have hmem (pattern : Str) := mem_addLines libs pattern (decoded.splitOn 10) ([],[])
  simp only [List.not_mem_nil,false_or] at hmem
  generalize hsets : (decoded.splitOn 10).foldl (addLine libs) ([],[]) = sets at hmem
  have hblocked : ∀ pattern ∈ sets.1, IsPattern pattern := by
    intro pattern hp
    obtain ⟨line,-,host,hblocks,rfl⟩ := (hmem pattern).1.mp hp
    exact isPattern_of_host hfind hblocks.2.2.2.2
  have hexempt : ∀ pattern ∈ sets.2, IsPattern pattern := by
    intro pattern hp
    obtain ⟨line,-,host,hexempts,rfl⟩ := (hmem pattern).2.mp hp
    exact isPattern_of_host hfind hexempts.2.2
  have hload : loadBuiltinGFWList libs raw =
      .ok (addAll ((mapKeysSorted sets.1).map fun pattern => (pattern,())),
        addAll ((mapKeysSorted sets.2).map fun pattern => (pattern,()))) := by
    have hparse : parseEmbeddedGFWList libs raw =
        .ok (mapKeysSorted sets.1,mapKeysSorted sets.2) := by
      simp only [parseEmbeddedGFWList,hraw,hsets]
    have hadd₁ := addPatterns_eq fun p hp => hblocked p (mem_mapKeysSorted.mp hp)
    have hadd₂ := addPatterns_eq fun p hp => hexempt p (mem_mapKeysSorted.mp hp)
    exact GoRun.except_bind_of_ok hparse
      (GoRun.except_bind_of_ok hadd₁ (GoRun.except_bind_of_ok hadd₂ rfl))
  refine ⟨_,_,hload,fun d hd => ?_⟩
  have hd' := toLower_overLabels hlower hd
  rw [isGFWDomain_withLists rt _ _ hd.ne_nil,find_sorted hblocked hd',find_sorted hexempt hd']
  rw [covered_iff fun host => (hmem _).1,covered_iff fun host => (hmem _).2]

end Classification

/-- Packages that find no host but two. -/
def smallLibs : Libs where
  urlHost _ := none
  findString s := if s = str "a.b" ∨ s = str "c.a.b" then s else []
  mapLower := id

theorem smallLibs_findsHosts : FindsHosts smallLibs.findString := by
  intro s
  by_cases h : s = str "a.b" ∨ s = str "c.a.b"
  · have hfound : smallLibs.findString s = s := if_pos h
    rw [hfound]
    rcases h with rfl | rfl
    · exact .inr ⟨⟨str "a",[str "b"],by decide,by decide⟩,by decide⟩
    · exact .inr ⟨⟨str "c",[str "a",str "b"],by decide,by decide⟩,by decide⟩
  · exact .inl (if_neg h)

/-- The lines ||a.b and @@||c.a.b. -/
theorem gfwList_classifies_small :
    ∃ gfw bypass, loadBuiltinGFWList smallLibs (str "fHxhLmIK QEB8fGMuYS5i") = .ok (gfw,bypass) ∧
      isGFWDomain (withLists oneRule (some gfw) (some bypass)) (str "x.A.b") = true := by
  have hraw : decodeList (str "fHxhLmIK QEB8fGMuYS5i") =
      some (str "||a.b"++10::str "@@||c.a.b") := by decide
  obtain ⟨gfw,bypass,hload,hlist⟩ := gfwList_classifies smallLibs smallLibs_findsHosts oneRule
    keepsLabels_id _ _ hraw
  have hlower : toLower oneRule.mapLower (str "x.A.b") = str "x.a.b" := by decide
  refine ⟨gfw,bypass,hload,?_⟩
  rw [hlist _ ⟨str "x",[str "A",str "b"],by decide,by decide⟩,hlower]
  have hlines : (str "||a.b"++10::str "@@||c.a.b").splitOn 10 = [str "||a.b",str "@@||c.a.b"] := by
    decide
  rw [hlines]
  constructor
  · exact ⟨str "||a.b",by simp,str "a.b",by unfold Blocks; decide,.inr ⟨str "x",rfl⟩⟩
  · rintro ⟨line,hline,host,⟨hat,-,hhost⟩,hcovers⟩
    obtain rfl | rfl : line = str "||a.b" ∨ line = str "@@||c.a.b" := by simpa using hline
    · cases hat
    · have hexempt : extractGFWListHost smallLibs ((trimSpace (str "@@||c.a.b")).drop 2) =
          some (str "c.a.b") := by decide
      obtain rfl := Option.some.inj (hhost.symm.trans hexempt)
      rcases hcovers with heq | hbelow
      · cases heq
      · rw [← mem_properSuffixes] at hbelow
        exact absurd hbelow (by decide)

end GFWList
end Enimul
