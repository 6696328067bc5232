import Enimul.DomainMatcher
import Enimul.PathLookup

/-! The domain table as the choice of the most specific pattern.
A pattern has a place in the trie, the path of its labels, and values it sets there. What is
found for a name is said in terms of the patterns that were added. -/
namespace Enimul
namespace DomainMatcher

open GoSlice GoText PathLookup

section Names

def dotted (ls : List Str) : Str := (str ".").intercalate ls

/-- Labels that are not empty, with dots between them. -/
def OverLabels (s : Str) : Prop :=
  ∃ l ls, (∀ x ∈ l::ls, x ≠ [] ∧ 46 ∉ x) ∧ s = dotted (l::ls)

/-- The labels on the way to the node of a name. -/
def path (s : Str) : List Str := (labels s).map Prod.fst

/-- What stands behind a dot of the name, from the longest to the shortest. -/
def properSuffixes : Str → List Str
  | [] => []
  | c::cs => if c = 46 then cs::properSuffixes cs else properSuffixes cs

theorem dotted_singleton (l : Str) : dotted [l] = l := by simp [dotted,List.intercalate]

theorem dotted_cons (l x : Str) (ls : List Str) :
    dotted (l::x::ls) = l++46::dotted (x::ls) := by
  simp [dotted,List.intercalate,str]

theorem dotted_cons_byte (b : UInt8) (l : Str) (ls : List Str) :
    dotted ((b::l)::ls) = b::dotted (l::ls) := by
  cases ls with
  | nil => rw [dotted_singleton,dotted_singleton]
  | cons x ls => rw [dotted_cons,dotted_cons,List.cons_append]

theorem dotted_concat (l x : Str) (ls : List Str) :
    dotted (l::(ls++[x])) = dotted (l::ls)++46::x := by
  induction ls generalizing l with
  | nil => rw [List.nil_append,dotted_cons,dotted_singleton,dotted_singleton]
  | cons y ls ih => rw [List.cons_append,dotted_cons,ih,dotted_cons,List.append_assoc,List.cons_append]

theorem lastIndexByte_of_notMem {s : Str} {c : UInt8} (h : c ∉ s) : lastIndexByte s c = none := by
  induction s with
  | nil => rfl
  | cons b s ih =>
    obtain ⟨hb,hs⟩ := not_or.mp (mt List.mem_cons.mpr h)
    rw [lastIndexByte,ih hs]
    exact if_neg (Ne.symm hb)

theorem lastIndexByte_append {x : Str} {c : UInt8} (h : c ∉ x) (s : Str) :
    lastIndexByte (s++c::x) c = some s.length := by
  induction s with
  | nil => simp [lastIndexByte,lastIndexByte_of_notMem h]
  | cons b s ih => simp [lastIndexByte,ih]

theorem labelsUpTo_of_le {s : Str} {rounds : ℕ} (h : s.length ≤ rounds) :
    labelsUpTo rounds s = labels s := by
  have hstep : ∀ (n m : ℕ) (s : Str), s.length ≤ n → s.length ≤ m →
      labelsUpTo n s = labelsUpTo m s := by
    intro n
    induction n with
    | zero =>
      intro m s hn _
      obtain rfl := List.length_eq_zero_iff.mp (Nat.le_zero.mp hn)
      cases m <;> rfl
    | succ n ih =>
      intro m s hn hm
      cases m with
      | zero =>
        obtain rfl := List.length_eq_zero_iff.mp (Nat.le_zero.mp hm)
        rfl
      | succ m =>
        rw [labelsUpTo,labelsUpTo]
        cases hj : lastIndexByte s 46 with
        | none => rfl
        | some j =>
          have hlt := lastIndexByte_lt hj
          have hlen : (s.take j).length = j := List.length_take_of_le hlt.le
          dsimp only
          rw [ih m (s.take j) (by omega) (by omega)]
  exact hstep rounds s.length s h le_rfl

theorem labels_undotted {s : Str} (hs : 46 ∉ s) (hne : s ≠ []) : labels s = [(s,false)] := by
  obtain ⟨n,hn⟩ := Nat.exists_eq_add_one.mpr (List.length_pos_iff.mpr hne)
  rw [labels,hn,labelsUpTo,if_neg hne,lastIndexByte_of_notMem hs]

theorem labels_append_dot {x : Str} (hx : 46 ∉ x) (a : Str) :
    labels (a++46::x) = (x,true)::labels a := by
  have hlen : (a++46::x).length = a.length+x.length+1 := by
    rw [List.length_append,List.length_cons]
    omega
  rw [labels,hlen,labelsUpTo,if_neg (by simp),lastIndexByte_append hx]
  dsimp only
  rw [List.take_left,labelsUpTo_of_le (by omega)]
  simp

/-- A text without a dot, or a text in front of its last dot. -/
@[elab_as_elim]
theorem dotInduction {P : Str → Prop} (undotted : ∀ x, 46 ∉ x → P x)
    (dot : ∀ a x, 46 ∉ x → P a → P (a++46::x)) (s : Str) : P s := by
  induction hn : s.length using Nat.strong_induction_on generalizing s with
  | h n ih =>
    by_cases hmem : 46 ∈ s
    · obtain ⟨y,b,hsplit,hy⟩ := List.eq_append_cons_of_mem (List.mem_reverse.mpr hmem)
      have hs : s = b.reverse++46::y.reverse := by
        rw [← List.reverse_reverse s,hsplit]
        simp
      have hlt : b.reverse.length < n := by
        rw [← hn,hs,List.length_append,List.length_cons]
        omega
      rw [hs]
      exact dot _ _ (by simpa using hy) (ih _ hlt _ rfl)
    · exact undotted s hmem

theorem labels_dotted {l : Str} {ls : List Str} (h : ∀ x ∈ l::ls, x ≠ [] ∧ 46 ∉ x) :
    labels (dotted (l::ls)) = ls.reverse.map (·,true)++[(l,false)] := by
  -- the loop takes the last label off, so the induction is from the right
  induction ls using List.reverseRecOn with
  | nil =>
    obtain ⟨hne,hdot⟩ := h l (by simp)
    rw [dotted_singleton]
    exact labels_undotted hdot hne
  | append_singleton ls x ih =>
    obtain ⟨-,hdot⟩ := h x (by simp)
    rw [dotted_concat,labels_append_dot hdot,ih fun y hy => h y (by simp at hy ⊢; tauto)]
    simp

theorem path_dotted {l : Str} {ls : List Str} (h : ∀ x ∈ l::ls, x ≠ [] ∧ 46 ∉ x) :
    path (dotted (l::ls)) = ls.reverse++[l] := by
  rw [path,labels_dotted h]
  simp [Function.comp_def]

namespace OverLabels

variable {s t : Str}

theorem path_ne_nil (h : OverLabels s) : path s ≠ [] := by
  obtain ⟨l,ls,hl,rfl⟩ := h
  simp [path_dotted hl]

theorem eq_of_path (hs : OverLabels s) (ht : OverLabels t) (h : path s = path t) : s = t := by
  obtain ⟨l,ls,hl,rfl⟩ := hs
  obtain ⟨l',ls',hl',rfl⟩ := ht
  rw [path_dotted hl,path_dotted hl',← List.reverse_cons,← List.reverse_cons,List.reverse_inj] at h
  rw [h]

theorem path_eq_iff (hs : OverLabels s) (ht : OverLabels t) : path s = path t ↔ s = t :=
  ⟨hs.eq_of_path ht,fun h => h ▸ rfl⟩

theorem not_dot (s : Str) : ¬ OverLabels (46::s) := by
  rintro ⟨l,ls,hl,h⟩
  obtain ⟨hne,hdot⟩ := hl l (by simp)
  obtain ⟨b,l,rfl⟩ := List.exists_cons_of_ne_nil hne
  rw [dotted_cons_byte] at h
  exact hdot ((List.cons.inj h).1 ▸ List.mem_cons_self)

theorem cons {c : UInt8} (hc : c ≠ 46) (h : OverLabels s) : OverLabels (c::s) := by
  obtain ⟨l,ls,hl,rfl⟩ := h
  refine ⟨c::l,ls,fun x hx => ?_,(dotted_cons_byte c l ls).symm⟩
  rcases List.mem_cons.mp hx with rfl | hx
  · exact ⟨by simp,by simp [hc.symm,(hl l (by simp)).2]⟩
  · exact hl x (List.mem_cons_of_mem l hx)

theorem ne_nil (h : OverLabels s) : s ≠ [] := by
  rintro rfl
  exact h.path_ne_nil rfl

/-- Without its first byte a name is empty, or starts with the dot of the next label, or is
a name still. -/
theorem tail {c : UInt8} (h : OverLabels (c::s)) :
    s = [] ∨ (∃ t, s = 46::t ∧ OverLabels t) ∨ OverLabels s := by
  obtain ⟨l,ls,hl,h⟩ := h
  obtain ⟨hne,hdot⟩ := hl l (by simp)
  obtain ⟨b,l,rfl⟩ := List.exists_cons_of_ne_nil hne
  rw [dotted_cons_byte] at h
  obtain rfl := (List.cons.inj h).2
  have hls : ∀ x ∈ ls, x ≠ [] ∧ 46 ∉ x := fun x hx => hl x (List.mem_cons_of_mem _ hx)
  by_cases hl' : l = []
  · subst hl'
    cases ls with
    | nil => exact .inl (dotted_singleton [])
    | cons x ls => exact .inr (.inl ⟨dotted (x::ls),dotted_cons [] x ls,x,ls,hls,rfl⟩)
  · refine .inr (.inr ⟨l,ls,fun x hx => ?_,rfl⟩)
    rcases List.mem_cons.mp hx with rfl | hx
    · exact ⟨hl',fun hm => hdot (List.mem_cons_of_mem b hm)⟩
    · exact hls x hx

end OverLabels

theorem properSuffixes_of_notMem {l : Str} (h : 46 ∉ l) : properSuffixes l = [] := by
  induction l with
  | nil => rfl
  | cons b l ih =>
    obtain ⟨hb,hl⟩ := not_or.mp (mt List.mem_cons.mpr h)
    rw [properSuffixes,if_neg (Ne.symm hb),ih hl]

theorem properSuffixes_append {l : Str} (h : 46 ∉ l) (s : Str) :
    properSuffixes (l++46::s) = s::properSuffixes s := by
  induction l with
  | nil => rfl
  | cons b l ih =>
    obtain ⟨hb,hl⟩ := not_or.mp (mt List.mem_cons.mpr h)
    rw [List.cons_append,properSuffixes,if_neg (Ne.symm hb),ih hl]

theorem mem_properSuffixes {s d : Str} : s ∈ properSuffixes d ↔ ∃ x, d = x++46::s := by
  induction d with
  | nil => simp [properSuffixes]
  | cons c d ih =>
    have hmem : s ∈ properSuffixes (c::d) ↔ (c = 46 ∧ s = d) ∨ s ∈ properSuffixes d := by
      rw [properSuffixes]
      split <;> simp_all
    rw [hmem,ih]
    constructor
    · rintro (⟨rfl,rfl⟩ | ⟨x,rfl⟩)
      · exact ⟨[],rfl⟩
      · exact ⟨c::x,rfl⟩
    · rintro ⟨x,hx⟩
      cases x with
      | nil => simp_all
      | cons b x => exact .inr ⟨x,(List.cons.inj hx).2⟩

theorem properSuffixes_shorter (d : Str) :
    (properSuffixes d).Pairwise fun s t => t.length < s.length := by
  induction d with
  | nil => exact .nil
  | cons c d ih =>
    rw [properSuffixes]
    split
    · refine .cons (fun t ht => ?_) ih
      obtain ⟨x,rfl⟩ := mem_properSuffixes.mp ht
      rw [List.length_append,List.length_cons]
      omega
    · exact ih

end Names

/-- The value that a node has for its own name, or for the names below it. -/
inductive Slot
  | exact
  | wildcard

/-- Where a pattern goes and which of the values it sets. -/
structure Place where
  labels : List Label
  isWildcard : Bool
  isExact : Bool

namespace Slot

variable {α : Type}

def value : Slot → LabelNode α → Option α
  | .exact => LabelNode.exactValue
  | .wildcard => LabelNode.wildcardValue

def isSet : Slot → Place → Bool
  | .exact => Place.isExact
  | .wildcard => Place.isWildcard

/-- The nodes as seen through one of their values. -/
def view (slot : Slot) : View (LabelNode α) Str α := ⟨LabelNode.children,slot.value⟩

theorem value_setChild (slot : Slot) (n child : LabelNode α) (l : Str) :
    slot.value (n.setChild l child) = slot.value n := by
  cases slot <;> rfl

theorem value_setValues (slot : Slot) (n : LabelNode α) (v : α) (t : Place) :
    slot.value (n.setValues v t.isWildcard t.isExact) =
      (if slot.isSet t then some v else none).or (slot.value n) := by
  cases slot with
  | exact => cases hset : t.isExact <;> simp [value,isSet,LabelNode.setValues,LabelNode.exactValue,hset]
  | wildcard =>
    cases hset : t.isWildcard <;> simp [value,isSet,LabelNode.setValues,LabelNode.wildcardValue,hset]

/-- A pattern changes the values at its own place only. -/
theorem view_inserts (slot : Slot) (v : α) (t : Place) :
    slot.view.Inserts Prod.fst LabelNode.empty (if slot.isSet t then some v else none)
      (LabelNode.insertPattern v t.isWildcard t.isExact) where
  value_empty := by cases slot <;> rfl
  child_empty _ := rfl
  value_nil n := slot.value_setValues n v t
  child_nil _ _ := rfl
  value_cons _ _ n := slot.value_setChild n _ _
  child_cons _ _ _ _ := rfl

end Slot

section Walk

variable {α : Type}

theorem walk_fst (ls : List Label) (n : LabelNode α) (candidate : Option α) :
    (LabelNode.walk ls n candidate).1 = ((LabelNode.walk ls n none).1).or candidate := by
  induction ls generalizing n candidate with
  | nil => rfl
  | cons l ls ih =>
    rw [LabelNode.walk,LabelNode.walk]
    cases n.children l.1 with
    | none => rfl
    | some child =>
      dsimp only
      split
      · rename_i h
        obtain ⟨w,hw⟩ := Option.isSome_iff_exists.mp h.2
        rw [hw,ih child,Option.or_assoc,Option.some_or]
      · exact ih child candidate

theorem walk_undotted {rest : List Label} (h : ∀ l ∈ rest, l.2 = false) (n : LabelNode α)
    (candidate : Option α) : (LabelNode.walk rest n candidate).1 = candidate := by
  induction rest generalizing n with
  | nil => rfl
  | cons l rest ih =>
    rw [LabelNode.walk]
    cases n.children l.1 with
    | none => rfl
    | some child =>
      dsimp only
      rw [h l List.mem_cons_self,if_neg (by simp)]
      exact ih (fun x hx => h x (List.mem_cons_of_mem l hx)) child

/-- The last wildcard on the way, counting the root, is the deepest one in front of the
first label of the name. -/
theorem walk_eq_deepest (ks : List Str) {rest : List Label} (hrest : ∀ l ∈ rest, l.2 = false)
    (n : LabelNode α) (candidate : Option α) :
    (LabelNode.walk (ks.map (·,true)++rest) n (n.wildcardValue.or candidate)).1 =
      deepest (fun q => Slot.wildcard.view.valueAt q n) ks candidate := by
  induction ks generalizing n candidate with
  | nil => exact walk_undotted hrest n _
  | cons k ks ih =>
    rw [List.map_cons,List.cons_append,LabelNode.walk]
    cases hc : n.children k with
    | none => exact (Slot.wildcard.view.deepest_of_no_child hc ks candidate).symm
    | some child =>
      have hor : (if true = true ∧ child.wildcardValue.isSome then child.wildcardValue
          else n.wildcardValue.or candidate) =
            child.wildcardValue.or (n.wildcardValue.or candidate) := by
        cases child.wildcardValue <;> rfl
      dsimp only
      rw [hor]
      exact (ih child _).trans (Slot.wildcard.view.deepest_of_child hc ks candidate).symm

theorem walk_snd (ls : List Label) (n : LabelNode α) (candidate : Option α) :
    (LabelNode.walk ls n candidate).2.bind LabelNode.exactValue =
      Slot.exact.view.valueAt (ls.map Prod.fst) n := by
  induction ls generalizing n candidate with
  | nil => rfl
  | cons l ls ih =>
    rw [LabelNode.walk,List.map_cons,View.valueAt]
    change _ = (n.children l.1).bind _
    cases n.children l.1 with
    | none => rfl
    | some child => exact ih child _

/-- A lookup prefers the value of the name itself to the deepest wildcard above it. -/
theorem find_eq_or {d : Str} {ks : List Str} {rest : List Label}
    (h : labels d = ks.map (·,true)++rest) (hrest : ∀ l ∈ rest, l.2 = false) (m : Matcher α) :
    find m d = (Slot.exact.view.valueAt (path d) m).or
      (deepest (fun q => Slot.wildcard.view.valueAt q m) ks none) := by
  have hfind : find m d = (Slot.exact.view.valueAt (path d) m).or
      (((LabelNode.walk (labels d) m none).1).or m.wildcardValue) := by
    rw [find,path,← walk_snd (labels d) m none]
    cases LabelNode.walk (labels d) m none with
    | mk candidate reached =>
      dsimp only
      cases reached.bind LabelNode.exactValue with
      | some v => rfl
      | none => cases candidate <;> rfl
  rw [hfind,← walk_eq_deepest ks hrest m none,Option.or_none,← h,← walk_fst]

end Walk

section Patterns

variable {α : Type} {p d s : Str}

def place (p : Str) : Option Place :=
  if p = str "*" then some ⟨[],true,false⟩
  else if ¬ contains p 46 then none
  else if hasPrefix p (str "*.") then some ⟨labels (p.drop 2),true,false⟩
  else if hasPrefix p (str "*") then some ⟨labels (p.drop 1),true,true⟩
  else some ⟨labels p,false,true⟩

/-- The path under which a pattern sets a value. -/
def key (slot : Slot) (p : Str) : Option (List Str) :=
  ((place p).filter slot.isSet).map fun t => t.labels.map Prod.fst

/-- The patterns that say something about a name itself. -/
def names (d p : Str) : Bool :=
  contains p 46 && (p = str "*"++d || (p = d && !hasPrefix d (str "*")))

/-- The patterns that say something about the names below a name. -/
def namesBelow (s p : Str) : Bool := contains p 46 && (p = str "*."++s || p = str "*"++s)

theorem add_eq (m : Matcher α) (p : Str) (v : α) :
    add m p v = match place p with
      | some t => .ok (LabelNode.insertPattern v t.isWildcard t.isExact t.labels m)
      | none => .error ("invalid pattern: "++text p) := by
  rw [add,place]
  split_ifs <;> rfl

theorem hasPrefix_star : hasPrefix p (str "*") = true ↔ ∃ s, p = 42::s := by
  have hiff : [(42 : UInt8)] <+: p ↔ ∃ s, p = 42::s :=
    exists_congr fun s => by rw [List.singleton_append,eq_comm]
  exact List.isPrefixOf_iff_prefix.trans hiff

theorem hasPrefix_starDot : hasPrefix p (str "*.") = true ↔ ∃ s, p = 42::46::s := by
  have hiff : [(42 : UInt8),46] <+: p ↔ ∃ s, p = 42::46::s :=
    exists_congr fun s => by rw [List.cons_append,List.singleton_append,eq_comm]
  exact List.isPrefixOf_iff_prefix.trans hiff

/-- The forms that a pattern over labels can have. -/
inductive Form : Str → Option Place → Prop
  | root : Form (str "*") (some ⟨[],true,false⟩)
  | refused (p : Str) (h : contains p 46 = false) (hroot : p ≠ str "*") : Form p none
  | below (s : Str) (h : OverLabels s) : Form (42::46::s) (some ⟨labels s,true,false⟩)
  | both (s : Str) (h : OverLabels s) (hdot : contains s 46 = true) :
      Form (42::s) (some ⟨labels s,true,true⟩)
  | name (p : Str) (h : OverLabels p) (hdot : contains p 46 = true)
      (hstar : hasPrefix p (str "*") = false) : Form p (some ⟨labels p,false,true⟩)

theorem form_of_overLabels (h : OverLabels p) : Form p (place p) := by
  by_cases hroot : p = str "*"
  · rw [place,if_pos hroot,hroot]
    exact .root
  cases hdot : contains p 46 with
  | false =>
    rw [place,if_neg hroot,hdot,if_pos (by simp)]
    exact .refused p hdot hroot
  | true =>
    rw [place,if_neg hroot,hdot,if_neg (by simp)]
    cases hstar : hasPrefix p (str "*") with
    | false =>
      have hno : ¬ hasPrefix p (str "*.") = true := by
        intro hpre
        obtain ⟨s,rfl⟩ := hasPrefix_starDot.mp hpre
        exact Bool.eq_false_iff.mp hstar (hasPrefix_star.mpr ⟨_,rfl⟩)
      rw [if_neg hno,if_neg (by simp)]
      exact .name p h hdot hstar
    | true =>
      obtain ⟨s,rfl⟩ := hasPrefix_star.mp hstar
      rcases h.tail with rfl | ⟨t,rfl,ht⟩ | hs
      · exact absurd rfl hroot
      · exact .below t ht
      · have hno : ¬ hasPrefix (42::s) (str "*.") = true := by
          intro hpre
          obtain ⟨t,ht⟩ := hasPrefix_starDot.mp hpre
          exact OverLabels.not_dot t ((List.cons.inj ht).2 ▸ hs)
        rw [if_neg hno,if_pos rfl]
        exact .both s hs (by simpa [contains] using hdot)

theorem key_exact_iff (hp : OverLabels p) (hd : OverLabels d) :
    key .exact p = some (path d) ↔ names d p = true := by
  rw [key]
  have hform := form_of_overLabels hp
  generalize place p = found at hform
  cases hform with
  | root => simp [Slot.isSet,names,contains,str]
  | refused p h hroot => simp [names,h]
  | below s h =>
    have hne : ¬ 46::s = d := fun he => OverLabels.not_dot s (he ▸ hd)
    have hstar : 42::46::s = d → hasPrefix d (str "*") = true :=
      fun he => hasPrefix_star.mpr ⟨_,he.symm⟩
    simpa [Slot.isSet,names,str,hne] using fun _ => hstar
  | both s h hdot =>
    have hstar : 42::s = d → hasPrefix d (str "*") = true :=
      fun he => hasPrefix_star.mpr ⟨_,he.symm⟩
    have hcontains : contains (42::s) 46 = true := by simpa [contains] using hdot
    change some (path s) = some (path d) ↔ _
    rw [Option.some_inj,h.path_eq_iff hd]
    constructor
    · rintro rfl
      simp [names,hcontains,str]
    · intro hn
      rcases (by simpa [names,hcontains,str] using hn) with he | ⟨he,hno⟩
      · exact he
      · exact absurd (hstar he) (Bool.eq_false_iff.mp hno)
  | name p h hdot hstar =>
    have hne : ¬ p = str "*"++d := fun he => Bool.eq_false_iff.mp hstar (hasPrefix_star.mpr ⟨d,he⟩)
    change some (path p) = some (path d) ↔ _
    rw [Option.some_inj,h.path_eq_iff hd]
    constructor
    · rintro rfl
      simp [names,hdot,hstar]
    · intro hn
      exact (by simpa [names,hdot,hne] using hn : p = d ∧ _).1

theorem key_wildcard_iff (hp : OverLabels p) (hs : OverLabels s) :
    key .wildcard p = some (path s) ↔ namesBelow s p = true := by
  rw [key]
  have hform := form_of_overLabels hp
  generalize place p = found at hform
  cases hform with
  | root =>
    have hne : ¬ [] = path s := hs.path_ne_nil.symm
    simpa [Slot.isSet,namesBelow,contains,str] using hne
  | refused p h hroot => simp [namesBelow,h]
  | below t h =>
    have hne : ¬ 46::t = s := fun he => OverLabels.not_dot t (he ▸ hs)
    change some (path t) = some (path s) ↔ _
    rw [Option.some_inj,h.path_eq_iff hs]
    simp [namesBelow,contains,str,hne]
  | both t h hdot =>
    have hne : ¬ t = 46::s := fun he => OverLabels.not_dot s (he ▸ h)
    have hcontains : contains (42::t) 46 = true := by simpa [contains] using hdot
    change some (path t) = some (path s) ↔ _
    rw [Option.some_inj,h.path_eq_iff hs]
    simp [namesBelow,hcontains,str,hne]
  | name p h hdot hstar =>
    have hne : ∀ t, ¬ p = 42::t :=
      fun t he => Bool.eq_false_iff.mp hstar (hasPrefix_star.mpr ⟨t,he⟩)
    simp [Slot.isSet,namesBelow,str,hne]

theorem key_wildcard_root (hp : OverLabels p) : key .wildcard p = some [] ↔ p = str "*" := by
  rw [key]
  have hform := form_of_overLabels hp
  generalize place p = found at hform
  cases hform with
  | root => simp [Slot.isSet]
  | refused p h hroot => simp [hroot]
  | below t h =>
    change some (path t) = some [] ↔ _
    simp [h.path_ne_nil,str]
  | both t h hdot =>
    change some (path t) = some [] ↔ _
    have hne : ¬ t = [] := by
      rintro rfl
      simp [contains] at hdot
    simp [h.path_ne_nil,str,hne]
  | name p h hdot hstar =>
    have hne : ¬ p = str "*" := fun he => Bool.eq_false_iff.mp hstar (hasPrefix_star.mpr ⟨[],he⟩)
    simp [Slot.isSet,hne]

end Patterns

section Specific

variable {α : Type} {p : Str}

/-- A failing call returns before it touches the trie. -/
def addOrSkip (m : Matcher α) (e : Str × α) : Matcher α :=
  match add m e.1 e.2 with
  | .ok m' => m'
  | .error _ => m

def addAll (log : List (Str × α)) : Matcher α := log.foldl addOrSkip newDomainMatcher

theorem addAll_concat (log : List (Str × α)) (e : Str × α) :
    addAll (log++[e]) = addOrSkip (addAll log) e := by
  rw [addAll,List.foldl_append]
  rfl

/-- The trie has under a path what was last added for it. -/
theorem valueAt_addAll (slot : Slot) (log : List (Str × α)) (q : List Str) :
    slot.view.valueAt q (addAll log) = filed (key slot) log q := by
  induction log using List.reverseRecOn with
  | nil => cases q <;> cases slot <;> rfl
  | append_singleton log e ih =>
    rw [addAll_concat,addOrSkip,add_eq,filed_concat,key]
    cases place e.1 with
    | none => simpa using ih
    | some t =>
      dsimp only
      rw [(slot.view_inserts e.2 t).valueAt_insert,ih]
      cases hset : slot.isSet t <;> simp [hset]

/-- The deepest value in front of the first label is that of the longest proper suffix. -/
theorem deepest_eq_findSome {f : List Str → Option α} {g : Str → Option α}
    (hfg : ∀ s, OverLabels s → f (path s) = g s) {l : Str} {ls : List Str}
    (h : ∀ x ∈ l::ls, x ≠ [] ∧ 46 ∉ x) :
    deepest f ls.reverse none = ((properSuffixes (dotted (l::ls))).findSome? g).or (f []) := by
  induction ls generalizing l with
  | nil =>
    rw [dotted_singleton,properSuffixes_of_notMem (h l (by simp)).2]
    simp [deepest]
  | cons x ls ih =>
    have hx : ∀ y ∈ x::ls, y ≠ [] ∧ 46 ∉ y := fun y hy => h y (List.mem_cons_of_mem l hy)
    have hg := hfg _ ⟨x,ls,hx,rfl⟩
    rw [path_dotted hx] at hg
    rw [dotted_cons,properSuffixes_append (h l (by simp)).2,List.reverse_cons,deepest_concat,ih hx,
      List.findSome?_cons,hg]
    cases g (dotted (x::ls)) <;> rfl

/-- What the table has to find for a name. -/
def mostSpecific (log : List (Str × α)) (d : Str) : Option α :=
  (latest (names d) log).or
    (((properSuffixes d).findSome? fun s => latest (namesBelow s) log).or
      (latest (fun p => p = str "*") log))

theorem find_addAll {log : List (Str × α)} (hlog : ∀ e ∈ log, OverLabels e.1) {d : Str}
    (hd : OverLabels d) : find (addAll log) d = mostSpecific log d := by
  have hexact : filed (key .exact) log (path d) = latest (names d) log :=
    latest_congr fun e he => by
      simp only [key_exact_iff (hlog e he) hd,Bool.decide_eq_true]
  have hbelow : ∀ s, OverLabels s →
      filed (key .wildcard) log (path s) = latest (namesBelow s) log :=
    fun s hs => latest_congr fun e he => by
      simp only [key_wildcard_iff (hlog e he) hs,Bool.decide_eq_true]
  have hroot : filed (key .wildcard) log [] = latest (fun p => p = str "*") log :=
    latest_congr fun e he => by simp only [key_wildcard_root (hlog e he)]
  have hwalk : ∀ ks, deepest (fun q => Slot.wildcard.view.valueAt q (addAll log)) ks none =
      deepest (filed (key .wildcard) log) ks none :=
    fun ks => congrArg (deepest · ks none) (funext (valueAt_addAll .wildcard log))
  obtain ⟨l,ls,h,rfl⟩ := hd
  rw [find_eq_or (labels_dotted h) (by simp),valueAt_addAll,hexact,hwalk,deepest_eq_findSome hbelow h,hroot]
  rfl

theorem place_eq_none (hroot : p ≠ str "*") (hdot : contains p 46 = false) : place p = none := by
  rw [place,if_neg hroot,hdot,if_pos (by simp)]

/-- A wildcard does not cover a part of a label. -/
theorem mostSpecific_unaligned {x s : Str} (hs : OverLabels s) (hx : x ≠ [])
    (hend : x.getLast? ≠ some 46) (v : α) : mostSpecific [(str "*"++s,v)] (x++s) = none := by
  have hname : names (x++s) (str "*"++s) = false := by
    have hne : ¬ str "*"++s = str "*"++(x++s) :=
      fun he => hx (List.self_eq_append_left.mp (List.append_cancel_left he))
    rw [names,decide_eq_false hne,Bool.false_or]
    by_cases he : str "*"++s = x++s
    · rw [hasPrefix_star.mpr ⟨s,he.symm⟩]
      simp
    · rw [decide_eq_false he]
      simp
  have hbelow : ∀ t ∈ properSuffixes (x++s), namesBelow t (str "*"++s) = false := by
    intro t ht
    obtain ⟨y,hy⟩ := mem_properSuffixes.mp ht
    have hdot : ¬ s = 46::t := fun he => OverLabels.not_dot t (he ▸ hs)
    have hne : ¬ s = t := by
      rintro rfl
      have hxy : x = y++[46] := List.append_cancel_right (hy.trans (by simp) : x++s = (y++[46])++s)
      exact hend (by simp [hxy])
    simp [namesBelow,str,hdot,hne]
  have hroot : ¬ str "*"++s = str "*" := fun he => hs.ne_nil (List.append_right_eq_self.mp he)
  rw [mostSpecific,latest_eq_none.mpr (by simpa using hname),
    List.findSome?_eq_none_iff.mpr fun t ht => latest_eq_none.mpr (by simpa using hbelow t ht),
    latest_eq_none.mpr (by simpa using hroot)]
  rfl

/-- The value found is that of the last pattern for the name, else that of the last pattern for
the names below its longest suffix that has one, else that of the last `*`. -/
theorem find_most_specific (log : List (Str × α)) (hlog : ∀ e ∈ log, OverLabels e.1) (d : Str)
    (hd : OverLabels d) :
    find (addAll log) d = (latest (names d) log).or
      (((properSuffixes d).findSome? fun s => latest (namesBelow s) log).or
        (latest (fun p => p = str "*") log)) ∧
    (∀ s, s ∈ properSuffixes d ↔ ∃ x, d = x++46::s) ∧
    ((properSuffixes d).Pairwise fun s t => t.length < s.length) ∧
    (∀ p v, p ≠ str "*" → contains p 46 = false →
      (∀ m : Matcher α, add m p v = .error ("invalid pattern: "++text p)) ∧
        addAll (log++[(p,v)]) = addAll log) ∧
    ∀ x s v, d = x++s → OverLabels s → x ≠ [] → x.getLast? ≠ some 46 →
      find (addAll [(str "*"++s,v)] : Matcher α) d = none := by
  refine ⟨find_addAll hlog hd,fun s => mem_properSuffixes,properSuffixes_shorter d,?_,?_⟩
  · intro p v hroot hdot
    have herror : ∀ m : Matcher α, add m p v = .error ("invalid pattern: "++text p) := by
      intro m
      rw [add_eq,place_eq_none hroot hdot]
    refine ⟨herror,?_⟩
    rw [addAll_concat,addOrSkip]
    simp only [herror]
  · rintro x s v rfl hs hx hend
    have hstar : OverLabels (str "*"++s) := hs.cons (by decide)
    rw [find_addAll (by simpa using hstar) hd]
    exact mostSpecific_unaligned hs hx hend v

/-- A later pattern for the same place counts, and a refused one does not. -/
theorem find_most_specific_below :
    let log := [(str "*.a.com",1),(str "*a.com",2),(str "*.com",3),(str "com",4),(str "*",5)]
    find (addAll log) (str "x.a.com") = some 2 ∧
      find (addAll log) (str "x.a.com") = mostSpecific log (str "x.a.com") := by
  intro log
  have hlog : ∀ e ∈ log, OverLabels e.1 := by
    simp only [log,List.forall_mem_cons]
    exact ⟨⟨str "*",[str "a",str "com"],by decide,by decide⟩,
      ⟨str "*a",[str "com"],by decide,by decide⟩,⟨str "*",[str "com"],by decide,by decide⟩,
      ⟨str "com",[],by decide,by decide⟩,⟨str "*",[],by decide,by decide⟩,by simp⟩
  have hd : OverLabels (str "x.a.com") :=
    ⟨str "x",[str "a",str "com"],by decide,by decide⟩
  exact ⟨by decide,(find_most_specific log hlog _ hd).1⟩

/-- A pattern with a star in front is not itself a name that it covers. -/
theorem find_star_pattern :
    OverLabels (str "*a.com") ∧
    latest (fun p => p = str "*a.com" || p = str "*"++str "*a.com") [(str "*a.com",1)] = some 1 ∧
    find (addAll [(str "*a.com",1)]) (str "*a.com") = none :=
  ⟨⟨str "*a",[str "com"],by decide,by decide⟩,by decide,by decide⟩

end Specific

end DomainMatcher
end Enimul
