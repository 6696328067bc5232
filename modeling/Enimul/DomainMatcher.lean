import Enimul.GoText

/-! The rule table for domain names, a trie over labels read from the right.
A node has a value for the name itself and a value for the names below it. The two
loops of the source run over the positions of the dots; here they run over the list
of labels those positions cut out. -/
namespace Enimul
namespace DomainMatcher

open GoSlice GoText

/-- A label with the flag that a dot stands in front of it. -/
abbrev Label := Str × Bool

/-- The labels of a name from the right. A dot in front of everything adds no label. -/
def labelsUpTo : ℕ → Str → List Label
  | 0, _ => []
  | rounds+1, s =>
    if s = [] then []
    else match lastIndexByte s 46 with
      | none => [(s,false)]
      | some j => (s.drop (j+1),true)::labelsUpTo rounds (s.take j)

def labels (s : Str) : List Label := labelsUpTo s.length s

inductive LabelNode (α : Type)
  | node (children : Str → Option (LabelNode α)) (exactValue wildcardValue : Option α)

namespace LabelNode

variable {α : Type}

def children : LabelNode α → Str → Option (LabelNode α)
  | .node cs _ _ => cs

def exactValue : LabelNode α → Option α
  | .node _ e _ => e

def wildcardValue : LabelNode α → Option α
  | .node _ _ w => w

def empty : LabelNode α := .node (fun _ => none) none none

def setChild (n : LabelNode α) (label : Str) (child : LabelNode α) : LabelNode α :=
  .node (fun l => if l = label then some child else n.children l) n.exactValue n.wildcardValue

def setValues (n : LabelNode α) (value : α) (isWildcard isExact : Bool) : LabelNode α :=
  .node n.children (if isExact then some value else n.exactValue)
    (if isWildcard then some value else n.wildcardValue)

/-- Walk to the node of a pattern, adding the nodes that are missing, and set its values. -/
def insertPattern (value : α) (isWildcard isExact : Bool) :
    List Label → LabelNode α → LabelNode α
  | [], n => n.setValues value isWildcard isExact
  | l::ls, n =>
    n.setChild l.1 (insertPattern value isWildcard isExact ls ((n.children l.1).getD empty))

/-- The walk of a lookup: the last wildcard on the way, and the node at the end when the
whole name has been matched. A wildcard covers names strictly below its node. -/
def walk : List Label → LabelNode α → Option α → Option α × Option (LabelNode α)
  | [], n, candidate => (candidate,some n)
  | l::ls, n, candidate =>
    match n.children l.1 with
    | none => (candidate,none)
    | some child =>
      walk ls child (if l.2 ∧ child.wildcardValue.isSome then child.wildcardValue else candidate)

end LabelNode

/-- The matcher is its root node. -/
abbrev Matcher (α : Type) := LabelNode α

def newDomainMatcher {α : Type} : Matcher α := LabelNode.empty

def add {α : Type} (m : Matcher α) (pattern : Str) (value : α) : Except String (Matcher α) :=
  if pattern = str "*" then .ok (m.setValues value true false)
  else if ¬ contains pattern 46 then .error ("invalid pattern: " ++ text pattern)
  else if hasPrefix pattern (str "*.") then
    .ok (LabelNode.insertPattern value true false (labels (pattern.drop 2)) m)
  else if hasPrefix pattern (str "*") then
    .ok (LabelNode.insertPattern value true true (labels (pattern.drop 1)) m)
  else .ok (LabelNode.insertPattern value false true (labels pattern) m)

def find {α : Type} (m : Matcher α) (domain : Str) : Option α :=
  match LabelNode.walk (labels domain) m none with
  | (candidate,reached) =>
    match reached.bind LabelNode.exactValue with
    | some value => some value
    | none =>
      match candidate with
      | some value => some value
      | none => m.wildcardValue

/-- Every value in the trie satisfies `P`. -/
inductive LabelNode.All {α : Type} (P : α → Prop) : LabelNode α → Prop
  | node {children : Str → Option (LabelNode α)} {exactValue wildcardValue : Option α}
      (below : ∀ l c, children l = some c → All P c) (exact : ∀ v, exactValue = some v → P v)
      (wildcard : ∀ v, wildcardValue = some v → P v) :
      All P (.node children exactValue wildcardValue)

namespace LabelNode

variable {α : Type} {P : α → Prop} {n : LabelNode α}

theorem All.empty : (empty : LabelNode α).All P :=
  .node (fun _ _ h => by simp at h) (fun _ h => by simp at h) (fun _ h => by simp at h)

theorem All.children (h : n.All P) {l : Str} {c : LabelNode α} (hc : n.children l = some c) :
    c.All P := by
  cases h with
  | node below _ _ => exact below l c hc

theorem All.exactValue (h : n.All P) {v : α} (hv : n.exactValue = some v) : P v := by
  cases h with
  | node _ exact _ => exact exact v hv

theorem All.wildcardValue (h : n.All P) {v : α} (hv : n.wildcardValue = some v) : P v := by
  cases h with
  | node _ _ wildcard => exact wildcard v hv

theorem All.setValues (h : n.All P) {v : α} (hv : P v) (isWildcard isExact : Bool) :
    (n.setValues v isWildcard isExact).All P := by
  refine .node (fun _ _ hc => h.children hc) (fun u hu => ?_) (fun u hu => ?_)
  · split at hu
    · rwa [← Option.some.inj hu]
    · exact h.exactValue hu
  · split at hu
    · rwa [← Option.some.inj hu]
    · exact h.wildcardValue hu

theorem All.setChild (h : n.All P) (label : Str) {child : LabelNode α} (hc : child.All P) :
    (n.setChild label child).All P := by
  refine .node (fun l c hl => ?_) (fun _ hu => h.exactValue hu) (fun _ hu => h.wildcardValue hu)
  split at hl
  · rwa [← Option.some.inj hl]
  · exact h.children hl

theorem All.insertPattern {v : α} (hv : P v) (isWildcard isExact : Bool) (ls : List Label)
    (h : n.All P) : (LabelNode.insertPattern v isWildcard isExact ls n).All P := by
  induction ls generalizing n with
  | nil => exact h.setValues hv isWildcard isExact
  | cons l ls ih =>
    refine h.setChild l.1 (ih ?_)
    cases hc : n.children l.1 with
    | none => exact All.empty
    | some c => exact h.children hc

/-- A walk meets values of the trie only. -/
theorem All.walk (ls : List Label) (h : n.All P) {candidate : Option α}
    (hcand : ∀ v, candidate = some v → P v) :
    (∀ v, (LabelNode.walk ls n candidate).1 = some v → P v) ∧
      ∀ m, (LabelNode.walk ls n candidate).2 = some m → m.All P := by
  induction ls generalizing n candidate with
  | nil => exact ⟨hcand,fun m hm => Option.some.inj hm ▸ h⟩
  | cons l ls ih =>
    rw [LabelNode.walk]
    cases hc : n.children l.1 with
    | none => exact ⟨hcand,fun m hm => by simp at hm⟩
    | some child =>
      have hchild := h.children hc
      refine ih hchild fun v hv => ?_
      split at hv
      · exact hchild.wildcardValue hv
      · exact hcand v hv

end LabelNode

theorem add_all {α : Type} {P : α → Prop} {m m' : Matcher α} {pattern : Str} {v : α}
    (h : add m pattern v = .ok m') (hm : m.All P) (hv : P v) : m'.All P := by
  rw [add] at h
  split at h
  · exact Except.ok.inj h ▸ hm.setValues hv true false
  split at h
  · simp at h
  split at h
  · exact Except.ok.inj h ▸ LabelNode.All.insertPattern hv _ _ _ hm
  split at h
  · exact Except.ok.inj h ▸ LabelNode.All.insertPattern hv _ _ _ hm
  · exact Except.ok.inj h ▸ LabelNode.All.insertPattern hv _ _ _ hm

theorem find_all {α : Type} {P : α → Prop} {m : Matcher α} {domain : Str} {v : α}
    (hm : m.All P) (h : find m domain = some v) : P v := by
  have hnone : ∀ v, (none : Option α) = some v → P v := by simp
  obtain ⟨hcand,hend⟩ := hm.walk (labels domain) hnone
  rw [find] at h
  split at h
  rename_i candidate reached hw
  rw [hw] at hcand hend
  split at h
  · rename_i value hv
    obtain ⟨n,hn,hexact⟩ := Option.bind_eq_some_iff.mp hv
    exact Option.some.inj h ▸ (hend n hn).exactValue hexact
  split at h
  · exact hcand v h
  · exact hm.wildcardValue h

end DomainMatcher
end Enimul
