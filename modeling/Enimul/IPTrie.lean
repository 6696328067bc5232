import Enimul.NetIP

/-! The rule tables for addresses, one binary trie for each family. -/
namespace Enimul
namespace IPTrie

open GoSlice GoText NetIP

inductive BitNode (α : Type)
  | node (children : Bool → Option (BitNode α)) (value : Option α)

namespace BitNode

variable {α : Type}

def children : BitNode α → Bool → Option (BitNode α)
  | .node cs _ => cs

def value : BitNode α → Option α
  | .node _ v => v

def empty : BitNode α := .node (fun _ => none) none

def setChild (n : BitNode α) (b : Bool) (child : BitNode α) : BitNode α :=
  .node (fun c => if c = b then some child else n.children c) n.value

def setValue (n : BitNode α) (v : α) : BitNode α := .node n.children (some v)

/-- Walk along the bits, adding the nodes that are missing, and set the value there. -/
def insertBits (v : α) : List Bool → BitNode α → BitNode α
  | [], n => n.setValue v
  | b::bs, n => n.setChild b (insertBits v bs ((n.children b).getD empty))

/-- The last value on the way down. -/
def findBits : List Bool → BitNode α → Option α → Option α
  | [], n, matched => if n.value.isSome then n.value else matched
  | b::bs, n, matched =>
    let matched := if n.value.isSome then n.value else matched
    match n.children b with
    | none => matched
    | some child => findBits bs child matched

end BitNode

/-- The bits of an IPv4 address or network, or the reason why there are none. -/
def parseIPv4OrCIDR (s : Str) : Except String (List Bool) :=
  match parsePrefix s with
  | some p => if p.addr.is4 then .ok (p.addr.bits.take p.bits) else .error "non-IPv4 mask"
  | none =>
    match parseAddr s with
    | some a => if a.unmap.is4 then .ok a.unmap.bits else .error "invalid IPv4 address"
    | none => .error "invalid IPv4 address or CIDR"

def parseIPv6OrCIDR (s : Str) : Except String (List Bool) :=
  match parsePrefix s with
  | some p =>
    if p.addr.unmap.is4 then .error "non-IPv6 mask" else .ok (p.addr.unmap.bits.take p.bits)
  | none =>
    match parseAddr s with
    | some a => if a.unmap.is4 then .error "invalid IPv6 address" else .ok a.unmap.bits
    | none => .error "invalid IPv6 address or CIDR"

/-- The tries of the two families differ in how they read a rule and an address. -/
structure Family where
  parseRule : Str → Except String (List Bool)
  covers : Addr → Bool

def ipv4 : Family := ⟨parseIPv4OrCIDR,fun a => a.is4⟩

def ipv6 : Family := ⟨parseIPv6OrCIDR,fun a => !a.is4⟩

abbrev Trie (α : Type) := BitNode α

def insert {α : Type} (family : Family) (t : Trie α) (rule : Str) (v : α) :
    Except String (Trie α) :=
  if rule = str "*" then .ok (t.setValue v)
  else
    match family.parseRule rule with
    | .ok bits => .ok (BitNode.insertBits v bits t)
    | .error err => .error err

def find {α : Type} (family : Family) (t : Trie α) (ipStr : Str) : Option α :=
  match parseAddr ipStr with
  | none => none
  | some addr =>
    if family.covers addr.unmap then
      match BitNode.findBits addr.unmap.bits t none with
      | some v => some v
      | none => t.value
    else none

/-- Every value in the trie satisfies `P`. -/
inductive BitNode.All {α : Type} (P : α → Prop) : BitNode α → Prop
  | node {children : Bool → Option (BitNode α)} {value : Option α}
      (below : ∀ b c, children b = some c → All P c) (here : ∀ v, value = some v → P v) :
      All P (.node children value)

namespace BitNode

variable {α : Type} {P : α → Prop} {n : BitNode α}

theorem All.empty : (empty : BitNode α).All P :=
  .node (fun _ _ h => by simp at h) (fun _ h => by simp at h)

theorem All.children (h : n.All P) {b : Bool} {c : BitNode α} (hc : n.children b = some c) :
    c.All P := by
  cases h with
  | node below _ => exact below b c hc

theorem All.value (h : n.All P) {v : α} (hv : n.value = some v) : P v := by
  cases h with
  | node _ here => exact here v hv

theorem All.setValue (h : n.All P) {v : α} (hv : P v) : (n.setValue v).All P :=
  .node (fun _ _ hc => h.children hc) (fun _ hu => Option.some.inj hu ▸ hv)

theorem All.insertBits {v : α} (hv : P v) (bs : List Bool) (h : n.All P) :
    (BitNode.insertBits v bs n).All P := by
  induction bs generalizing n with
  | nil => exact h.setValue hv
  | cons b bs ih =>
    have hchild : ((n.children b).getD BitNode.empty).All P := by
      cases hc : n.children b with
      | none => exact All.empty
      | some c => exact h.children hc
    refine .node (fun c m hm => ?_) (fun _ hu => h.value hu)
    split at hm
    · exact Option.some.inj hm ▸ ih hchild
    · exact h.children hm

theorem All.findBits (bs : List Bool) (h : n.All P) {matched : Option α}
    (hm : ∀ v, matched = some v → P v) {v : α} (hv : BitNode.findBits bs n matched = some v) :
    P v := by
  induction bs generalizing n matched with
  | nil =>
    rw [BitNode.findBits] at hv
    split at hv
    · exact h.value hv
    · exact hm v hv
  | cons b bs ih =>
    have hhere : ∀ u, (if n.value.isSome then n.value else matched) = some u → P u := by
      intro u hu
      split at hu
      · exact h.value hu
      · exact hm u hu
    rw [BitNode.findBits] at hv
    split at hv
    · exact hhere v hv
    · rename_i child hc
      exact ih (h.children hc) hhere hv

end BitNode

theorem insert_all {α : Type} {P : α → Prop} {family : Family} {t t' : Trie α} {rule : Str} {v : α}
    (h : insert family t rule v = .ok t') (ht : t.All P) (hv : P v) : t'.All P := by
  rw [insert] at h
  split at h
  · exact Except.ok.inj h ▸ ht.setValue hv
  split at h
  · exact Except.ok.inj h ▸ BitNode.All.insertBits hv _ ht
  · simp at h

theorem find_all {α : Type} {P : α → Prop} {family : Family} {t : Trie α} {ipStr : Str} {v : α}
    (ht : t.All P) (h : find family t ipStr = some v) : P v := by
  rw [find] at h
  split at h
  · simp at h
  split at h
  · split at h
    · rename_i u hu
      rw [← Option.some.inj h]
      exact ht.findBits _ (by simp) hu
    · exact ht.value h
  · simp at h

end IPTrie
end Enimul
