import Enimul.IPTrie
import Enimul.PathLookup

/-! The address tables as longest-prefix match.
A rule stands for a network. The trie has the values filed under the bits of the networks,
and a lookup walks along the bits of the address. -/
namespace Enimul
namespace IPTrie

open GoSlice GoText NetIP PathLookup

section Words

/-- The two words of an IPv6 address. -/
structure Uint128 where
  hi : BitVec 64
  lo : BitVec 64

def getBit32 (v : BitVec 32) (i : ℕ) : BitVec 32 := (v >>> (31-i)) &&& 1

def getBit128 (v : Uint128) (i : ℕ) : BitVec 64 :=
  if i < 64 then (v.hi >>> (63-i)) &&& 1 else (v.lo >>> (63-(i-64))) &&& 1

def words (b : BitVec 128) : Uint128 := ⟨b.extractLsb' 64 64,b.extractLsb' 0 64⟩

/-- The bits that the loops of the two tries read. -/
def wordBits : Addr → List Bool
  | .invalid => []
  | .v4 b => (List.range 32).map fun i => getBit32 b i = 1
  | .v6 b _ => (List.range 128).map fun i => getBit128 (words b) i = 1

theorem shiftRight_and_one {w : ℕ} (hw : 0 < w) (v : BitVec w) (i : ℕ) :
    ((v >>> i) &&& 1#w) = 1#w ↔ v.getLsbD i = true := by
  constructor
  · intro h
    have hbit := congrArg (fun x => BitVec.getLsbD x 0) h
    simpa [hw] using hbit
  · intro h
    apply BitVec.eq_of_getLsbD_eq
    intro j hj
    by_cases h0 : j = 0
    · subst h0
      simp [h,hw]
    · simp [BitVec.getLsbD_one,h0]

theorem bits_eq_wordBits (a : Addr) : a.bits = wordBits a := by
  cases a with
  | invalid => rfl
  | v4 b =>
    rw [Addr.bits,wordBits]
    apply List.map_congr_left
    intro i hi
    have hlt : i < 32 := List.mem_range.mp hi
    have hbit : getBit32 b i = 1#32 ↔ b.getLsbD (31-i) = true := shiftRight_and_one (by decide) b _
    simp [hbit,BitVec.getMsbD,hlt]
  | v6 b z =>
    rw [Addr.bits,wordBits]
    apply List.map_congr_left
    intro i hi
    have hlt : i < 128 := List.mem_range.mp hi
    have hbit : getBit128 (words b) i = 1#64 ↔ b.getLsbD (127-i) = true := by
      rw [getBit128]
      -- the words meet between bit 63 and bit 64
      split
      · have hword := shiftRight_and_one (by decide) (b.extractLsb' 64 64) (63-i)
        have hplace : 63-i < 64 ∧ 64+(63-i) = 127-i := by omega
        simpa [words,hplace] using hword
      · have hword := shiftRight_and_one (by decide) (b.extractLsb' 0 64) (63-(i-64))
        have hplace : 63-(i-64) = 127-i := by omega
        have hlow : 127-i < 64 := by omega
        simpa [words,hplace,hlow] using hword
    simp [hbit,BitVec.getMsbD,hlt]

end Words

section Mask

variable {w n : ℕ}

theorem getMsbD_maskBits (b : BitVec w) (hn : n ≤ w) (i : ℕ) :
    (maskBits b n).getMsbD i = (decide (i < n) && b.getMsbD i) := by
  rw [maskBits,BitVec.getMsbD_shiftLeft,BitVec.getMsbD_ushiftRight]
  by_cases hi : i < n
  · have hlow : ¬ i+(w-n) < w-n := by omega
    have hhigh : i+(w-n) < w := by omega
    simp [hi,hlow,hhigh]
  · have hhigh : ¬ i+(w-n) < w := by omega
    simp [hi,hhigh]

/-- Two addresses have their first bits in common exactly if they are equal under the mask. -/
theorem take_prefix_iff_maskBits (b c : BitVec w) (hn : n ≤ w) :
    ((List.range w).map b.getMsbD).take n <+: (List.range w).map c.getMsbD ↔
      maskBits b n = maskBits c n := by
  have htake : ∀ f : ℕ → Bool, ((List.range w).map f).take n = (List.range n).map f := by
    intro f
    rw [← List.map_take,List.take_range,Nat.min_eq_left hn]
  rw [List.prefix_iff_eq_take,htake,List.length_map,List.length_range,htake,List.map_inj_left]
  constructor
  · intro h
    apply BitVec.eq_of_getMsbD_eq
    intro i _
    rw [getMsbD_maskBits b hn,getMsbD_maskBits c hn]
    by_cases hi : i < n
    · rw [h i (List.mem_range.mpr hi)]
    · simp [hi]
  · intro h i hi
    have hlt : i < n := List.mem_range.mp hi
    have hbit := congrArg (fun x => BitVec.getMsbD x i) h
    simpa [getMsbD_maskBits _ hn,hlt] using hbit

end Mask

namespace BitNode

variable {α : Type}

def view : View (BitNode α) Bool α := ⟨children,value⟩

theorem view_inserts (v : α) : view.Inserts id empty (some v) (insertBits v) where
  value_empty := rfl
  child_empty _ := rfl
  value_nil _ := rfl
  child_nil _ _ := rfl
  value_cons _ _ _ := rfl
  child_cons _ _ _ _ := rfl

/-- An insertion changes the value under its own bits only. -/
theorem valueAt_insertBits (v : α) (bs q : List Bool) (n : BitNode α) :
    view.valueAt q (insertBits v bs n) = if bs = q then some v else view.valueAt q n := by
  rw [(view_inserts v).valueAt_insert,List.map_id]
  rfl

/-- A lookup ends at the deepest value on its way. -/
theorem findBits_eq_deepest (bs : List Bool) (n : BitNode α) (matched : Option α) :
    findBits bs n matched = deepest (fun q => view.valueAt q n) bs matched := by
  have hor : ∀ value matched : Option α,
      (if value.isSome then value else matched) = value.or matched := by
    intro value matched
    cases value <;> rfl
  induction bs generalizing n matched with
  | nil => exact hor n.value matched
  | cons b bs ih =>
    rw [findBits,hor]
    cases hc : n.children b with
    | none => exact (view.deepest_of_no_child hc bs matched).symm
    | some child => exact (ih child _).trans (view.deepest_of_child hc bs matched).symm

end BitNode

section Networks

/-- The network of one address. Zones play no part in the tables. -/
def hostNet : Addr → Option Prefix
  | .invalid => none
  | .v4 b => some ⟨.v4 b,32,le_rfl,rfl⟩
  | .v6 b _ => some ⟨.v6 b [],128,le_rfl,rfl⟩

def wholeNet (family : Family) : Prefix :=
  if family.covers (.v4 0) then ⟨.v4 0,0,Nat.zero_le _,rfl⟩ else ⟨.v6 0 [],0,Nat.zero_le _,rfl⟩

/-- The network that a rule stands for; none for a text that the table does not take. A
network of IPv4 addresses written as IPv6 addresses belongs to neither table. -/
def ruleNet (family : Family) (rule : Str) : Option Prefix :=
  if rule = str "*" then some (wholeNet family)
  else match parsePrefix rule with
    | some net => if family.covers net.addr ∧ ¬ net.addr.is4In6 then some net else none
    | none => (parseAddr rule).bind fun a => if family.covers a.unmap then hostNet a.unmap else none

/-- The address that is looked up. -/
def lookupAddr (a : Addr) : Addr :=
  match a.unmap with
  | .v6 b _ => .v6 b []
  | a => a

def netBits (net : Prefix) : List Bool := net.addr.bits.take net.bits

def ruleBits (family : Family) (rule : Str) : Option (List Bool) := (ruleNet family rule).map netBits

theorem ruleBits_of_ruleNet {family : Family} {rule : Str} {net : Prefix}
    (h : ruleNet family rule = some net) : ruleBits family rule = some (netBits net) := by
  rw [ruleBits,h,Option.map_some]

theorem length_bits (a : Addr) : a.bits.length = a.bitLen := by
  cases a <;> simp [Addr.bits,Addr.bitLen]

theorem length_netBits (net : Prefix) : (netBits net).length = net.bits := by
  rw [netBits,List.length_take,length_bits,Nat.min_eq_left net.bits_le]

theorem parseAddr_ne_invalid {s : Str} {a : Addr} (h : parseAddr s = some a) : a ≠ .invalid := by
  rintro rfl
  rw [parseAddr] at h
  split at h
  · rw [parseIPv4] at h
    obtain ⟨fields,-,hbad⟩ := Option.map_eq_some_iff.mp h
    simp at hbad
  · rw [parseIPv6] at h
    split at h
    · simp at h
    split at h
    · split at h
      · simp [addrFrom16] at h
      · obtain ⟨ip,-,hbad⟩ := Option.map_eq_some_iff.mp h
        simp [addrFrom16] at hbad
    · obtain ⟨ip,-,hbad⟩ := Option.map_eq_some_iff.mp h
      simp [addrFrom16] at hbad
  · simp at h

theorem unmap_of_not_mapped {a : Addr} (h : a.is4In6 = false) : a.unmap = a := by
  cases a with
  | invalid => rfl
  | v4 b => rfl
  | v6 b z => simp [Addr.unmap,h]

theorem unmap_ne_invalid {a : Addr} (h : a ≠ .invalid) : a.unmap ≠ .invalid := by
  cases a with
  | invalid => exact absurd rfl h
  | v4 b => simp [Addr.unmap]
  | v6 b z =>
    rw [Addr.unmap]
    split <;> simp

theorem netBits_hostNet {a : Addr} (h : a ≠ .invalid) : (hostNet a).map netBits = some a.bits := by
  cases a with
  | invalid => exact absurd rfl h
  | v4 b => simp [hostNet,netBits,Addr.bits]
  | v6 b z => simp [hostNet,netBits,Addr.bits]

theorem hostNet_addr {a : Addr} {net : Prefix} (h : hostNet a = some net) :
    net.addr ≠ .invalid ∧ net.addr.is4 = a.is4 := by
  cases a with
  | invalid => simp [hostNet] at h
  | v4 b =>
    obtain rfl := Option.some.inj h
    exact ⟨by simp,rfl⟩
  | v6 b z =>
    obtain rfl := Option.some.inj h
    exact ⟨by simp,rfl⟩

theorem netBits_wholeNet (family : Family) : netBits (wholeNet family) = [] := by
  rw [wholeNet]
  split <;> rfl

theorem unmap_is4 {a : Addr} : a.unmap.is4 = true ↔ a.is4 = true ∨ a.is4In6 = true := by
  cases a with
  | invalid => simp [Addr.unmap,Addr.is4,Addr.is4In6]
  | v4 b => simp [Addr.unmap,Addr.is4]
  | v6 b z =>
    cases hm : (Addr.v6 b z).is4In6 <;> simp [Addr.unmap,hm,Addr.is4]

theorem not_mapped_of_is4 {a : Addr} (h : a.is4 = true) : a.is4In6 = false := by
  cases a with
  | v4 b => rfl
  | invalid => simp [Addr.is4] at h
  | v6 b z => simp [Addr.is4] at h

variable {family : Family} (hf : family = ipv4 ∨ family = ipv6)
include hf

/-- The bits that a table files a rule under are those of its network. -/
theorem parseRule_eq {rule : Str} (hstar : rule ≠ str "*") :
    (family.parseRule rule).toOption = ruleBits family rule := by
  rw [ruleBits,ruleNet,if_neg hstar]
  cases hp : parsePrefix rule with
  | some net =>
    rcases hf with rfl | rfl
    · by_cases h4 : net.addr.is4 = true
      · simp [ipv4,parseIPv4OrCIDR,hp,h4,not_mapped_of_is4 h4,netBits,Except.toOption]
      · simp [ipv4,parseIPv4OrCIDR,hp,h4,Except.toOption]
    · by_cases h4 : net.addr.unmap.is4 = true
      · have hno : ¬(net.addr.is4 = false ∧ net.addr.is4In6 = false) := by
          rcases unmap_is4.mp h4 with h | h <;> simp [h]
        simp [ipv6,parseIPv6OrCIDR,hp,h4,hno,Except.toOption]
      · obtain ⟨hno,hmapped⟩ := not_or.mp fun h => h4 (unmap_is4.mpr h)
        have hsame := unmap_of_not_mapped (Bool.eq_false_iff.mpr hmapped)
        rw [hsame] at h4
        simp [ipv6,parseIPv6OrCIDR,hp,hsame,h4,hmapped,netBits,Except.toOption]
  | none =>
    cases ha : parseAddr rule with
    | none =>
      rcases hf with rfl | rfl
      · simp [ipv4,parseIPv4OrCIDR,hp,ha,Except.toOption]
      · simp [ipv6,parseIPv6OrCIDR,hp,ha,Except.toOption]
    | some a =>
      have hbits := netBits_hostNet (unmap_ne_invalid (parseAddr_ne_invalid ha))
      rcases hf with rfl | rfl
      · by_cases h4 : a.unmap.is4 = true <;>
          simp [ipv4,parseIPv4OrCIDR,hp,ha,h4,hbits,Except.toOption]
      · by_cases h4 : a.unmap.is4 = true <;>
          simp [ipv6,parseIPv6OrCIDR,hp,ha,h4,hbits,Except.toOption]

theorem insert_ok {α : Type} {rule : Str} {bits : List Bool} (h : ruleBits family rule = some bits)
    (t : Trie α) (v : α) : insert family t rule v = .ok (BitNode.insertBits v bits t) := by
  by_cases hstar : rule = str "*"
  · rw [ruleBits,ruleNet,if_pos hstar,Option.map_some,netBits_wholeNet] at h
    obtain rfl := Option.some.inj h
    rw [insert,if_pos hstar]
    rfl
  · rw [← parseRule_eq hf hstar] at h
    rw [insert,if_neg hstar]
    cases hr : family.parseRule rule with
    | error err => simp [hr,Except.toOption] at h
    | ok found =>
      obtain rfl : found = bits := by simpa [hr,Except.toOption] using h
      rfl

theorem insert_error {α : Type} {rule : Str} (h : ruleBits family rule = none) (t : Trie α) (v : α) :
    ∃ err, insert family t rule v = .error err := by
  by_cases hstar : rule = str "*"
  · rw [ruleBits,ruleNet,if_pos hstar] at h
    simp at h
  · rw [← parseRule_eq hf hstar] at h
    rw [insert,if_neg hstar]
    cases hr : family.parseRule rule with
    | error err => exact ⟨err,rfl⟩
    | ok found => simp [hr,Except.toOption] at h

end Networks

section Lookup

variable {α : Type} {family : Family} {log : List (Str × α)}

/-- A failing insertion returns before it touches the trie. -/
def insertOrSkip (family : Family) (t : Trie α) (e : Str × α) : Trie α :=
  match insert family t e.1 e.2 with
  | .ok t' => t'
  | .error _ => t

def insertAll (family : Family) (log : List (Str × α)) : Trie α :=
  log.foldl (insertOrSkip family) BitNode.empty

theorem insertAll_concat (family : Family) (log : List (Str × α)) (e : Str × α) :
    insertAll family (log++[e]) = insertOrSkip family (insertAll family log) e := by
  rw [insertAll,List.foldl_append]
  rfl

/-- The trie has under some bits what was last inserted for them. -/
theorem valueAt_insertAll (hf : family = ipv4 ∨ family = ipv6) (log : List (Str × α))
    (bits : List Bool) :
    BitNode.view.valueAt bits (insertAll family log) = filed (ruleBits family) log bits := by
  induction log using List.reverseRecOn with
  | nil => cases bits <;> rfl
  | append_singleton log e ih =>
    rw [insertAll_concat,insertOrSkip,filed_concat]
    cases hr : ruleBits family e.1 with
    | none =>
      obtain ⟨err,herr⟩ := insert_error hf hr (insertAll family log) e.2
      rw [herr,if_neg (by simp)]
      exact ih
    | some found =>
      rw [insert_ok hf hr]
      dsimp only
      rw [BitNode.valueAt_insertBits,ih]
      simp only [Option.some.injEq]

theorem find_eq_deepest {ipStr : Str} {a : Addr} (ha : parseAddr ipStr = some a)
    (hcovers : family.covers a.unmap = true) (t : Trie α) :
    find family t ipStr = deepest (fun q => BitNode.view.valueAt q t) a.unmap.bits none := by
  rw [find,ha]
  dsimp only
  rw [if_pos hcovers,BitNode.findBits_eq_deepest]
  cases hd : deepest (fun q => BitNode.view.valueAt q t) a.unmap.bits none with
  | some v => rfl
  | none => exact deepest_eq_none.mp hd [] (List.nil_prefix)

/-- A network has an address exactly if its bits are the first bits of the address. -/
theorem contains_iff_bits {net : Prefix} {a : Addr} (hnet : net.addr ≠ .invalid)
    (ha : a ≠ .invalid) (hzone : a.zone = []) (hsame : net.addr.is4 = a.is4) :
    net.contains a = true ↔ netBits net <+: a.bits := by
  have hle := net.bits_le
  match hn : net.addr,a with
  | .invalid,_ => exact absurd hn hnet
  | _,.invalid => exact absurd rfl ha
  | .v4 _,.v6 _ _ => simp [hn,Addr.is4] at hsame
  | .v6 _ _,.v4 _ => simp [hn,Addr.is4] at hsame
  | .v4 b,.v4 c =>
    rw [hn] at hle
    have hcontains : net.contains (.v4 c) =
        decide (maskBits b net.bits = maskBits c net.bits) := by
      simp only [Prefix.contains,hn]
    rw [hcontains,decide_eq_true_iff,netBits,hn]
    exact (take_prefix_iff_maskBits b c hle).symm
  | .v6 b _,.v6 c zone =>
    rw [hn] at hle
    have hnil : zone = [] := hzone
    have hcontains : net.contains (.v6 c zone) =
        decide (maskBits b net.bits = maskBits c net.bits) := by
      simp only [Prefix.contains,hn,hnil,true_and]
    rw [hcontains,decide_eq_true_iff,netBits,hn]
    exact (take_prefix_iff_maskBits b c hle).symm

theorem contains_iff_prefix {net : Prefix} {a : Addr} (hnet : net.addr ≠ .invalid)
    (ha : a.unmap ≠ .invalid) (hsame : net.addr.is4 = a.unmap.is4) :
    net.contains (lookupAddr a) = true ↔ netBits net <+: a.unmap.bits := by
  unfold lookupAddr
  cases hu : a.unmap with
  | invalid => exact absurd hu ha
  | v4 b =>
    rw [hu] at hsame
    exact contains_iff_bits hnet (by simp) rfl hsame
  | v6 b zone =>
    rw [hu] at hsame
    exact contains_iff_bits (a := .v6 b []) hnet (by simp) rfl hsame

theorem parsePrefix_ne_invalid {s : Str} {net : Prefix} (h : parsePrefix s = some net) :
    net.addr ≠ .invalid := by
  obtain ⟨i,-,h⟩ := Option.bind_eq_some_iff.mp h
  obtain ⟨ip,hip,h⟩ := Option.bind_eq_some_iff.mp h
  dsimp only at h
  split at h
  · simp at h
  obtain ⟨bits,-,h⟩ := Option.bind_eq_some_iff.mp h
  split at h
  · obtain rfl := Option.some.inj h
    exact parseAddr_ne_invalid hip
  · simp at h

theorem ruleNet_covered (hf : family = ipv4 ∨ family = ipv6) {rule : Str} {net : Prefix}
    (h : ruleNet family rule = some net) :
    net.addr ≠ .invalid ∧ family.covers net.addr = true := by
  rw [ruleNet] at h
  split at h
  · obtain rfl := Option.some.inj h
    rcases hf with rfl | rfl
    · exact ⟨by simp [wholeNet,ipv4,Addr.is4],rfl⟩
    · exact ⟨by simp [wholeNet,ipv6,Addr.is4],rfl⟩
  split at h
  · rename_i net' hp
    split at h
    · rename_i hcovers
      obtain rfl := Option.some.inj h
      exact ⟨parsePrefix_ne_invalid hp,hcovers.1⟩
    · simp at h
  · obtain ⟨a,ha,h⟩ := Option.bind_eq_some_iff.mp h
    split at h
    · rename_i hcovers
      obtain ⟨hvalid,hsame⟩ := hostNet_addr h
      refine ⟨hvalid,?_⟩
      rcases hf with rfl | rfl <;> simpa [ipv4,ipv6,hsame] using hcovers
    · simp at h

/-- The rules of one table and the addresses that it looks up are of one family. -/
theorem contains_iff_ruleBits (hf : family = ipv4 ∨ family = ipv6) {rule ipStr : Str} {a : Addr}
    {net : Prefix} (hnet : ruleNet family rule = some net) (ha : parseAddr ipStr = some a)
    (hcovers : family.covers a.unmap = true) :
    net.contains (lookupAddr a) = true ↔ netBits net <+: a.unmap.bits := by
  obtain ⟨hvalid,hcovered⟩ := ruleNet_covered hf hnet
  apply contains_iff_prefix hvalid (unmap_ne_invalid (parseAddr_ne_invalid ha))
  rcases hf with rfl | rfl
  · exact hcovered.trans hcovers.symm
  · simpa [ipv6] using hcovered.trans hcovers.symm

/-- What is said of the bits on the way to an address is said of the networks around it. -/
theorem forall_ruleBits_iff (hf : family = ipv4 ∨ family = ipv6) {ipStr : Str} {a : Addr}
    (ha : parseAddr ipStr = some a) (hcovers : family.covers a.unmap = true) (es : List (Str × α))
    (P : ℕ → Prop) :
    (∀ e ∈ es, ∀ q, ruleBits family e.1 = some q → q <+: a.unmap.bits → P q.length) ↔
      ∀ e ∈ es, ∀ net, ruleNet family e.1 = some net → net.contains (lookupAddr a) = true →
        P net.bits := by
  constructor
  · intro h e he net hnet hcontains
    have hpath := (contains_iff_ruleBits hf hnet ha hcovers).mp hcontains
    exact length_netBits net ▸ h e he _ (ruleBits_of_ruleNet hnet) hpath
  · intro h e he q hq hpath
    obtain ⟨net,hnet,rfl⟩ := Option.map_eq_some_iff.mp hq
    rw [length_netBits]
    exact h e he net hnet ((contains_iff_ruleBits hf hnet ha hcovers).mpr hpath)

theorem insert_error_iff (hf : family = ipv4 ∨ family = ipv6) (t : Trie α) (rule : Str) (v : α) :
    ruleNet family rule = none ↔ ∃ err, insert family t rule v = .error err := by
  constructor
  · exact fun h => insert_error hf (by rw [ruleBits,h,Option.map_none]) t v
  · rintro ⟨err,herr⟩
    cases hnet : ruleNet family rule with
    | none => rfl
    | some net =>
      rw [insert_ok hf (ruleBits_of_ruleNet hnet)] at herr
      simp at herr

/-- The rule that counts is the last one among those with the longest network around the
address. The rules that a table refuses play no part. -/
theorem find_longest_network (hf : family = ipv4 ∨ family = ipv6) (log : List (Str × α))
    {ipStr : Str} {a : Addr} (ha : parseAddr ipStr = some a)
    (hcovers : family.covers a.unmap = true) :
    (∀ v, find family (insertAll family log) ipStr = some v ↔
      ∃ before rule after net, log = before++(rule,v)::after ∧ ruleNet family rule = some net ∧
        net.contains (lookupAddr a) = true ∧
        (∀ e ∈ before, ∀ other, ruleNet family e.1 = some other →
          other.contains (lookupAddr a) = true → other.bits ≤ net.bits) ∧
        ∀ e ∈ after, ∀ other, ruleNet family e.1 = some other →
          other.contains (lookupAddr a) = true → other.bits < net.bits) ∧
    (find family (insertAll family log) ipStr = none ↔
      ∀ e ∈ log, ∀ net, ruleNet family e.1 = some net → ¬ net.contains (lookupAddr a) = true) ∧
    (∀ (t : Trie α) rule v, ruleNet family rule = none ↔ ∃ err, insert family t rule v = .error err) ∧
    (∀ rule v, ruleNet family rule = none →
      insertAll family (log++[(rule,v)]) = insertAll family log) ∧
    ∀ b : Addr, b.bits = wordBits b := by
  have hfind : find family (insertAll family log) ipStr =
      deepest (filed (ruleBits family) log) a.unmap.bits none := by
    rw [find_eq_deepest ha hcovers]
    exact congrArg (deepest · _ _) (funext (valueAt_insertAll hf log))
  have hall := forall_ruleBits_iff (α := α) hf ha hcovers
  refine ⟨fun v => ?_,?_,insert_error_iff hf,fun rule v hnone => ?_,bits_eq_wordBits⟩
  · rw [hfind,deepest_filed_eq_some]
    constructor
    · rintro ⟨before,rule,after,q,hlog,hq,hpath,hbefore,hafter⟩
      obtain ⟨net,hnet,rfl⟩ := Option.map_eq_some_iff.mp hq
      rw [length_netBits] at hbefore hafter
      have hcontains := (contains_iff_ruleBits hf hnet ha hcovers).mpr hpath
      exact ⟨before,rule,after,net,hlog,hnet,hcontains,(hall before (· ≤ net.bits)).mp hbefore,
        (hall after (· < net.bits)).mp hafter⟩
    · rintro ⟨before,rule,after,net,hlog,hnet,hcontains,hbefore,hafter⟩
      have hpath := (contains_iff_ruleBits hf hnet ha hcovers).mp hcontains
      refine ⟨before,rule,after,netBits net,hlog,ruleBits_of_ruleNet hnet,hpath,?_,?_⟩
      · rw [length_netBits]
        exact (hall before (· ≤ net.bits)).mpr hbefore
      · rw [length_netBits]
        exact (hall after (· < net.bits)).mpr hafter
  · rw [hfind,deepest_filed_eq_none]
    exact hall log fun _ => False
  · obtain ⟨err,herr⟩ := (insert_error_iff hf (insertAll family log) rule v).mp hnone
    rw [insertAll_concat,insertOrSkip]
    simp only [herr]

/-- The rules for 10.1.0.0/16 are written with and without host bits, the later one counts. -/
theorem find_longest_network_mapped :
    let log := [(str "10.1.0.9/16",1),(str "10.1.0.0/16",2),(str "*",3),(str "10.0.0.0/8",4),
      (str "::/0",5)]
    find ipv4 (insertAll ipv4 log) (str "::ffff:10.1.2.3") = some 2 ∧
    ∃ before rule after net, log = before++(rule,2)::after ∧ ruleNet ipv4 rule = some net ∧
      net.contains (.v4 0x0a010203) = true ∧
      (∀ e ∈ before, ∀ other, ruleNet ipv4 e.1 = some other →
        other.contains (.v4 0x0a010203) = true → other.bits ≤ net.bits) ∧
      ∀ e ∈ after, ∀ other, ruleNet ipv4 e.1 = some other →
        other.contains (.v4 0x0a010203) = true → other.bits < net.bits := by
  intro log
  have ha : parseAddr (str "::ffff:10.1.2.3") = some (.v6 0xffff0a010203 []) := by decide
  have hfound : find ipv4 (insertAll ipv4 log) (str "::ffff:10.1.2.3") = some 2 := by decide
  exact ⟨hfound,((find_longest_network (.inl rfl) log ha (by decide)).1 2).mp hfound⟩

end Lookup

end IPTrie
end Enimul
