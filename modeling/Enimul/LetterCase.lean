import Enimul.GenPolicy
import Enimul.LoadOrder

/-! Texts that differ in the case of letters.
Addresses are read without regard to the case of their digits, so a lookup by address gives the
same value. The labels of a name keep their case, and two names that differ in it have different
paths. -/
namespace Enimul

namespace GoText

open GoSlice

/-- The text with its ASCII letters in lower case. -/
def lower (s : Str) : Str := s.map lowerByte

/-- The texts differ in the case of ASCII letters only. -/
def CaseEq (s₁ s₂ : Str) : Prop := lower s₁ = lower s₂

instance (s₁ s₂ : Str) : Decidable (CaseEq s₁ s₂) := inferInstanceAs (Decidable (_ = _))

@[simp] theorem lower_cons (b : UInt8) (s : Str) : lower (b::s) = lowerByte b::lower s := rfl

theorem lowerByte_eq_iff {b c : UInt8} (hc : c < 65) : lowerByte b = c ↔ b = c := by
  rw [lowerByte]
  split
  · rename_i hb
    simp only [UInt8.le_iff_toNat_le,UInt8.lt_iff_toNat_lt,← UInt8.toNat_inj,UInt8.toNat_add,
      UInt8.reduceToNat] at *
    omega
  · exact Iff.rfl

theorem lowerByte_eq_dot {b : UInt8} : lowerByte b = 46 ↔ b = 46 := lowerByte_eq_iff (by decide)

theorem lowerByte_eq_colon {b : UInt8} : lowerByte b = 58 ↔ b = 58 := lowerByte_eq_iff (by decide)

theorem lower_eq_nil {s : Str} : lower s = [] ↔ s = [] := List.map_eq_nil_iff

theorem lower_lower (s : Str) : lower (lower s) = lower s := by
  simp [lower,lowerByte_lowerByte]

theorem caseEq_lower (s : Str) : CaseEq (lower s) s := lower_lower s

theorem mem_lower {s : Str} {c : UInt8} (hc : c < 65) : c ∈ lower s ↔ c ∈ s := by
  simp [lower,lowerByte_eq_iff hc]

theorem length_lower (s : Str) : (lower s).length = s.length := List.length_map _

theorem drop_lower (n : ℕ) (s : Str) : (lower s).drop n = lower (s.drop n) := List.map_drop.symm

theorem takeWhile_lower {p : UInt8 → Bool} (hp : ∀ c, p (lowerByte c) = p c) (s : Str) :
    (lower s).takeWhile p = lower (s.takeWhile p) := by
  rw [lower,List.takeWhile_map]
  congr 2
  exact funext hp

theorem contains_lower {c : UInt8} (hc : c < 65) (s : Str) :
    contains (lower s) c = contains s c := by
  simp [contains,lower,Function.comp_def,lowerByte_eq_iff hc]

theorem hasPrefix_lower {start : Str} (hstart : ∀ c ∈ start, c < 65) (s : Str) :
    hasPrefix (lower s) start = hasPrefix s start := by
  induction start generalizing s with
  | nil => simp [hasPrefix]
  | cons c start ih =>
    cases s with
    | nil => rfl
    | cons b s =>
      have hb := lowerByte_eq_iff (b := b) (hstart c (by simp))
      have hrest := ih (fun x hx => hstart x (by simp [hx])) s
      rw [hasPrefix,hasPrefix] at hrest
      rw [lower_cons,hasPrefix,hasPrefix,List.isPrefixOf_cons_cons,List.isPrefixOf_cons_cons,hrest]
      congr 1
      rw [Bool.eq_iff_iff,beq_iff_eq,beq_iff_eq,eq_comm,hb,eq_comm]

namespace CaseEq

variable {s₁ s₂ : Str}

theorem length_eq (h : CaseEq s₁ s₂) : s₁.length = s₂.length := by
  rw [← length_lower,h,length_lower]

theorem ne_nil (h : CaseEq s₁ s₂) (hne : s₁ ≠ s₂) : s₁ ≠ [] := by
  rintro rfl
  exact hne (List.length_eq_zero_iff.mp h.length_eq.symm).symm

theorem notMem (h : CaseEq s₁ s₂) {c : UInt8} (hc : c < 65) (hs : c ∉ s₁) : c ∉ s₂ := by
  rwa [← mem_lower hc,← h,mem_lower hc]

/-- A separator cuts both texts at the same place. -/
theorem append {a x : Str} {c : UInt8} (hc : c < 65) (h : CaseEq (a++c::x) s₂) :
    ∃ a' x', s₂ = a'++c::x' ∧ CaseEq a a' ∧ CaseEq x x' := by
  have hlower : lower s₂ = lower a++lowerByte c::lower x := by
    rw [← h]
    simp [lower]
  obtain ⟨a',rest,rfl,ha,hrest⟩ := List.map_eq_append_iff.mp hlower
  obtain ⟨b,x',rfl,hb,hx⟩ := List.map_eq_cons_iff.mp hrest
  rw [(lowerByte_eq_iff hc).mpr rfl,lowerByte_eq_iff hc] at hb
  exact ⟨a',x',by rw [hb],ha.symm,hx.symm⟩

end CaseEq

end GoText

namespace NetIP

open GoSlice GoText

theorem isDigit_lowerByte (c : UInt8) : isDigit (lowerByte c) = isDigit c := by
  rw [lowerByte]
  split
  · rename_i hb
    simp only [isDigit,UInt8.le_iff_toNat_le,UInt8.toNat_add,UInt8.reduceToNat] at *
    rw [decide_eq_decide]
    omega
  · rfl

theorem lowerByte_of_isDigit {c : UInt8} (h : isDigit c = true) : lowerByte c = c := by
  rw [lowerByte,if_neg]
  simp only [isDigit,decide_eq_true_eq,UInt8.le_iff_toNat_le,UInt8.reduceToNat] at *
  omega

theorem hexValue_lowerByte (c : UInt8) : hexValue (lowerByte c) = hexValue c := by
  rw [lowerByte]
  split
  · rename_i hb
    simp only [hexValue,UInt8.le_iff_toNat_le,UInt8.toNat_add,UInt8.reduceToNat] at *
    have hlt : c.toNat+32 < 256 := by omega
    rw [Nat.mod_eq_of_lt hlt]
    split_ifs <;> first | omega | rfl
  · rfl

theorem isHex_lowerByte (c : UInt8) : isHex (lowerByte c) = isHex c := by
  rw [isHex,isHex,hexValue_lowerByte]

theorem parseOctets_lower (s : Str) (val digLen : ℕ) (fields : List ℕ) :
    parseOctets (lower s) val digLen fields = parseOctets s val digLen fields := by
  induction s generalizing val digLen fields with
  | nil => rfl
  | cons c rest ih =>
    rw [lower_cons,parseOctets,parseOctets,isDigit_lowerByte]
    cases hd : isDigit c with
    | true => simp only [lowerByte_of_isDigit hd,if_true,ih]
    | false => simp only [Bool.false_eq_true,if_false,lowerByte_eq_dot,lower_eq_nil,ih]

/-- The unread text is in lower case, the rest is the same. -/
def Groups.lower : Groups → Groups
  | (s,ip,ellipsis) => (GoText.lower s,ip,ellipsis)

theorem parseIPv4Fields_lower (s : Str) : parseIPv4Fields (lower s) = parseIPv4Fields s :=
  parseOctets_lower s 0 0 []

theorem parseGroups_lower (rounds : ℕ) (s : Str) (ip : List ℕ) (ellipsis : Option ℕ) :
    parseGroups rounds (lower s) ip ellipsis =
      (parseGroups rounds s ip ellipsis).map Groups.lower := by
  induction rounds generalizing s ip ellipsis with
  | zero => rfl
  | succ rounds ih =>
    have hacc : ∀ (ds : Str) (n : ℕ), (lower ds).foldl (fun n c => n*16+(hexValue c).getD 0) n =
        ds.foldl (fun n c => n*16+(hexValue c).getD 0) n := by
      intro ds n
      rw [lower,List.foldl_map]
      simp only [hexValue_lowerByte]
    rw [parseGroups,parseGroups]
    dsimp only
    rw [takeWhile_lower isHex_lowerByte,length_lower,hacc,drop_lower]
    split
    · rfl
    · cases s.drop (s.takeWhile isHex).length with
      | nil => rfl
      | cons c rest =>
        rw [lower_cons]
        dsimp only
        rw [parseIPv4Fields_lower]
        simp only [lowerByte_eq_dot,ne_eq,lowerByte_eq_colon]
        by_cases hdot : c = 46
        · rw [if_pos hdot,if_pos hdot]
          split
          · rfl
          · cases parseIPv4Fields s <;> rfl
        rw [if_neg hdot,if_neg hdot]
        by_cases hcolon : c = 58
        · rw [if_neg (not_not.mpr hcolon),if_neg (not_not.mpr hcolon)]
          cases rest with
          | nil => rfl
          | cons d more =>
            rw [lower_cons]
            dsimp only
            simp only [lowerByte_eq_colon,lower_eq_nil,← lower_cons,ih]
            split_ifs <;> rfl
        · rw [if_pos hcolon,if_pos hcolon]
          rfl

theorem expandGroups_lower (g : Groups) : expandGroups g.lower = expandGroups g := by
  rcases g with ⟨s,ip,ellipsis⟩
  cases s <;> rfl

/-- The address with its zone in lower case. -/
def Addr.lowerZone : Addr → Addr
  | .v6 b zone => .v6 b (lower zone)
  | a => a

theorem readGroups_lower (s : Str) (ellipsis : Option ℕ) (zone : Str) :
    ((parseGroups 8 (lower s) [] ellipsis).bind expandGroups).map (addrFrom16 · (lower zone)) =
      (((parseGroups 8 s [] ellipsis).bind expandGroups).map (addrFrom16 · zone)).map
        Addr.lowerZone := by
  rw [parseGroups_lower,Option.bind_map,Option.map_map]
  cases parseGroups 8 s [] ellipsis with
  | none => rfl
  | some g =>
    rw [Option.bind_some,Option.bind_some,Function.comp_apply,expandGroups_lower]
    rfl

theorem parseIPv6_lower (s : Str) : parseIPv6 (lower s) = (parseIPv6 s).map Addr.lowerZone := by
  have hbody : (lower s).takeWhile (fun c => c ≠ 37) = lower (s.takeWhile fun c => c ≠ 37) :=
    takeWhile_lower (fun c => by simp [lowerByte_eq_iff (b := c) (c := 37) (by decide)]) s
  have hcolons : ∀ a : Str, hasPrefix (lower a) (str "::") = hasPrefix a (str "::") :=
    hasPrefix_lower (by simp [str])
  rw [parseIPv6,parseIPv6]
  simp only [hbody,length_lower,drop_lower,contains_lower (c := 37) (by decide),lower_eq_nil,
    hcolons,readGroups_lower]
  split_ifs <;> rfl

theorem parseAddr_lower (s : Str) : parseAddr (lower s) = (parseAddr s).map Addr.lowerZone := by
  have hsep : ∀ c, isSeparator (lowerByte c) = isSeparator c := fun c => by
    simp [isSeparator,lowerByte_eq_iff (b := c)]
  have hfind : (lower s).find? isSeparator = (s.find? isSeparator).map lowerByte := by
    rw [lower,List.find?_map]
    congr 2
    exact funext hsep
  rw [parseAddr,parseAddr,hfind]
  cases hs : s.find? isSeparator with
  | none => rfl
  | some c =>
    have hc : isSeparator c = true := List.find?_some hs
    simp only [isSeparator,decide_eq_true_eq] at hc
    rcases hc with rfl | rfl | rfl
    · change parseIPv4 (lower s) = (parseIPv4 s).map _
      rw [parseIPv4,parseIPv4,parseIPv4Fields_lower]
      cases parseIPv4Fields s <;> rfl
    · exact parseIPv6_lower s
    · rfl

theorem isIPLiteral_lower (s : Str) : isIPLiteral (lower s) = isIPLiteral s := by
  rw [isIPLiteral,isIPLiteral,parseAddr_lower]
  cases parseAddr s with
  | none => rfl
  | some a =>
    cases a with
    | v6 b zone => cases zone <;> rfl
    | _ => rfl

end NetIP

namespace IPTrie

open GoText NetIP

theorem unmap_lowerZone (a : Addr) : a.lowerZone.unmap = a.unmap.lowerZone := by
  cases a with
  | v6 b zone =>
    change (if (Addr.v6 b zone).is4In6 then Addr.v4 (b.setWidth 32) else .v6 b (lower zone)) =
      (if (Addr.v6 b zone).is4In6 then Addr.v4 (b.setWidth 32) else .v6 b zone).lowerZone
    cases (Addr.v6 b zone).is4In6 <;> rfl
  | _ => rfl

theorem bits_lowerZone (a : Addr) : a.lowerZone.bits = a.bits := by cases a <;> rfl

theorem is4_lowerZone (a : Addr) : a.lowerZone.is4 = a.is4 := by cases a <;> rfl

theorem find_lower {α : Type} {family : Family} (hf : family = ipv4 ∨ family = ipv6) (t : Trie α)
    (ip : Str) : find family t (lower ip) = find family t ip := by
  have hcovers : ∀ a : Addr, family.covers a.lowerZone = family.covers a := fun a => by
    rcases hf with rfl | rfl
    · exact is4_lowerZone a
    · exact congrArg (!·) (is4_lowerZone a)
  rw [find,find,parseAddr_lower]
  cases parseAddr ip with
  | none => rfl
  | some a => simp only [Option.map_some,unmap_lowerZone,bits_lowerZone,hcovers]

end IPTrie

namespace GenPolicy

open GoText NetIP Policies GoRun Resolve

variable {σ : Type}

theorem transformIP_lower (ip net : Str) : transformIP (lower ip) net = transformIP ip net := by
  rw [transformIP,transformIP,parseAddr_lower]
  cases parseAddr ip with
  | none => rfl
  | some a =>
    cases parsePrefix net with
    | none => cases a <;> rfl
    | some target =>
      dsimp only [Option.map_some]
      cases a <;> cases target.masked <;> rfl

theorem getIPPolicy_lower (t : Tables) (ip : Str) :
    getIPPolicy t (lower ip) = getIPPolicy t ip := by
  rw [getIPPolicy,getIPPolicy,isIPv6,contains_lower (by decide),← isIPv6,
    IPTrie.find_lower (.inl rfl),IPTrie.find_lower (.inr rfl)]

/-- The blocked flag and the policy of a result. -/
def Decision.result : Decision → Bool × Option Policy
  | .blocked => (true,none)
  | .routed _ p => (false,some p)
  | _ => (false,none)

theorem checkBlock_result (d₁ d₂ : Str) (p : Policy) :
    (checkBlock d₁ p).result = (checkBlock d₂ p).result := by
  rw [checkBlock,checkBlock]
  split <;> rfl

theorem redirectTarget_lower (w : World σ) (ip : Str) (policy : Policy) (s : σ) :
    (redirectTarget w (lower ip) policy s).1.map (fun _ => ()) =
      (redirectTarget w ip policy s).1.map fun _ => () := by
  rw [redirectTarget,redirectTarget,transformIP_lower]
  split_ifs <;> rfl

/-- The address may come back in the letters it was given in; all else is the same. -/
theorem ipRedirect_lower (t : Tables) (w : World σ) (ip : Str) (s : σ) :
    (ipRedirect t w (lower ip) s).1.map Prod.snd = (ipRedirect t w ip s).1.map Prod.snd := by
  rw [ipRedirect,ipRedirect,getIPPolicy_lower]
  cases getIPPolicy t ip with
  | none => rfl
  | some policy =>
    have htarget := redirectTarget_lower w ip policy s
    dsimp only
    rcases h₁ : redirectTarget w (lower ip) policy s with ⟨_ | _,s₁⟩ <;>
      rcases h₂ : redirectTarget w ip policy s with ⟨_ | _,s₂⟩ <;> rw [h₁,h₂] at htarget <;>
      cases htarget
    · rw [bind_of_error h₁,bind_of_error h₂]
    · rw [bind_of_ok h₁,bind_of_ok h₂]
      rfl

theorem genIPPolicy_lower (t : Tables) (w : World σ) (req : Request) (s : σ) :
    (genIPPolicy t w {req with originHost := lower req.originHost} s).1.result =
      (genIPPolicy t w req s).1.result := by
  have hredirect := ipRedirect_lower t w req.originHost s
  rw [genIPPolicy,genIPPolicy]
  dsimp only
  rcases h₁ : ipRedirect t w (lower req.originHost) s with ⟨_ | ⟨d₁,policy⟩,s₁⟩ <;>
    rcases h₂ : ipRedirect t w req.originHost s with ⟨_ | ⟨d₂,policy'⟩,s₂⟩ <;>
    rw [h₁,h₂] at hredirect <;> cases hredirect
  exact checkBlock_result d₁ d₂ (effective t policy.toList)

end GenPolicy

namespace DomainMatcher

open GoSlice GoText

variable {s d : Str}

theorem path_nil : path [] = [] := rfl

theorem path_append_dot {x : Str} (hx : 46 ∉ x) (a : Str) : path (a++46::x) = x::path a := by
  rw [path,labels_append_dot hx,List.map_cons,← path]

theorem path_undotted (hs : 46 ∉ s) : path s = if s = [] then [] else [s] := by
  split
  · rename_i hnil
    rw [hnil,path_nil]
  · rename_i hne
    rw [path,labels_undotted hs hne]
    rfl

theorem above_prefix_path (s : Str) : above s <+: path s := by
  obtain ⟨rest,hshape,-⟩ := labels_shape s
  rw [path,hshape,List.map_append,List.map_map]
  exact ⟨rest.map Prod.fst,by simp [Function.comp_def]⟩

/-- All labels of a name are above a name in front of which there is a dot. -/
theorem path_prefix_above (s : Str) : path s <+: above (46::s) := by
  induction s using dotInduction with
  | undotted x hx =>
    have habove : above (46::x) = [x] := above_append_dot hx []
    rw [habove,path_undotted hx]
    split
    · exact List.nil_prefix
    · exact List.prefix_refl _
  | dot a x hx ih =>
    have habove : above (46::(a++46::x)) = x::above (46::a) := above_append_dot hx (46::a)
    rw [habove,path_append_dot hx]
    exact List.cons_prefix_cons.mpr ⟨rfl,ih⟩

theorem length_path_of_caseEq (h : CaseEq s d) : (path s).length = (path d).length := by
  induction s using dotInduction generalizing d with
  | undotted x hx =>
    have hnil : x = [] ↔ d = [] := by
      rw [← List.length_eq_zero_iff,← List.length_eq_zero_iff,h.length_eq]
    rw [path_undotted hx,path_undotted (h.notMem (by decide) hx)]
    simp only [hnil]
    split <;> rfl
  | dot a x hx ih =>
    obtain ⟨a',x',rfl,ha,hx'⟩ := h.append (by decide)
    rw [path_append_dot hx,path_append_dot (hx'.notMem (by decide) hx),List.length_cons,
      List.length_cons,ih ha]

theorem eq_of_path_of_caseEq (h : CaseEq s d) (hpath : path s = path d) : s = d := by
  induction s using dotInduction generalizing d with
  | undotted x hx =>
    rw [path_undotted hx,path_undotted (h.notMem (by decide) hx)] at hpath
    have hnil : x = [] ↔ d = [] := by
      rw [← List.length_eq_zero_iff,← List.length_eq_zero_iff,h.length_eq]
    by_cases hx' : x = []
    · rw [hx',hnil.mp hx']
    · rw [if_neg hx',if_neg (mt hnil.mpr hx')] at hpath
      exact List.singleton_inj.mp hpath
  | dot a x hx ih =>
    obtain ⟨a',x',rfl,ha,hx'⟩ := h.append (by decide)
    rw [path_append_dot hx,path_append_dot (hx'.notMem (by decide) hx)] at hpath
    obtain ⟨rfl,htail⟩ := List.cons.inj hpath
    rw [ih ha htail]

/-- Two names that differ in the case of letters do not lie on one path. -/
theorem eq_of_prefix_of_caseEq {l : List Str} (h : CaseEq s d) (hs : path s <+: l)
    (hd : path d <+: l) : s = d := by
  have hlen := length_path_of_caseEq h
  have hpre := List.prefix_of_prefix_length_le hs hd hlen.le
  exact eq_of_path_of_caseEq h (hpre.eq_of_length hlen)

end DomainMatcher
end Enimul
