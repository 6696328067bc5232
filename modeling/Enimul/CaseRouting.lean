import Enimul.LetterCase
import Enimul.TunnelStream

/-! What the case of a server name changes.
A rule is stored and looked up in the letters it was written in. A name is therefore routed like
the same name in other letters only if it is an address, and a pattern with capital letters is a
pattern for other names. -/
namespace Enimul

namespace DomainMatcher

open GoSlice GoText PathLookup

variable {α : Type} {p s d : Str} {isWildcard isExact : Bool}

/-- The pattern says something about the name. -/
def Matches (p d : Str) : Prop :=
  key .exact p = some (path d) ∨ ∃ q, key .wildcard p = some q ∧ q <+: above d

theorem find_single_eq_none (p : Str) (v : α) (d : Str) :
    find (addAll [(p,v)]) d = none ↔ ¬ Matches p d := by
  rw [find_addAll_eq,Option.or_eq_none_iff,filed_eq_none,deepest_eq_none,Matches,not_or,not_exists]
  simp only [List.mem_singleton,forall_eq,filed_eq_none]
  refine and_congr Iff.rfl ⟨fun h q hq => h q hq.2 hq.1,fun h q hq hk => h q ⟨hk,hq⟩⟩

theorem find_of_key (hk : key .exact p = some (path d)) (v : α) :
    find (addAll [(p,v)]) d = some v := by
  have hfiled : filed (key .exact) ([]++[(p,v)]) (path d) = some v := by
    rw [filed_concat,if_pos hk]
  rw [find_addAll_eq]
  exact congrArg (Option.or · _) hfiled

section Placed

variable (hp : place p = some ⟨labels s,isWildcard,isExact⟩)
include hp

theorem key_of_place (slot : Slot) :
    key slot p = if slot.isSet ⟨labels s,isWildcard,isExact⟩ then some (path s) else none := by
  rw [key,hp]
  cases hset : slot.isSet ⟨labels s,isWildcard,isExact⟩ <;> simp [hset,path]

theorem prefix_of_matches (h : Matches p d) : path s <+: path d := by
  have hkey : ∀ slot q, key slot p = some q → q = path s := by
    intro slot q hq
    rw [key_of_place hp] at hq
    split at hq
    · exact (Option.some.inj hq).symm
    · cases hq
  rcases h with he | ⟨q,hq,hpre⟩
  · rw [hkey .exact _ he]
  · rw [← hkey .wildcard q hq]
    exact hpre.trans (above_prefix_path d)

theorem exists_matches (hset : isWildcard = true ∨ isExact = true) : ∃ d, Matches p d := by
  rcases hset with hset | hset
  · refine ⟨46::s,.inr ⟨path s,?_,path_prefix_above s⟩⟩
    rw [key_of_place hp]
    exact if_pos hset
  · refine ⟨s,.inl ?_⟩
    rw [key_of_place hp]
    exact if_pos hset

end Placed

theorem place_of_dot (hdot : contains p 46 = true) :
    place p = if hasPrefix p (str "*.") then some ⟨labels (p.drop 2),true,false⟩
      else if hasPrefix p (str "*") then some ⟨labels (p.drop 1),true,true⟩
      else some ⟨labels p,false,true⟩ := by
  have hroot : p ≠ str "*" := by
    rintro rfl
    exact absurd hdot (by decide)
  rw [place,if_neg hroot,hdot,if_neg (by simp)]

/-- A pattern that is accepted has a start without letters and a name. -/
theorem place_lower (hdot : contains p 46 = true) :
    ∃ start s isWildcard isExact, p = start++s ∧ lower p = start++lower s ∧
      place p = some ⟨labels s,isWildcard,isExact⟩ ∧
      place (lower p) = some ⟨labels (lower s),isWildcard,isExact⟩ ∧
      (isWildcard = true ∨ isExact = true) := by
  have hlower : contains (lower p) 46 = true := by rwa [contains_lower (by decide)]
  have hstarDot : hasPrefix (lower p) (str "*.") = _ := hasPrefix_lower (by simp [str]) p
  have hstar : hasPrefix (lower p) (str "*") = _ := hasPrefix_lower (by simp [str]) p
  rw [place_of_dot hdot,place_of_dot hlower,hstarDot,hstar,drop_lower,drop_lower]
  split
  · rename_i hpre
    obtain ⟨s,rfl⟩ := hasPrefix_starDot.mp hpre
    exact ⟨[42,46],s,true,false,rfl,rfl,rfl,rfl,.inl rfl⟩
  · split
    · rename_i hpre
      obtain ⟨s,rfl⟩ := hasPrefix_star.mp hpre
      exact ⟨[42],s,true,true,rfl,rfl,rfl,rfl,.inl rfl⟩
    · exact ⟨[],p,false,true,rfl,rfl,rfl,rfl,.inr rfl⟩

theorem addOrSkip_of_undotted (hdot : contains p 46 = false) (hroot : p ≠ str "*") (m : Matcher α)
    (v : α) : addOrSkip m (p,v) = m := by
  rw [addOrSkip,add_eq,place,if_neg hroot,hdot,if_pos (by simp)]

/-- The pattern and its lower-case form do the same to every table. -/
def SameDomains (p : Str) : Prop :=
  ∀ (m : Matcher Policies.Policy) (v : Policies.Policy) (d : Str),
    find (addOrSkip m (p,v)) d = find (addOrSkip m (lower p,v)) d

theorem sameDomains_iff (p : Str) : SameDomains p ↔ lower p = p ∨ contains p 46 = false := by
  constructor
  · intro h
    cases hdot : contains p 46 with
    | false => exact .inr rfl
    | true =>
      obtain ⟨start,s,isWildcard,isExact,hsplit,hlower,hp,hl,hset⟩ := place_lower hdot
      obtain ⟨d,hd⟩ := exists_matches hp hset
      have hnone := find_single_eq_none (lower p) Policies.mergeStart d
      have hsame : find (addAll [(p,Policies.mergeStart)]) d =
        find (addAll [(lower p,Policies.mergeStart)]) d := h newDomainMatcher _ d
      rw [← hsame,find_single_eq_none,not_iff_not] at hnone
      have heq := eq_of_prefix_of_caseEq (caseEq_lower s) (prefix_of_matches hl (hnone.mp hd))
        (prefix_of_matches hp hd)
      left
      rw [hlower,heq,← hsplit]
  · rintro (heq | hdot)
    · intro m v d
      rw [heq]
    · by_cases hroot : p = str "*"
      · subst hroot
        exact fun _ _ _ => rfl
      · have hlower : contains (lower p) 46 = false := by rwa [contains_lower (by decide)]
        have hroot' : lower p ≠ str "*" := by
          intro hstar
          obtain ⟨c,rfl,hc⟩ := List.map_eq_singleton_iff.mp hstar
          rw [lowerByte_eq_iff (by decide)] at hc
          exact hroot (by rw [hc]; rfl)
        intro m v d
        rw [addOrSkip_of_undotted hdot hroot,addOrSkip_of_undotted hlower hroot']

/-- A pattern for a name. A dot in front adds no label. -/
def patternFor (d : Str) : Str :=
  if contains d 46 then if hasPrefix d (str "*") then 42::d else d else 46::d

theorem place_patternFor (hne : d ≠ []) :
    ∃ s isWildcard, place (patternFor d) = some ⟨labels s,isWildcard,true⟩ ∧ path s = path d := by
  rw [patternFor]
  cases hdot : contains d 46 with
  | false =>
    have hd : 46 ∉ d := by
      intro hmem
      rw [contains,List.any_eq_false] at hdot
      exact hdot 46 hmem (decide_eq_true rfl)
    have hpath : path (46::d) = path d := by
      rw [path_undotted hd,if_neg hne]
      exact path_append_dot hd []
    exact ⟨46::d,false,place_of_dot rfl,hpath⟩
  | true =>
    cases hstar : hasPrefix d (str "*") with
    | true =>
      obtain ⟨s,rfl⟩ := hasPrefix_star.mp hstar
      exact ⟨42::s,true,place_of_dot (by simpa [contains] using hdot),rfl⟩
    | false =>
      have hstarDot : hasPrefix d (str "*.") = false := by
        refine Bool.eq_false_iff.mpr fun hpre => ?_
        obtain ⟨s,rfl⟩ := hasPrefix_starDot.mp hpre
        cases hstar
      refine ⟨d,false,?_,rfl⟩
      change place d = _
      rw [place_of_dot hdot,hstarDot,hstar]
      rfl

/-- The table with one rule for the name. -/
theorem find_patternFor (hne : d ≠ []) (v : α) : find (addAll [(patternFor d,v)]) d = some v := by
  obtain ⟨s,isWildcard,hplace,hpath⟩ := place_patternFor hne
  refine find_of_key ?_ v
  rw [key_of_place hplace,← hpath]
  rfl

theorem find_patternFor_other {e : Str} (h : CaseEq d e) (hne : d ≠ e) (v : α) :
    find (addAll [(patternFor d,v)]) e = none := by
  obtain ⟨s,isWildcard,hplace,hpath⟩ := place_patternFor (h.ne_nil hne)
  refine (find_single_eq_none _ v e).mpr fun hmatches => hne ?_
  have hpre := prefix_of_matches hplace hmatches
  rw [hpath] at hpre
  exact eq_of_prefix_of_caseEq h hpre (List.prefix_refl _)

end DomainMatcher

namespace GenPolicy

open GoSlice GoText NetIP Policies GoRun Resolve

variable {σ : Type} {h₁ h₂ : Str}

/-- Routing gives the same blocked flag and the same policy for the two hosts, whatever the
rules. -/
def SameRoutes (isIP : Bool) (h₁ h₂ : Str) : Prop :=
  ∀ (σ : Type) (w : World σ) (t : Tables) (returnWhenDomainNotFound : Bool) (s : σ),
    (genPolicy t w ⟨h₁,isIP,returnWhenDomainNotFound⟩ s).1.result =
      (genPolicy t w ⟨h₂,isIP,returnWhenDomainNotFound⟩ s).1.result

def blockRule : Policy := {mergeStart with mode := .block}

/-- One rule, which blocks a name. -/
def blocking (d : Str) : Tables where
  defaultPolicy := {mergeStart with mode := .direct, dnsMode := .preferIPv4}
  domainMatcher := DomainMatcher.addAll [(DomainMatcher.patternFor d,blockRule)]
  hostsMatcher := DomainMatcher.newDomainMatcher
  ipMatcher := IPTrie.BitNode.empty
  ipv6Matcher := IPTrie.BitNode.empty

theorem find_empty {α : Type} (family : IPTrie.Family) (ip : Str) :
    IPTrie.find family (IPTrie.BitNode.empty : IPTrie.Trie α) ip = none := by
  rw [IPTrie.find]
  cases parseAddr ip with
  | none => rfl
  | some a =>
    dsimp only
    split
    · cases a.unmap.bits <;> rfl
    · rfl

theorem getIPPolicy_blocking (d ip : Str) : getIPPolicy (blocking d) ip = none := by
  rw [getIPPolicy]
  split
  · exact find_empty _ ip
  · exact find_empty _ ip

/-- Without a rule for the name or for any address nothing is blocked. -/
theorem genDomainPolicy_not_blocked {t : Tables} {req : Request} (hrule : domainRule t req = none)
    (hip : ∀ ip, getIPPolicy t ip = none) (w : World σ) (s : σ) :
    (genDomainPolicy t w req s).1.result.1 = false := by
  rw [genDomainPolicy,hrule,if_neg (by simp)]
  rcases destination w (domainPolicy t req) (hostChoice t req) req s with ⟨_ | _ | dstHost,s₁⟩
  · rfl
  · rfl
  · rw [routeDomain]
    split
    · rfl
    · rw [redirectDomain,ipRedirect_none (hip dstHost)]
      rfl

theorem isIPRequest_caseEq (h : CaseEq h₁ h₂) (isIP returnWhenDomainNotFound : Bool) :
    isIPRequest ⟨h₁,isIP,returnWhenDomainNotFound⟩ =
      isIPRequest ⟨h₂,isIP,returnWhenDomainNotFound⟩ := by
  simp only [isIPRequest]
  rw [← isIPLiteral_lower h₁,h,isIPLiteral_lower]

theorem sameRoutes_of_address (h : CaseEq h₁ h₂) {isIP : Bool}
    (haddr : isIP = true ∨ isIPLiteral h₁ = true) : SameRoutes isIP h₁ h₂ := by
  intro σ w t ret s
  have hip : isIPRequest ⟨h₁,isIP,ret⟩ = true := decide_eq_true haddr
  rw [genPolicy,genPolicy,if_pos hip,if_pos (isIPRequest_caseEq h isIP ret ▸ hip),
    ← genIPPolicy_lower,← genIPPolicy_lower t w ⟨h₂,isIP,ret⟩]
  dsimp only
  rw [show lower h₁ = lower h₂ from h]

theorem sameRoutes_iff (h : CaseEq h₁ h₂) (isIP : Bool) :
    SameRoutes isIP h₁ h₂ ↔ h₁ = h₂ ∨ isIP = true ∨ isIPLiteral h₁ = true := by
  constructor
  · intro hsame
    by_contra hno
    obtain ⟨hne,haddr⟩ := not_or.mp hno
    have hip : isIPRequest ⟨h₁,isIP,false⟩ = false := decide_eq_false haddr
    have hblocked := hsame Unit (answering []) (blocking h₁) false ()
    have hrule : (domainRule (blocking h₁) ⟨h₁,isIP,false⟩).map Policy.mode = some .block :=
      congrArg (Option.map Policy.mode) (DomainMatcher.find_patternFor (h.ne_nil hne) blockRule)
    have hother : domainRule (blocking h₁) ⟨h₂,isIP,false⟩ = none :=
      DomainMatcher.find_patternFor_other h hne blockRule
    have hpass := genDomainPolicy_not_blocked hother (getIPPolicy_blocking h₁) (answering []) ()
    rw [genPolicy,genPolicy,← isIPRequest_caseEq h,hip,if_neg (by simp),if_neg (by simp),
      genDomainPolicy,if_pos hrule] at hblocked
    rw [← hblocked] at hpass
    cases hpass
  · rintro (rfl | haddr)
    · exact fun _ _ _ _ _ => rfl
    · exact sameRoutes_of_address h haddr

end GenPolicy

namespace ClientHello

open GoSlice GoText

/-- The server name of a record, where the parser has found it. -/
def Names (record : Bytes) (r : Parsed) (name : Str) : Prop :=
  slice record r.sniStart.toNat (r.sniStart.toNat+r.sniLen) = .ok name

/-- What the parser finds when the name follows one byte. -/
def parsedName (name : Str) : Parsed := ⟨[3,3],1,name.length,false,false,none⟩

theorem names_parsedName {h₁ h₂ : Str} (hlen : h₁.length = h₂.length) :
    Names (0::h₂) (parsedName h₁) h₂ := by
  change slice (0::h₂) 1 (1+h₁.length) = .ok h₂
  have hbound : 1 ≤ 1+h₁.length ∧ 1+h₁.length ≤ (0::h₂).length := by
    rw [List.length_cons]
    omega
  rw [slice,if_pos hbound,hlen,Nat.add_sub_cancel_left]
  simp

end ClientHello

namespace TunBridge

open GoSlice GoText Policies ClientHello PeerProgram Fragment DomainMatcher GenPolicy

variable {h₁ h₂ : Str}

/-- What becomes of a connection after the check of the server name. -/
inductive Verdict
  | block
  | alert
  | forward
  deriving DecidableEq, Repr

def verdict (sniMode : Option Mode) : Verdict :=
  if sniMode = some .block then .block else if sniMode = some .tlsAlert then .alert else .forward

/-- What follows the check. -/
def Verdict.act (env : Env) (plan : DialPlan) (c : TunPolicyConn) (record : Bytes) (r : Parsed) :
    Verdict → Act Event Outcome
  | .block => blockTLS c
  | .alert => alertTLS c r.prtVer tlsAlertAccessDenied
  | .forward => forwardTLS env plan c plan.policy.mode record r

/-- A ClientHello that comes as far as the check goes the way of the verdict. -/
theorem handleTLSLocked_acts {env : Env} {plan : DialPlan} {record : Bytes} {r : Parsed}
    {sniMode : Option Mode} (hr : parseClientHello record = .ok r) (hok : r.err = none)
    (halert : plan.policy.mode ≠ .tlsAlert)
    (htls : plan.policy.tls13Only.isTrue → r.hasKeyShare)
    (hsni : 0 < r.sniStart ∧ r.sniLen ≠ 0) (hech : r.hasECH = false)
    (hmode : sniPolicyMode env record r = .ok sniMode) (c : TunPolicyConn) :
    handleTLSLocked env plan c record = (verdict sniMode).act env plan c record r := by
  rw [handleTLSLocked,fromChecked_bind hr]
  dsimp only
  rw [if_neg (by simp [hok]),if_neg halert,if_neg fun h => h.2 (htls h.1),if_neg (by omega),
    if_neg (by simp [hech]),fromChecked_bind hmode,verdict]
  split
  · rfl
  · split <;> rfl

/-- The check takes the same decision for the two names, whatever the rules. -/
def SameVerdict (h₁ h₂ : Str) : Prop :=
  ∀ (env : Env) (record₁ record₂ : Bytes) (r : Parsed), Names record₁ r h₁ → Names record₂ r h₂ →
    (sniPolicyMode env record₁ r).map verdict = (sniPolicyMode env record₂ r).map verdict

theorem sniPolicyMode_of_names {env : Env} {record : Bytes} {r : Parsed} {name : Str}
    (h : Names record r name) :
    sniPolicyMode env record r = .ok (if name = [] then none else
      (find env.domainMatcher name).map fun domainPolicy =>
        (mergePolicies [domainPolicy,env.defaultPolicy]).mode) := by
  rw [sniPolicyMode,show slice record _ _ = _ from h,ok_bind]
  split <;> rfl

theorem sameVerdict_iff (h : CaseEq h₁ h₂) : SameVerdict h₁ h₂ ↔ h₁ = h₂ := by
  constructor
  · intro hsame
    by_contra hne
    have hverdict := hsame {noRules with domainMatcher := addAll [(patternFor h₁,blockRule)]}
      (0::h₁) (0::h₂) (parsedName h₁) (names_parsedName rfl) (names_parsedName h.length_eq)
    rw [sniPolicyMode_of_names (names_parsedName rfl),
      sniPolicyMode_of_names (names_parsedName h.length_eq),find_patternFor (h.ne_nil hne),
      find_patternFor_other h hne,if_neg (h.ne_nil hne),Option.map_none,ite_self] at hverdict
    cases hverdict
  · rintro rfl env record₁ record₂ r hr₁ hr₂
    rw [sniPolicyMode_of_names hr₁,sniPolicyMode_of_names hr₂]

end TunBridge

namespace Tunnel

open GoSlice GoText Policies ClientHello GenPolicy

variable {h₁ h₂ : Str}

/-- The reply to the client, or how the ClientHello is going to be sent. -/
def Choice.decision {σ : Type} (choice : Except Reply Chosen × σ) :
    Except Reply (Mode × Policy × Str) :=
  choice.1.map fun c => (c.finalMode,c.p,c.target)

/-- The checks take the same decision for the two names, whatever the rules. -/
def SameChoice (h₁ h₂ : Str) : Prop :=
  ∀ (σ : Type) (net : Net σ) (t : Tables) (originHost originPort : Str) (record₁ record₂ : Bytes)
    (r : Parsed) (c : Chosen) (s : σ), Names record₁ r h₁ → Names record₂ r h₂ →
    (chooseTLS t net originHost originPort record₁ r c s).map Choice.decision =
      (chooseTLS t net originHost originPort record₂ r c s).map Choice.decision

theorem chooseTLS_routeOnly {σ : Type} {net : Net σ} {t : Tables} {originHost originPort : Str}
    {record : Bytes} {r : Parsed} {name : Str} {c : Chosen} (hname : Names record r name)
    (halert : c.p.mode ≠ .tlsAlert) (htls : c.p.tls13Only.isTrue = false) (hsni : 0 < r.sniStart)
    (hech : r.hasECH = false) (horigin : originHost ≠ name)
    (hmode : c.p.sniffOverrideMode = .routeOnly) (s : σ) :
    chooseTLS t net originHost originPort record r c s = do
      let choice ← overrideRoute t name r.prtVer c
      return (choice,s) := by
  rw [chooseTLS,if_neg halert,if_neg (by simp [htls]),if_neg (not_le.mpr hsni),
    show slice record _ _ = _ from hname,ok_bind,hech,if_neg (by simp),if_neg horigin,hmode]

theorem sameChoice_iff (h : CaseEq h₁ h₂) : SameChoice h₁ h₂ ↔ h₁ = h₂ := by
  constructor
  · intro hsame
    by_contra hne
    let c : Chosen := ⟨.unset,{mergeStart with sniffOverrideMode := .routeOnly},none,[]⟩
    have hchoice := hsame Unit openNet (blocking h₁) (0::h₁) [] (0::h₁) (0::h₂) (parsedName h₁) c ()
      (names_parsedName rfl) (names_parsedName h.length_eq)
    have horigin : ∀ name : Str, h₁.length = name.length → 0::h₁ ≠ name := by
      rintro name hlen rfl
      simp at hlen
    have hrule : DomainMatcher.find (blocking h₁).domainMatcher h₁ = some blockRule :=
      DomainMatcher.find_patternFor (h.ne_nil hne) blockRule
    have hother : DomainMatcher.find (blocking h₁).domainMatcher h₂ = none :=
      DomainMatcher.find_patternFor_other h hne blockRule
    rw [chooseTLS_routeOnly (names_parsedName rfl) (by decide) rfl Int.one_pos rfl
        (horigin h₁ rfl) rfl,
      chooseTLS_routeOnly (names_parsedName h.length_eq) (by decide) rfl Int.one_pos rfl
        (horigin h₂ h.length_eq) rfl,overrideRoute,overrideRoute,hrule,hother] at hchoice
    cases hchoice
  · rintro rfl σ net t originHost originPort record₁ record₂ r c s hr₁ hr₂
    rw [chooseTLS,chooseTLS,show slice record₁ _ _ = _ from hr₁,show slice record₂ _ _ = _ from hr₂]

end Tunnel

namespace CaseRouting

open GoSlice GoText NetIP Policies Resolve DomainMatcher GenPolicy Fragment Tunnel

/-- A ClientHello like `shortHello` for the server name `A.b`. -/
def capitalHello : Bytes := shortHello.take 61++str "A.b"

end CaseRouting
end Enimul
