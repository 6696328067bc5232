import Enimul.CaseRouting
import Enimul.NoRedirect

/-! The rule of a sniffed server name.
Under `policy_exists` a tunnel whose ClientHello names another server than the one the client asked
for is meant to follow the rule for that name. `genPolicy` reports a name as not found when no host
is given for it, whether there is a rule or not, and the tunnel then goes on as if there were
none. -/
namespace Enimul
namespace GenPolicy

open GoSlice GoText NetIP Policies GoRun Resolve

/-- The address rule of a destination can be followed in every world. -/
def RedirectSafe (t : Tables) (host : Str) : Prop :=
  ∀ rule, getIPPolicy t host = some rule → isBlank rule.mapTo = true ∨
    hasPrefix rule.mapTo ipPoolTagPrefix = false ∧
      ((lastIndexByte rule.mapTo 47).isSome = true → ∃ a, transformIP host rule.mapTo = .ok a)

/-- A world in which nothing is resolved and every pool is empty. -/
def unreachable : World Unit :=
  {oneAddress with
    hasCache := false
    inFlight := fun _ s => (some (.error "no such host"),s)
    getFromIPPool := fun _ => fail "empty pool"}

/-- A world in which every name stands for a host that is no address. -/
def nowhere : World Unit := {oneAddress with cacheGet := fun _ s => (some (str "x"),s)}

section Redirect

variable {σ : Type} {t : Tables} {w : World σ} {host : Str} {s : σ}

theorem redirectTarget_safe {rule : Policy} (h : RedirectSafe t host)
    (hrule : getIPPolicy t host = some rule) :
    ∃ dstHost, redirectTarget w host rule s = (.ok dstHost,s) := by
  rw [redirectTarget]
  split
  · exact ⟨_,rfl⟩
  rename_i hset
  obtain ⟨hpool,htransform⟩ := (h rule hrule).resolve_left (by simpa [isBlank] using hset)
  rw [if_neg (by simp [hpool])]
  split
  · rename_i hslash
    obtain ⟨a,ha⟩ := htransform hslash
    exact ⟨a,by rw [ha]; rfl⟩
  · exact ⟨_,rfl⟩

theorem ipRedirect_safe (h : RedirectSafe t host) :
    ∃ dstHost, ipRedirect t w host s = (.ok (dstHost,getIPPolicy t host),s) := by
  cases hrule : getIPPolicy t host with
  | none => exact ⟨host,ipRedirect_none hrule s⟩
  | some rule =>
    obtain ⟨dstHost,hd⟩ := redirectTarget_safe (w := w) (s := s) h hrule
    refine ⟨dstHost,?_⟩
    rw [ipRedirect,hrule]
    exact bind_of_ok hd

theorem ipRedirect_unreachable (h : ¬ RedirectSafe t host) :
    ∃ err, ipRedirect t unreachable host () = (.error err,()) := by
  simp only [RedirectSafe,not_forall] at h
  obtain ⟨rule,hrule,hfails⟩ := h
  obtain ⟨hset,hfails⟩ := not_or.mp hfails
  have htarget : ∃ err, redirectTarget unreachable host rule () = (.error err,()) := by
    rw [redirectTarget,if_neg (by simpa [isBlank] using hset)]
    split
    · exact ⟨_,rfl⟩
    rename_i hpool
    simp only [hpool,true_and,Classical.not_imp] at hfails
    obtain ⟨hslash,hnone⟩ := hfails
    rw [if_pos hslash]
    cases ha : transformIP host rule.mapTo with
    | error err => exact ⟨err,rfl⟩
    | ok a => exact absurd ⟨a,ha⟩ hnone
  obtain ⟨err,herr⟩ := htarget
  refine ⟨err,?_⟩
  rw [ipRedirect,hrule]
  exact bind_of_error herr

theorem genIPPolicy_safe (w : World σ) (req : Request) (h : RedirectSafe t req.originHost) (s : σ) :
    ∃ dstHost, genIPPolicy t w req s =
      (checkBlock dstHost (effective t (getIPPolicy t req.originHost).toList),s) := by
  obtain ⟨dstHost,hd⟩ := ipRedirect_safe (w := w) (s := s) h
  exact ⟨dstHost,by rw [genIPPolicy,hd]⟩

theorem genIPPolicy_unreachable (req : Request) (h : ¬ RedirectSafe t req.originHost) :
    genIPPolicy t unreachable req () = (.failed,()) := by
  obtain ⟨err,herr⟩ := ipRedirect_unreachable h
  rw [genIPPolicy,herr]

/-- A mode that the first rule sets is the mode of the policy. -/
theorem effective_mode {rule : Policy} (hmode : rule.mode ≠ .unset) (t : Tables)
    (rules : List Policy) : (effective t (rule::rules)).mode = rule.mode := by
  simp [effective,mergePolicies_mode,firstSet,hmode]

end Redirect

section Sniffed

variable {σ : Type} {t : Tables} {w : World σ} {sni : Str} {rule : Policy} {s : σ}

/-- The question about a server name. -/
def sniRequest (sni : Str) (returnWhenDomainNotFound : Bool) : Request :=
  ⟨sni,false,returnWhenDomainNotFound⟩

/-- The host that is given for a server name, with its mark. -/
def sniHost (t : Tables) (sni : Str) : Str := givenHost t (sniRequest sni true)

def HostGiven (t : Tables) (sni : Str) : Prop := isBlank (stripNoRedirect (sniHost t sni)) = false

/-- A given host that is reached in every world. -/
def Reached (t : Tables) (sni : Str) : Prop :=
  ∃ host, fixedHost (stripNoRedirect (sniHost t sni)) sni = some host ∧
    (hasPrefix (sniHost t sni) noRedirectPrefix = true ∨ RedirectSafe t host)

theorem isUnset_sni {flag : Bool} : (hostChoice t (sniRequest sni flag)).isUnset =
    isBlank (stripNoRedirect (sniHost t sni)) := isUnset_hostChoice

theorem selectedHost_sni (t : Tables) (sni : Str) (flag : Bool) :
    (hostChoice t (sniRequest sni flag)).selectedHost = stripNoRedirect (sniHost t sni) := by
  rw [hostChoice_eq]
  rfl

theorem noRedirect_sni {flag : Bool} : (hostChoice t (sniRequest sni flag)).noRedirect =
    hasPrefix (sniHost t sni) noRedirectPrefix := by
  rw [hostChoice_eq]
  rfl

theorem genPolicy_sni {flag : Bool} (hname : isIPLiteral sni = false) :
    genPolicy t w (sniRequest sni flag) s = genDomainPolicy t w (sniRequest sni flag) s := by
  rw [genPolicy,if_neg]
  simp [isIPRequest,sniRequest,hname]

theorem genPolicy_sni_address {flag : Bool} (hip : isIPLiteral sni = true) :
    genPolicy t w (sniRequest sni flag) s = genIPPolicy t w (sniRequest sni false) s := by
  rw [genPolicy,if_pos (by simp [isIPRequest,sniRequest,hip])]
  rfl

/-- With a host the flag plays no part. -/
theorem genPolicy_given (hname : isIPLiteral sni = false) (hgiven : HostGiven t sni) :
    genPolicy t w (sniRequest sni true) s = genPolicy t w (sniRequest sni false) s := by
  have hset : ∀ flag, isBlank (hostChoice t (sniRequest sni flag)).selectedHost = false := by
    intro flag
    rw [selectedHost_sni]
    exact hgiven
  rw [genPolicy_sni hname,genPolicy_sni hname,genDomainPolicy,genDomainPolicy,
    destination_given (hset true),destination_given (hset false)]
  rfl

theorem mode_ne_block (hrule : DomainMatcher.find t.domainMatcher sni = some rule)
    (hmode : rule.mode ≠ .block) (flag : Bool) :
    (domainRule t (sniRequest sni flag)).map Policy.mode ≠ some .block := by
  change (DomainMatcher.find t.domainMatcher sni).map Policy.mode ≠ some .block
  simp [hrule,hmode]

theorem genPolicy_sni_block {flag : Bool} (hname : isIPLiteral sni = false)
    (hrule : DomainMatcher.find t.domainMatcher sni = some rule) (hmode : rule.mode = .block) :
    genPolicy t w (sniRequest sni flag) s = (.blocked,s) := by
  have hblock : (domainRule t (sniRequest sni flag)).map Policy.mode = some .block := by
    change (DomainMatcher.find t.domainMatcher sni).map Policy.mode = some .block
    simp [hrule,hmode]
  rw [genPolicy_sni hname,genDomainPolicy,if_pos hblock]

/-- Without a host a rule is not followed. -/
theorem genPolicy_not_given (hname : isIPLiteral sni = false)
    (hrule : DomainMatcher.find t.domainMatcher sni = some rule) (hmode : rule.mode ≠ .block)
    (hgiven : ¬ HostGiven t sni) :
    genPolicy t w (sniRequest sni true) s = (.domainNotFound,s) := by
  have hunset : (hostChoice t (sniRequest sni true)).isUnset = true :=
    isUnset_sni.trans (by simpa [HostGiven] using hgiven)
  rw [genPolicy_sni hname,genDomainPolicy,if_neg (mode_ne_block hrule hmode true),
    destination_unlisted hunset rfl,routeDomain]

/-- A name without a host could be resolved, and the policy of its rule be used. -/
theorem genPolicy_nowhere (hname : isIPLiteral sni = false)
    (hrule : DomainMatcher.find t.domainMatcher sni = some rule) (hmode : rule.mode ≠ .block)
    (hgiven : ¬ HostGiven t sni) :
    ∃ p, genPolicy t nowhere (sniRequest sni false) () = (.routed (str "x") p,()) := by
  have hunset : (hostChoice t (sniRequest sni false)).isUnset = true :=
    isUnset_sni.trans (by simpa [HostGiven] using hgiven)
  have hd : destination nowhere (domainPolicy t (sniRequest sni false))
      (hostChoice t (sniRequest sni false)) (sniRequest sni false) () =
      (.ok (some (str "x")),()) := by
    rw [destination,if_neg (by simp [sniRequest]),if_pos hunset]
    rfl
  refine ⟨domainPolicy t (sniRequest sni false),?_⟩
  rw [genPolicy_sni hname,genDomainPolicy_of_destination (mode_ne_block hrule hmode false) hd]
  split
  · rfl
  · rw [redirectDomain,ipRedirect_none (getIPPolicy_eq_none (by decide) t)]

theorem genPolicy_alert (flag : Bool) (hname : isIPLiteral sni = false)
    (hrule : DomainMatcher.find t.domainMatcher sni = some rule) (hmode : rule.mode = .tlsAlert)
    (hreached : Reached t sni) :
    ∃ dstHost p, genPolicy t w (sniRequest sni flag) s = (.routed dstHost p,s) ∧
      p.mode = .tlsAlert := by
  obtain ⟨host,hfixed,hredirect⟩ := hreached
  have hd : destination w (domainPolicy t (sniRequest sni flag))
      (hostChoice t (sniRequest sni flag)) (sniRequest sni flag) s = (.ok (some host),s) :=
    destination_fixed (by rw [selectedHost_sni]; exact hfixed)
  have hdomain : domainRule t (sniRequest sni flag) = some rule := hrule
  have hpolicy : (domainPolicy t (sniRequest sni flag)).mode = .tlsAlert := by
    rw [domainPolicy,hdomain,Option.toList_some,effective_mode (by simp [hmode]),hmode]
  rw [genPolicy_sni hname,
    genDomainPolicy_of_destination (mode_ne_block hrule (by simp [hmode]) flag) hd,noRedirect_sni]
  split
  · exact ⟨_,_,rfl,hpolicy⟩
  rename_i hno
  obtain ⟨dstHost,hr⟩ := ipRedirect_safe (w := w) (s := s) (hredirect.resolve_left hno)
  rw [redirectDomain,hr]
  cases hip : getIPPolicy t host with
  | none => exact ⟨_,_,rfl,hpolicy⟩
  | some q =>
    have hmerged : (effective t (rule::[q])).mode = .tlsAlert := by
      rw [effective_mode (by simp [hmode]),hmode]
    refine ⟨dstHost,effective t (rule::[q]),?_,hmerged⟩
    dsimp only
    rw [hdomain,Option.toList_some,List.cons_append,List.nil_append,checkBlock,
      if_neg (by simp [hmerged])]

/-- A host that has to be asked for is not found in the unreachable world. -/
theorem destination_unreachable (p : Policy) {c : HostChoice} (req : Request)
    (hset : isBlank c.selectedHost = false)
    (hfixed : fixedHost c.selectedHost req.originHost = none) :
    ∃ err, destination unreachable p c req () = (.error err,()) := by
  rw [destination_given hset,selectDestination_asked hfixed hset]
  split
  · exact ⟨_,rfl⟩
  · exact ⟨_,rfl⟩

theorem genPolicy_unreachable (hname : isIPLiteral sni = false)
    (hrule : DomainMatcher.find t.domainMatcher sni = some rule) (hmode : rule.mode ≠ .block)
    (hgiven : HostGiven t sni) (hreached : ¬ Reached t sni) :
    genPolicy t unreachable (sniRequest sni true) () = (.failed,()) := by
  have hselected := selectedHost_sni t sni true
  have hnb := mode_ne_block hrule hmode true
  rw [genPolicy_sni hname]
  cases hfixed : fixedHost (stripNoRedirect (sniHost t sni)) sni with
  | none =>
    obtain ⟨err,herr⟩ := destination_unreachable (domainPolicy t (sniRequest sni true))
      (sniRequest sni true) (hselected ▸ hgiven) (hselected ▸ hfixed)
    rw [genDomainPolicy,if_neg hnb,herr,routeDomain]
  | some host =>
    have hd : destination unreachable (domainPolicy t (sniRequest sni true))
        (hostChoice t (sniRequest sni true)) (sniRequest sni true) () = (.ok (some host),()) :=
      destination_fixed (hselected ▸ hfixed)
    have hunsafe : ¬ (hasPrefix (sniHost t sni) noRedirectPrefix = true ∨ RedirectSafe t host) :=
      fun h => hreached ⟨host,hfixed,h⟩
    obtain ⟨hmark,hsafe⟩ := not_or.mp hunsafe
    obtain ⟨err,herr⟩ := ipRedirect_unreachable hsafe
    rw [genDomainPolicy_of_destination hnb hd,noRedirect_sni,if_neg hmark,redirectDomain,herr]

end Sniffed

end GenPolicy

namespace Tunnel

open GoSlice GoText NetIP Policies GoRun Resolve ClientHello PeerProgram Fragment GenPolicy

section Follow

variable {σ : Type}

/-- The alert that refuses a connection, as the outcome of a choice. -/
def refused (prtVer : Bytes) (s : σ) : Checked (Except Reply Chosen × σ) := do
  let alert ← alertReply prtVer TunBridge.tlsAlertAccessDenied
  return (.error alert,s)

/-- What the tunnel does with the decision about a server name. -/
def followDecision (net : Net σ) (prtVer : Bytes) (originPort : Str) (c : Chosen) :
    Decision × σ → Checked (Except Reply Chosen × σ)
  | (.failed,s) => return (.ok c,s)
  | (.domainNotFound,s) => return (.ok c,s)
  | (.blocked,s) => return (.error .nothing,s)
  | (.routed newDst sniPolicy,s) =>
    if sniPolicy.mode = .tlsAlert then refused prtVer s
    else
      let newTarget := DoHDial.joinHostPort newDst (overridePort originPort sniPolicy)
      match net.dialTCPTimeout newTarget sniPolicy.connectTimeout s with
      | (.ok newConn,s) =>
        return (.ok {c with dstConn := some newConn, p := sniPolicy, target := newTarget},s)
      | (.error _,s) => return (.ok c,s)

/-- A refusal is an alert or a fault. -/
theorem refused_ne {prtVer : Bytes} {s s₁ : σ} {choice : Except Reply Chosen}
    (h : ∀ record, choice ≠ .error (.alert record)) : refused prtVer s ≠ .ok (choice,s₁) := by
  intro heq
  rw [refused,alertReply] at heq
  cases hmajor : index prtVer 0 with
  | error fault =>
    rw [hmajor] at heq
    cases heq
  | ok major =>
    cases hminor : index prtVer 1 with
    | error fault =>
      rw [hmajor,hminor] at heq
      cases heq
    | ok minor =>
      rw [hmajor,hminor] at heq
      cases heq
      exact h _ rfl

theorem refused_ne_ok {prtVer : Bytes} {s s₁ : σ} {c : Chosen} :
    refused prtVer s ≠ .ok (.ok c,s₁) := refused_ne fun _ h => nomatch h

theorem refused_ne_nothing {prtVer : Bytes} {s s₁ : σ} :
    refused prtVer s ≠ .ok (.error .nothing,s₁) := refused_ne fun _ h => nomatch h

variable {t : Tables} {net : Net σ} {prtVer : Bytes} {originPort : Str} {c : Chosen}

theorem overrideTarget_eq {sni : Str} (hmode : c.p.sniffOverrideMode = .policyExists) (s : σ) :
    overrideTarget t net sni prtVer originPort c s =
      followDecision net prtVer originPort c (genPolicy t net.world (sniRequest sni true) s) := by
  have hreq : sniRequest sni true = ⟨sni,false,c.p.sniffOverrideMode = .policyExists⟩ := by
    simp [sniRequest,hmode]
  rw [overrideTarget,← hreq]
  cases hd : genPolicy t net.world (sniRequest sni true) s with
  | mk decision s₁ =>
    cases decision with
    | failed => rfl
    | domainNotFound => rfl
    | blocked => rfl
    | routed newDst sniPolicy => rfl

/-- The mode of the policy tells whether the connection is dropped, refused or goes on. -/
theorem followDecision_checkBlock (dstHost : Str) (p : Policy) (s : σ) :
    (p.mode = .block ∧ followDecision net prtVer originPort c (checkBlock dstHost p,s) =
        .ok (.error .nothing,s)) ∨
      (p.mode = .tlsAlert ∧ followDecision net prtVer originPort c (checkBlock dstHost p,s) =
        refused prtVer s) ∨
      p.mode ≠ .block ∧ p.mode ≠ .tlsAlert ∧ ∃ c' s₁,
        followDecision net prtVer originPort c (checkBlock dstHost p,s) = .ok (.ok c',s₁) := by
  rw [checkBlock]
  split
  · rename_i hblock
    exact .inl ⟨hblock,rfl⟩
  rename_i hblock
  rw [followDecision]
  split
  · rename_i halert
    exact .inr (.inl ⟨halert,rfl⟩)
  · rename_i halert
    refine .inr (.inr ⟨hblock,halert,?_⟩)
    dsimp only
    split
    · exact ⟨_,_,rfl⟩
    · exact ⟨_,_,rfl⟩

end Follow

/-- The handshakes in which the rule for the server name is looked up. -/
structure Sniffed (originHost : Str) (record : Bytes) (r : Parsed) (c : Chosen) (sni : Str) :
    Prop where
  goesOn : c.p.mode ≠ .tlsAlert
  keyShare : ¬ (c.p.tls13Only.isTrue ∧ ¬ r.hasKeyShare)
  found : 0 < r.sniStart
  name : Names record r sni
  inClear : r.hasECH = false
  differs : originHost ≠ sni
  override : c.p.sniffOverrideMode = .policyExists

section Outcome

variable (t : Tables) (originHost originPort : Str) (record : Bytes) (r : Parsed) (c : Chosen)
  (sni : Str)

/-- The connection is dropped, whatever the world is. -/
def Drops : Prop :=
  ∀ (σ : Type) (net : Net σ) (s : σ), ∃ s₁,
    chooseTLS t net originHost originPort record r c s = .ok (.error .nothing,s₁)

/-- The connection is answered with an alert, whatever the world is. -/
def Alerts : Prop :=
  ∀ (σ : Type) (net : Net σ) (s : σ), ∃ s₁,
    chooseTLS t net originHost originPort record r c s = refused r.prtVer s₁

/-- The connection goes where the policy for the server name sends it. -/
def FollowsPolicy : Prop :=
  ∀ (σ : Type) (net : Net σ) (s : σ), chooseTLS t net originHost originPort record r c s =
    followDecision net r.prtVer originPort c (genPolicy t net.world (sniRequest sni false) s)

def AppliesRule (rule : Policy) : Prop :=
  (rule.mode = .block → Drops t originHost originPort record r c) ∧
    (rule.mode = .tlsAlert → Alerts t originHost originPort record r c) ∧
    (rule.mode ≠ .block → rule.mode ≠ .tlsAlert →
      FollowsPolicy t originHost originPort record r c sni)

end Outcome

/-- The mode of the address rules for a server name that is an address. -/
def addressMode (t : Tables) (sni : Str) : Mode := (effective t (getIPPolicy t sni).toList).mode

/-- The names whose rule is applied. -/
def RuleReached (t : Tables) (sni : Str) (rule : Policy) : Prop :=
  if isIPLiteral sni then
    (rule.mode = .block → addressMode t sni = .block ∧ RedirectSafe t sni) ∧
      (rule.mode = .tlsAlert → addressMode t sni = .tlsAlert ∧ RedirectSafe t sni)
  else rule.mode = .block ∨ HostGiven t sni ∧ (rule.mode = .tlsAlert → Reached t sni)

section Sniffed

variable {t : Tables} {originHost originPort : Str} {record : Bytes} {r : Parsed} {c : Chosen}
  {sni : Str} {rule : Policy}

theorem Sniffed.chooseTLS_eq {σ : Type} {net : Net σ} (h : Sniffed originHost record r c sni)
    (s : σ) : chooseTLS t net originHost originPort record r c s =
      followDecision net r.prtVer originPort c (genPolicy t net.world (sniRequest sni true) s) := by
  rw [← overrideTarget_eq h.override,chooseTLS,if_neg h.goesOn,if_neg h.keyShare,
    if_neg (not_le.mpr h.found),show slice record _ _ = _ from h.name,ok_bind,h.inClear,
    if_neg (by simp),if_neg h.differs,h.override]

/-- A net over a world in which every dial gives the same connection. -/
def netOver (world : World Unit) (conn : Conn) : Net Unit :=
  {openNet with world, dialTCPTimeout := fun _ _ => return conn}

theorem exists_conn_ne (dstConn : Option Conn) : ∃ conn : Conn, some conn ≠ dstConn := by
  by_cases h : some (fun _ _ => none) = dstConn
  · refine ⟨fun _ _ => some "",?_⟩
    rw [← h]
    intro heq
    have := congrFun (congrFun (Option.some.inj heq) []) .close
    cases this
  · exact ⟨_,h⟩

/-- A name with a host is treated as if the flag were not set, and only such a name. -/
theorem followsPolicy_iff (h : Sniffed originHost record r c sni) (hname : isIPLiteral sni = false)
    (hrule : DomainMatcher.find t.domainMatcher sni = some rule) (hmode : rule.mode ≠ .block) :
    FollowsPolicy t originHost originPort record r c sni ↔ HostGiven t sni := by
  constructor
  · intro hfollows
    by_contra hgiven
    obtain ⟨conn,hconn⟩ := exists_conn_ne c.dstConn
    obtain ⟨p,hp⟩ := genPolicy_nowhere hname hrule hmode hgiven
    have heq := hfollows Unit (netOver nowhere conn) ()
    rw [h.chooseTLS_eq,genPolicy_not_given hname hrule hmode hgiven] at heq
    change .ok (.ok c,()) =
      followDecision _ _ _ _ (genPolicy t nowhere (sniRequest sni false) ()) at heq
    rw [hp,followDecision] at heq
    split at heq
    · exact refused_ne_ok heq.symm
    · -- The dial has replaced the connection.
      have hchosen := Except.ok.inj (Prod.mk.inj (Except.ok.inj heq)).1
      exact hconn (congrArg Chosen.dstConn hchosen).symm
  · intro hgiven σ net s
    rw [h.chooseTLS_eq,genPolicy_given hname hgiven]

theorem Sniffed.address_safe {σ : Type} {net : Net σ} (h : Sniffed originHost record r c sni)
    (hip : isIPLiteral sni = true) (hsafe : RedirectSafe t sni) (s : σ) :
    ∃ dstHost, chooseTLS t net originHost originPort record r c s =
      followDecision net r.prtVer originPort c
        (checkBlock dstHost (effective t (getIPPolicy t sni).toList),s) := by
  obtain ⟨dstHost,hd⟩ := genIPPolicy_safe net.world (sniRequest sni false) hsafe s
  refine ⟨dstHost,?_⟩
  rw [h.chooseTLS_eq,genPolicy_sni_address hip,hd]
  rfl

theorem Sniffed.address_unreachable (h : Sniffed originHost record r c sni)
    (hip : isIPLiteral sni = true) (hsafe : ¬ RedirectSafe t sni) (conn : Conn) :
    chooseTLS t (netOver unreachable conn) originHost originPort record r c () =
      .ok (.ok c,()) := by
  rw [h.chooseTLS_eq,genPolicy_sni_address hip]
  change followDecision _ _ _ _ (genIPPolicy t unreachable _ ()) = _
  rw [genIPPolicy_unreachable (sniRequest sni false) hsafe]
  rfl

theorem drops_address_iff (h : Sniffed originHost record r c sni) (hip : isIPLiteral sni = true) :
    Drops t originHost originPort record r c ↔
      addressMode t sni = .block ∧ RedirectSafe t sni := by
  constructor
  · intro hdrops
    obtain ⟨s₁,hdrop⟩ := hdrops Unit (netOver unreachable fun _ _ => none) ()
    by_cases hsafe : RedirectSafe t sni
    · obtain ⟨dstHost,heq⟩ := h.address_safe hip hsafe ()
      rw [heq] at hdrop
      rcases followDecision_checkBlock dstHost _ () with
        ⟨hmode,-⟩ | ⟨-,hr⟩ | ⟨-,-,c',s₂,hr⟩
      · exact ⟨hmode,hsafe⟩
      · exact absurd (hr.symm.trans hdrop) refused_ne_nothing
      · cases hr.symm.trans hdrop
    · cases (h.address_unreachable hip hsafe _).symm.trans hdrop
  · rintro ⟨hmode,hsafe⟩ σ net s
    obtain ⟨dstHost,heq⟩ := h.address_safe hip hsafe s
    have hblock : (effective t (getIPPolicy t sni).toList).mode = .block := hmode
    refine ⟨s,?_⟩
    rw [heq,checkBlock,if_pos hblock]
    rfl

theorem alerts_address_iff (h : Sniffed originHost record r c sni) (hip : isIPLiteral sni = true) :
    Alerts t originHost originPort record r c ↔
      addressMode t sni = .tlsAlert ∧ RedirectSafe t sni := by
  constructor
  · intro halerts
    obtain ⟨s₁,halert⟩ := halerts Unit (netOver unreachable fun _ _ => none) ()
    by_cases hsafe : RedirectSafe t sni
    · obtain ⟨dstHost,heq⟩ := h.address_safe hip hsafe ()
      rw [heq] at halert
      rcases followDecision_checkBlock dstHost _ () with
        ⟨-,hr⟩ | ⟨hmode,-⟩ | ⟨-,-,c',s₂,hr⟩
      · exact absurd (halert.symm.trans hr) refused_ne_nothing
      · exact ⟨hmode,hsafe⟩
      · exact absurd (halert.symm.trans hr) refused_ne_ok
    · exact absurd (halert.symm.trans (h.address_unreachable hip hsafe _)) refused_ne_ok
  · rintro ⟨hmode,hsafe⟩ σ net s
    obtain ⟨dstHost,heq⟩ := h.address_safe hip hsafe s
    have halert : (effective t (getIPPolicy t sni).toList).mode = .tlsAlert := hmode
    refine ⟨s,?_⟩
    rw [heq,checkBlock,if_neg (by simp [halert]),followDecision,if_pos halert]

/-- A rule that refuses is applied to a name whose host is reached in every world. -/
theorem alerts_iff (h : Sniffed originHost record r c sni) (hname : isIPLiteral sni = false)
    (hrule : DomainMatcher.find t.domainMatcher sni = some rule) (hmode : rule.mode = .tlsAlert) :
    Alerts t originHost originPort record r c ↔ HostGiven t sni ∧ Reached t sni := by
  have hnb : rule.mode ≠ .block := by simp [hmode]
  constructor
  · intro halerts
    obtain ⟨s₁,halert⟩ := halerts Unit (netOver unreachable fun _ _ => none) ()
    rw [h.chooseTLS_eq] at halert
    change followDecision _ _ _ _ (genPolicy t unreachable (sniRequest sni true) ()) = _ at halert
    by_cases hgiven : HostGiven t sni
    · refine ⟨hgiven,?_⟩
      by_contra hreached
      rw [genPolicy_unreachable hname hrule hnb hgiven hreached] at halert
      exact refused_ne_ok halert.symm
    · rw [genPolicy_not_given hname hrule hnb hgiven] at halert
      exact absurd halert.symm refused_ne_ok
  · rintro ⟨hgiven,hreached⟩ σ net s
    obtain ⟨dstHost,p,hp,hpmode⟩ := genPolicy_alert (w := net.world) (s := s) true hname
      hrule hmode hreached
    refine ⟨s,?_⟩
    rw [h.chooseTLS_eq,hp,followDecision,if_pos hpmode]

theorem drops_of_block (h : Sniffed originHost record r c sni) (hname : isIPLiteral sni = false)
    (hrule : DomainMatcher.find t.domainMatcher sni = some rule) (hmode : rule.mode = .block) :
    Drops t originHost originPort record r c := by
  intro σ net s
  refine ⟨s,?_⟩
  rw [h.chooseTLS_eq,genPolicy_sni_block hname hrule hmode]
  rfl

theorem appliesRule_iff_reached (h : Sniffed originHost record r c sni)
    (hrule : DomainMatcher.find t.domainMatcher sni = some rule) :
    AppliesRule t originHost originPort record r c sni rule ↔ RuleReached t sni rule := by
  rw [AppliesRule,RuleReached]
  cases hip : isIPLiteral sni with
  | true =>
    have hfollows : FollowsPolicy t originHost originPort record r c sni := by
      intro σ net s
      rw [h.chooseTLS_eq,genPolicy_sni_address hip,genPolicy_sni_address hip]
    rw [if_pos rfl,drops_address_iff h hip,alerts_address_iff h hip]
    simp [hfollows]
  | false =>
    rw [if_neg (by simp)]
    by_cases hblock : rule.mode = .block
    · simp [hblock,drops_of_block h hip hrule hblock]
    · rw [followsPolicy_iff h hip hrule hblock]
      by_cases halert : rule.mode = .tlsAlert
      · rw [alerts_iff h hip hrule halert]
        simp [halert]
      · simp [hblock,halert]

/-- What `handleTLS` does once the ClientHello is parsed. -/
theorem handleTLS_of_parsed {σ : Type} {net : Net σ} {recordLen : ℕ} {p : Policy}
    {dstConn : Option Conn} {target : Str} {s s₁ : State σ}
    (hread : readRecord recordLen s = .ok (.ok record,s₁))
    (hparse : parseClientHello record = .ok r) (herr : r.err = none) :
    handleTLS t net recordLen p dstConn originHost target originPort s = (do
      let c ← chooseTLSProc t net originHost originPort record r ⟨.unset,p,dstConn,target⟩
      let conn ← dialIfNil net c.dstConn c.target c.p
      sendHello net c record r conn : Proc (State σ) (Peer Event)) s₁ := by
  rw [handleTLS,Proc.bind_run hread]
  have hchecked : (ofChecked (parseClientHello record) : Proc (State σ) Parsed) s₁ =
      .ok (.ok r,s₁) := by
    rw [hparse]
    rfl
  rw [Proc.bind_run hchecked,if_neg (by simp [herr])]

end Sniffed

/-- The rule of a sniffed name is applied where a host is given for the name. -/
theorem appliesRule_iff {t : Tables} {originHost : Str} {record : Bytes} {r : Parsed} {c : Chosen}
    {sni : Str} {rule : Policy} (h : Sniffed originHost record r c sni)
    (hrule : DomainMatcher.find t.domainMatcher sni = some rule) (originPort : Str) :
    (AppliesRule t originHost originPort record r c sni rule ↔ RuleReached t sni rule) ∧
    (isIPLiteral sni = false → rule.mode ≠ .block →
      (FollowsPolicy t originHost originPort record r c sni ↔ HostGiven t sni)) ∧
    ∀ (σ : Type) (net : Net σ) (recordLen : ℕ) (s s₁ : State σ), c.mode = .unset →
      readRecord recordLen s = .ok (.ok record,s₁) → parseClientHello record = .ok r →
      r.err = none →
      handleTLS t net recordLen c.p c.dstConn originHost c.target originPort s = (do
        let c ← chooseTLSProc t net originHost originPort record r c
        let conn ← dialIfNil net c.dstConn c.target c.p
        sendHello net c record r conn : Proc (State σ) (Peer Event)) s₁ := by
  refine ⟨appliesRule_iff_reached h hrule,fun hname => followsPolicy_iff h hname hrule,?_⟩
  intro σ net recordLen s s₁ hmode hread hparse herr
  obtain ⟨mode,p,dstConn,target⟩ := c
  cases hmode
  exact handleTLS_of_parsed hread hparse herr

/-- A tunnel to 1.2.3.4 that follows sniffed names. -/
def sniffing : Chosen :=
  ⟨.unset,{mergeStart with mode := .direct, sniffOverrideMode := .policyExists},none,
    str "1.2.3.4:443"⟩

theorem sniffed_shortHello :
    Sniffed (str "1.2.3.4") shortHello shortParsed sniffing (str "a.b") where
  goesOn := by decide
  keyShare := by decide
  found := by decide
  name := rfl
  inClear := rfl
  differs := by decide
  override := rfl

theorem appliesRule_iff_host :
    AppliesRule (hostRule (str "5.6.7.8")) (str "1.2.3.4") (str "443") shortHello shortParsed
      sniffing (str "a.b") {mergeStart with host := str "5.6.7.8"} :=
  (appliesRule_iff sniffed_shortHello rfl (str "443")).1.mpr (.inr ⟨rfl,fun h => nomatch h⟩)

/-- One rule, without a host, that answers a.b with an alert. -/
def alertRule : Policy := {mergeStart with mode := .tlsAlert}

def alerting : Tables :=
  {hostRule [] with
    domainMatcher := (DomainMatcher.newDomainMatcher : DomainMatcher.Matcher Policy).insertPattern
      alertRule false true (DomainMatcher.labels (str "a.b"))}

/-- The ClientHello for a.b is sent to the first target, and the client sees no alert. -/
theorem rule_without_host_is_ignored :
    let result := handleTLS alerting openNet shortHello.length sniffing.p sniffing.dstConn
      (str "1.2.3.4") sniffing.target (str "443") ⟨(),⟨[],[shortHello]⟩,[]⟩
    DomainMatcher.find alerting.domainMatcher (str "a.b") = some alertRule ∧
    sniffing.p.sniffOverrideMode = .policyExists ∧ alertRule.mode = .tlsAlert ∧
    (result.toOption.map fun outcome => (outcome.1.toOption.map Peer.log,outcome.2.client)) =
      some (some [.write shortHello],[]) := by
  decide +kernel

end Tunnel
end Enimul
