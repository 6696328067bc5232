import Enimul.HelloEncoding
import Enimul.Tunnel

/-! ClientHellos with an encrypted ClientHello.
The parser looks for an extension of type `0x00fe`; the registered type is `0xfe0d`. A hello for
which it reports one is written to the server as it is, on both ways that a hello takes. -/
namespace Enimul
namespace HelloEncoding

open GoSlice GoText ClientHello Policies GoRun PeerProgram Fragment Tunnel TunBridge

/-- The type of the encrypted_client_hello extension. -/
def encryptedClientHello : ℕ := 0xfe0d

def extensionList (h : Hello) : List Extension := h.extensions.getD []

/-- The policy lets the hello pass: it is not answered with an alert. -/
def Passes (p : Policy) (r : Parsed) : Prop :=
  p.mode ≠ .tlsAlert ∧ ¬ (p.tls13Only.isTrue ∧ ¬ r.hasKeyShare)

section Forwarding

variable {record : Bytes} {r : Parsed}

/-- What the connection of the TUN side does with a hello that is left alone. -/
theorem handleTLSLocked_of_hasECH (hparse : parseClientHello record = .ok r) (hok : r.err = none)
    (hech : r.hasECH = true) (env : Env) (plan : DialPlan) (c : TunPolicyConn)
    (hpass : Passes plan.policy r) :
    handleTLSLocked env plan c record = (do
      match ← attempt (Fragment.write record) with
      | .error err => return (some err,c)
      | .ok () => return (none,c)) := by
  rw [handleTLSLocked,fromChecked_bind hparse]
  dsimp only
  rw [if_neg (by simp [hok]),if_neg hpass.1,if_neg hpass.2]
  split <;> rfl

/-- A name that the parser reports can be cut out of the record. -/
theorem slice_name (hlen : 5 ≤ record.length) (hparse : parseClientHello record = .ok r)
    (hok : r.err = none) (hname : ¬ r.sniStart ≤ 0) :
    ∃ name, slice record r.sniStart.toNat (r.sniStart.toNat+r.sniLen) = .ok name := by
  obtain ⟨r',hr',hsound⟩ := parseClientHello_returns record hlen
  obtain rfl : r = r' := Except.ok.inj (hparse.symm.trans hr')
  rcases (hsound hok).2 with ⟨hnone,-⟩ | ⟨hlo,hhi⟩
  · omega
  · exact ⟨_,slice_of_le (by omega) (by omega)⟩

variable {σ : Type} (t : GenPolicy.Tables) (net : Net σ)

theorem chooseTLS_of_hasECH (hlen : 5 ≤ record.length) (hparse : parseClientHello record = .ok r)
    (hok : r.err = none) (hech : r.hasECH = true) (originHost originPort : Str) (c : Chosen)
    (s : σ) (hpass : Passes c.p r) :
    chooseTLS t net originHost originPort record r c s = .ok (.ok {c with mode := .direct},s) := by
  rw [chooseTLS,if_neg hpass.1,if_neg hpass.2]
  split
  · rfl
  · rename_i hname
    obtain ⟨name,hslice⟩ := slice_name hlen hparse hok hname
    rw [hslice,ok_bind]
    rfl

/-- What the tunnel of the desktop proxy does with a hello that is left alone. -/
theorem handleTLS_of_hasECH (hlen : 5 ≤ record.length) (hparse : parseClientHello record = .ok r)
    (hok : r.err = none) (hech : r.hasECH = true) (n : ℕ) (p : Policy) (dstConn : Option Conn)
    (originHost target originPort : Str) {s s' : State σ}
    (hread : readRecord n s = .ok (.ok record,s')) (hpass : Passes p r) :
    handleTLS t net n p dstConn originHost target originPort s = (do
      let conn ← dialIfNil net dstConn target p
      onConn (openConn conn) (Fragment.write record)) s' := by
  have hchoose : chooseTLSProc t net originHost originPort record r ⟨.unset,p,dstConn,target⟩ s' =
      .ok (.ok ⟨.direct,p,dstConn,target⟩,s') := by
    rw [chooseTLSProc,chooseTLS_of_hasECH t net hlen hparse hok hech _ _ _ _ hpass]
  have hparsed : ofChecked (parseClientHello record) s' = .ok (.ok r,s') := by
    simp only [ofChecked,hparse]
  rw [handleTLS,Proc.bind_run hread,Proc.bind_run hparsed,if_neg (by simp [hok]),
    Proc.bind_run hchoose]
  rfl

end Forwarding

/-- A hello with an encrypted ClientHello is recognised exactly when it also has an extension of
type `0x00fe`; a hello that is recognised is written to the server unmodified. -/
theorem hasECH_iff (h : Hello) (hech : ∃ e ∈ extensionList h, e.type = encryptedClientHello) :
    ∃ r, parseClientHello h.encode = .ok r ∧ r.err = none ∧
      (r.hasECH = true ↔ ∃ e ∈ extensionList h, e.type = 0x00fe) ∧
      (r.hasECH = true →
        (∀ env plan c, Passes plan.policy r → handleTLSLocked env plan c h.encode = (do
          match ← attempt (Fragment.write h.encode) with
          | .error err => return (some err,c)
          | .ok () => return (none,c))) ∧
        ∀ {σ : Type} (t : GenPolicy.Tables) (net : Net σ) n p dstConn originHost target originPort
          s s', readRecord n s = .ok (.ok h.encode,s') → Passes p r →
            handleTLS t net n p dstConn originHost target originPort s = (do
              let conn ← dialIfNil net dstConn target p
              onConn (openConn conn) (Fragment.write h.encode)) s') := by
  have hlen : 5 ≤ h.encode.length := by
    rw [h.encode_length]
    omega
  have hparse := parseClientHello_encode_eq h
  refine ⟨_,hparse,rfl,?_,?_⟩
  · simp only [Found.result,collect_hasECH,Bool.false_or,List.any_eq_true,decide_eq_true_eq]
    rfl
  · intro hfound
    constructor
    · intro env plan c hpass
      exact handleTLSLocked_of_hasECH hparse rfl hfound env plan c hpass
    · intro σ t net n p dstConn originHost target originPort s s' hread hpass
      exact handleTLS_of_hasECH t net hlen hparse rfl hfound n p dstConn originHost target
        originPort hread hpass

/-- A hello with a server name and an encrypted ClientHello. -/
def encryptedHello : Hello where
  recordMinor := 1
  version := [3,3]
  random := List.replicate 32 0
  sessionID := []
  cipherSuites := [0x13,1]
  compression := [0]
  extensions := some [.serverName (str "a.c"),.other 0xfe0d [0] (by decide)]
  version_length := rfl
  random_length := rfl
  sessionID_length := by decide
  compression_length := by decide
  oneServerName := by decide
  fits := by decide

/-- The same hello with an extension of the type that the parser looks for. -/
def recognisedHello : Hello :=
  {encryptedHello with
    extensions := some [.serverName (str "a.c"),.other 0xfe0d [0] (by decide),
      .other 0xfe [] (by decide)]
    oneServerName := by decide
    fits := by decide}

theorem hasECH_iff_recognised :
    ∃ r, parseClientHello recognisedHello.encode = .ok r ∧ r.hasECH = true := by
  obtain ⟨r,hparse,-,hiff,-⟩ := hasECH_iff recognisedHello
    ⟨.other 0xfe0d [0] (by decide),by simp [extensionList,recognisedHello],rfl⟩
  exact ⟨r,hparse,hiff.mpr ⟨.other 0xfe [] (by decide),by simp [extensionList,recognisedHello],rfl⟩⟩

/-- The encrypted ClientHello is not recognised, and the hello is sent in the mode of the policy. -/
theorem encrypted_hello_is_fragmented :
    (∃ e ∈ extensionList encryptedHello, e.type = encryptedClientHello) ∧
    ∃ r, parseClientHello encryptedHello.encode = .ok r ∧ r.err = none ∧ r.hasECH = false ∧
      ∀ env plan c, DomainMatcher.find env.domainMatcher (str "a.c") = none →
        plan.policy.mode = .tlsRF → plan.policy.tls13Only.isTrue = false →
          handleTLSLocked env plan c encryptedHello.encode =
            forwardTLS env plan c .tlsRF encryptedHello.encode r := by
  constructor
  · exact ⟨.other 0xfe0d [0] (by decide),by simp [extensionList,encryptedHello],rfl⟩
  · have hparse := parseClientHello_encode_eq encryptedHello
    refine ⟨_,hparse,rfl,rfl,?_⟩
    intro env plan c hfind hmode htls
    rw [handleTLSLocked,fromChecked_bind hparse]
    dsimp only
    rw [if_neg (by simp [Found.result]),if_neg (by simp [hmode]),if_neg (by simp [htls]),
      if_neg (by decide),if_neg (by decide)]
    have hname : sniPolicyMode env encryptedHello.encode
        ((collect encryptedHello.extensionsStart (encryptedHello.extensions.getD []) {}).result
          encryptedHello.version none) = .ok none := by
      change (if str "a.c" = [] then Except.ok none else Except.ok
        ((DomainMatcher.find env.domainMatcher (str "a.c")).map fun domainPolicy =>
          (mergePolicies [domainPolicy,env.defaultPolicy]).mode)) = _
      rw [if_neg (by decide),hfind]
      rfl
    rw [fromChecked_bind hname,if_neg (by simp),if_neg (by simp),hmode]

end HelloEncoding
end Enimul
