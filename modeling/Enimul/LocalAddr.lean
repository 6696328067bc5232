import Enimul.GoTime
import Enimul.NetIP

/-! The local address of outgoing connections.
`SetLocalAddr` finds it as the `outbound_binding` of the configuration says: from a network
interface, by a test dial, or as given. It then stores a dialer for each address family. The
pointer to the selected interface may be nil; using it then is a `Panic`. -/
namespace Enimul
namespace LocalAddr

open GoSlice GoText NetIP

inductive Panic
  | nilDereference
  deriving DecidableEq, Repr

inductive Method
  | off | selectInterface | dialDetect | custom
  deriving DecidableEq, Repr

structure BindingOption where
  method : Method := .off
  manualSelect : Bool := false
  zone : Str := []
  preferredPrefix : Option Prefix := none
  updateInterval : ℤ := 0
  dialTCP : Bool := false
  dialIPv4Target : Str := []
  dialIPv6Target : Str := []
  dialTimeout : ℤ := 0
  customIPv4 : Option Bytes := none
  customIPv6 : Option Bytes := none
  customZone : Str := []
  deriving DecidableEq

/-! ### Decoding -/

/-- The struct into which the JSON is decoded. -/
structure BindingJSON where
  enableForAndroid : Bool := false
  method : Method := .off
  manualSelect : Bool := false
  zone : Str := []
  preferredPrefix : Str := []
  updateInterval : Str := []
  dialTCP : Bool := false
  dialIPv4Target : Str := []
  dialIPv6Target : Str := []
  dialTimeout : Str := []
  customIPv4 : Str := []
  customIPv6 : Str := []
  customZone : Str := []

def parseDurationField (field : String) (s : Str) : Except String ℤ :=
  if s = [] then .ok 0
  else
    match GoTime.parseDuration s with
    | .ok d => .ok d
    | .error err => .error ("parse " ++ field ++ " " ++ text s ++ ": " ++ err)

/-- The option, with its zero value where nothing is set. What the library says about a bad prefix
is left out. -/
def unmarshalOption (isAndroid : Bool) (tmp : BindingJSON) : Except String BindingOption :=
  let method := if ¬ isAndroid ∨ tmp.enableForAndroid then tmp.method else .off
  match method with
  | .off => .ok {}
  | .selectInterface => do
    let updateInterval ← parseDurationField "update_interval" tmp.updateInterval
    let o : BindingOption := {
      method := .selectInterface
      updateInterval := updateInterval
      manualSelect := tmp.manualSelect
      zone := tmp.zone }
    if o.zone = [] ∧ ¬ o.manualSelect then
      match parsePrefix tmp.preferredPrefix with
      | some p => .ok {o with preferredPrefix := some p}
      | none => .error ("parse preferred_prefix " ++ text tmp.preferredPrefix)
    else .ok o
  | .dialDetect => do
    let updateInterval ← parseDurationField "update_interval" tmp.updateInterval
    let dialTimeout ← parseDurationField "dial_timeout" tmp.dialTimeout
    return {
      method := .dialDetect
      updateInterval := updateInterval
      dialTimeout := dialTimeout
      dialTCP := tmp.dialTCP
      dialIPv4Target := tmp.dialIPv4Target
      dialIPv6Target := tmp.dialIPv6Target }
  | .custom =>
    let customIPv4 := parseIP tmp.customIPv4
    let customIPv6 := parseIP tmp.customIPv6
    if customIPv4 = none ∧ customIPv6 = none then
      .error "no custom IPv4 or IPv6 address specified"
    else .ok {
      method := .custom
      customIPv4 := customIPv4
      customIPv6 := customIPv6
      customZone := tmp.customZone }

def unmarshalJSON (isAndroid : Bool) (tmp : BindingJSON) : Except String BindingOption :=
  match unmarshalOption isAndroid tmp with
  | .ok o => .ok o
  | .error err => .error ("outbound_binding: " ++ err)

/-! ### Interfaces -/

structure NetworkInterface where
  index : ℕ
  name : Str
  gateway : Str
  ipv4 : Option Bytes
  ipv6 : Option Bytes
  deriving DecidableEq, Repr

/-- An address of an interface of the system. -/
inductive InterfaceAddr
  | ipNet (ip : Bytes)
  | other

/-- An interface of the system. -/
structure Iface where
  index : ℕ
  name : Str
  up : Bool
  loopback : Bool
  addrs : Except String (List InterfaceAddr)

/-- The address of this end of a test connection. -/
inductive ConnAddr
  | tcp (ip : Option Bytes) (zone : Str)
  | udp (ip : Option Bytes) (zone : Str)
  | other

/-- The system: its interfaces, the outcomes of test dials (`dialTimeout i` is the `i`-th of a
call), and what is read from the standard input, number by number. -/
structure System where
  interfaces : Except String (List Iface)
  gateway : ℕ → Str
  dialTimeout : ℕ → Str → Str → ℤ → Except String ConnAddr
  stdin : List (Except String ℤ)

def isLinkLocalUnicast (ip : Bytes) : Bool :=
  match to4 ip with
  | some ip4 => ip4.take 2 = [169,254]
  | none => ip.length = 16 ∧ ip.head? = some 0xfe ∧ (ip.getD 1 0) &&& 0xc0 = 0x80

def isPrivate (ip : Bytes) : Bool :=
  match to4 ip with
  | some ip4 => ip4.head? = some 10 ∨ (ip4.head? = some 172 ∧ (ip4.getD 1 0) &&& 0xf0 = 16) ∨
      ip4.take 2 = [192,168]
  | none => ip.length = 16 ∧ (ip.headD 0) &&& 0xfe = 0xfc

/-- The first usable address of each family. -/
def pickAddrs : List InterfaceAddr → Option Bytes → Option Bytes → Option Bytes × Option Bytes
  | [], ipv4, ipv6 => (ipv4,ipv6)
  | addr::addrs, ipv4, ipv6 =>
    if ipv4 ≠ none ∧ ipv6 ≠ none then (ipv4,ipv6)
    else
      match addr with
      | .other => pickAddrs addrs ipv4 ipv6
      | .ipNet ip =>
        if isLinkLocalUnicast ip then pickAddrs addrs ipv4 ipv6
        else if ipv4 = none ∧ (to4 ip).isSome then pickAddrs addrs (some ip) ipv6
        else if ipv6 = none ∧ to4 ip = none ∧ (ip.length = 4 ∨ ip.length = 16) then
          pickAddrs addrs ipv4 (some ip)
        else pickAddrs addrs ipv4 ipv6

def filterInterface (gateway : ℕ → Str) (iface : Iface) : Option NetworkInterface :=
  if ¬ iface.up ∨ iface.loopback then none
  else
    match iface.addrs with
    | .error _ => none
    | .ok addrs =>
      let ips := pickAddrs addrs none none
      if ips.1 = none ∧ ips.2 = none then none
      else some ⟨iface.index,iface.name,gateway iface.index,ips.1,ips.2⟩

def getFilteredInterfaces (sys : System) : Except String (List NetworkInterface) :=
  match sys.interfaces with
  | .error err => .error ("list network interfaces: " ++ err)
  | .ok ifaces =>
    let interfaces := ifaces.filterMap (filterInterface sys.gateway)
    if interfaces = [] then .error "no interface detected" else .ok interfaces

def find (ifaces : List NetworkInterface) (name : Str) : Option NetworkInterface :=
  ifaces.find? fun iface => iface.name = name

def isPreferred (preferred : Prefix) (iface : NetworkInterface) : Bool :=
  match iface.ipv4.bind addrFromSlice with
  | some addr => preferred.contains addr.unmap
  | none => false

def autoSelect (ifaces : List NetworkInterface) (preferredPrefix : Option Prefix) :
    Option NetworkInterface :=
  let preferred := preferredPrefix.bind fun p => ifaces.find? (isPreferred p)
  let withPrivate := ifaces.find? fun iface => iface.gateway ≠ [] ∧ iface.ipv4.any isPrivate
  let routed := ifaces.find? fun iface => iface.gateway ≠ [] ∧ iface.ipv4.isSome
  (preferred.or withPrivate).or routed

/-- The loop over the standard input; an index out of range is asked for again. -/
def manualSelect (ifaces : List NetworkInterface) : List (Except String ℤ) →
    Except String NetworkInterface
  | [] => .error "read interface index from stdin: EOF"
  | .error err::_ => .error ("read interface index from stdin: " ++ err)
  | .ok i::stdin =>
    if i < 0 then manualSelect ifaces stdin
    else
      match ifaces[i.toNat]? with
      | some iface => .ok iface
      | none => manualSelect ifaces stdin

def detectByDial (sys : System) (i : ℕ) (network target : Str) (timeout : ℤ) :
    Except String (Option Bytes × Str) :=
  let timeout := if timeout ≤ 0 then 5*10^9 else timeout
  match sys.dialTimeout i network target timeout with
  | .error err => .error ("dial detect: " ++ err)
  | .ok (.tcp ip zone) => .ok (ip,zone)
  | .ok (.udp ip zone) => .ok (ip,zone)
  | .ok .other => .error "unexpected network"

/-! ### Setting the address -/

structure TCPAddr where
  ip : Bytes
  zone : Str
  deriving DecidableEq, Repr

/-- The local addresses of the two stored dialers. -/
structure Dialers where
  ipv4 : Option TCPAddr := none
  ipv6 : Option TCPAddr := none
  deriving DecidableEq, Repr

/-- What the function of a monitor has taken over. -/
structure Monitor where
  option : BindingOption
  zone : Str
  deriving DecidableEq

structure State where
  dialers : Dialers := {}
  monitor : Option Monitor := none
  deriving DecidableEq

def dialersFor (ipv4 ipv6 : Option Bytes) (zone : Str) : Dialers :=
  ⟨ipv4.map (⟨·,[]⟩),ipv6.map (⟨·,zone⟩)⟩

/-- The pointer `selected` and the zone after the branches. -/
def selectInterface (sys : System) (o : BindingOption) (ifaces : List NetworkInterface) :
    Except String (Option NetworkInterface × Str) :=
  if o.zone ≠ [] then
    match find ifaces o.zone with
    | none => .error ("interface not found: " ++ text o.zone)
    | some selected => .ok (some selected,o.zone)
  else if o.manualSelect then
    match manualSelect ifaces sys.stdin with
    | .error err => .error err
    -- this branch declares a `selected` of its own; the outer one stays nil
    | .ok inner => .ok (none,inner.name)
  else
    match autoSelect ifaces o.preferredPrefix with
    | some selected => .ok (some selected,[])
    | none =>
      match manualSelect ifaces sys.stdin with
      | .error err => .error err
      | .ok selected => .ok (some selected,selected.name)

def detectIPv4 (sys : System) (o : BindingOption) (network : Str) : Except String (Option Bytes) :=
  if o.dialIPv4Target = [] then .ok none
  else (detectByDial sys 0 network o.dialIPv4Target o.dialTimeout).map Prod.fst

def detectIPv6 (sys : System) (o : BindingOption) (network : Str) :
    Except String (Option Bytes × Str) :=
  if o.dialIPv6Target = [] then .ok (none,[])
  else detectByDial sys 1 network o.dialIPv6Target o.dialTimeout

def monitorFor (o : BindingOption) (zone : Str) : Option Monitor :=
  if 0 < o.updateInterval then some ⟨o,zone⟩ else none

abbrev Result := Except Panic (Except String Unit × State)

def setLocalAddr (sys : System) (o : BindingOption) (s : State) : Result :=
  match o.method with
  | .off => .ok (.ok (),{dialers := dialersFor none none []})
  | .selectInterface =>
    match getFilteredInterfaces sys with
    | .error err => .ok (.error err,s)
    | .ok ifaces =>
      match selectInterface sys o ifaces with
      | .error err => .ok (.error err,s)
      | .ok (none,_) => .error .nilDereference
      | .ok (some selected,zone) =>
        .ok (.ok (),⟨dialersFor selected.ipv4 selected.ipv6 zone,monitorFor o zone⟩)
  | .dialDetect =>
    let network := if o.dialTCP then str "tcp" else str "udp"
    match detectIPv4 sys o network with
    | .error err => .ok (.error err,s)
    | .ok ipv4 =>
      match detectIPv6 sys o network with
      | .error err => .ok (.error err,s)
      | .ok (ipv6,zone) => .ok (.ok (),⟨dialersFor ipv4 ipv6 zone,monitorFor o zone⟩)
  | .custom => .ok (.ok (),{dialers := dialersFor o.customIPv4 o.customIPv6 o.customZone})

/-! ### What is selected -/

/-- The interface that the option asks for, and the zone under which it is used: the named one,
the one chosen by hand, or the one found automatically with a choice by hand if there is none. -/
inductive Chooses (sys : System) (o : BindingOption) (ifaces : List NetworkInterface) :
    NetworkInterface → Str → Prop
  | named {iface : NetworkInterface} (hzone : o.zone ≠ []) (h : find ifaces o.zone = some iface) :
      Chooses sys o ifaces iface o.zone
  | manual {iface : NetworkInterface} (hzone : o.zone = []) (hmanual : o.manualSelect = true)
      (h : manualSelect ifaces sys.stdin = .ok iface) : Chooses sys o ifaces iface iface.name
  | auto {iface : NetworkInterface} (hzone : o.zone = []) (hmanual : o.manualSelect = false)
      (h : autoSelect ifaces o.preferredPrefix = some iface) : Chooses sys o ifaces iface []
  | autoManual {iface : NetworkInterface} (hzone : o.zone = []) (hmanual : o.manualSelect = false)
      (hauto : autoSelect ifaces o.preferredPrefix = none)
      (h : manualSelect ifaces sys.stdin = .ok iface) : Chooses sys o ifaces iface iface.name

/-- The addresses that the option asks for. -/
inductive Binds (sys : System) (o : BindingOption) : Dialers → Prop
  | off (hmethod : o.method = .off) : Binds sys o {}
  | interface {ifaces : List NetworkInterface} {iface : NetworkInterface} {zone : Str}
      (hmethod : o.method = .selectInterface) (hifaces : getFilteredInterfaces sys = .ok ifaces)
      (hmem : iface ∈ ifaces) (h : Chooses sys o ifaces iface zone) :
      Binds sys o (dialersFor iface.ipv4 iface.ipv6 zone)
  | dialed {network : Str} {ipv4 ipv6 : Option Bytes} {zone : Str}
      (hmethod : o.method = .dialDetect)
      (hnetwork : network = if o.dialTCP then str "tcp" else str "udp")
      (hipv4 : detectIPv4 sys o network = .ok ipv4)
      (hipv6 : detectIPv6 sys o network = .ok (ipv6,zone)) :
      Binds sys o (dialersFor ipv4 ipv6 zone)
  | custom (hmethod : o.method = .custom) :
      Binds sys o (dialersFor o.customIPv4 o.customIPv6 o.customZone)

/-- A call has returned from the state `s`; an error has left the dialers alone, and otherwise the
stored ones have the addresses that the option asks for. -/
def Returned (sys : System) (o : BindingOption) (s : State) (r : Result) : Prop :=
  ∃ res s', r = .ok (res,s') ∧ (∀ err, res = .error err → s'.dialers = s.dialers) ∧
    (res = .ok () → Binds sys o s'.dialers)

def BindsSafely (sys : System) (o : BindingOption) : Prop :=
  ∀ s, Returned sys o s (setLocalAddr sys o s)

/-- An interface is to be chosen by hand, and is. -/
def ChosenByHand (sys : System) (o : BindingOption) : Prop :=
  o.method = .selectInterface ∧ o.zone = [] ∧ o.manualSelect = true ∧
    ∃ ifaces iface, getFilteredInterfaces sys = .ok ifaces ∧
      manualSelect ifaces sys.stdin = .ok iface

section Results

variable {sys : System} {o : BindingOption} {ifaces : List NetworkInterface}

theorem manualSelect_mem {stdin : List (Except String ℤ)} {iface : NetworkInterface}
    (h : manualSelect ifaces stdin = .ok iface) : iface ∈ ifaces := by
  induction stdin with
  | nil => cases h
  | cons line stdin ih =>
    cases line with
    | error err => cases h
    | ok i =>
      rw [manualSelect] at h
      split at h
      · exact ih h
      · cases hi : ifaces[i.toNat]? with
        | none =>
          rw [hi] at h
          exact ih h
        | some found =>
          rw [hi] at h
          cases h
          exact List.mem_of_getElem? hi

theorem autoSelect_mem {preferred : Option Prefix} {iface : NetworkInterface}
    (h : autoSelect ifaces preferred = some iface) : iface ∈ ifaces := by
  obtain hfirst|⟨-,hrouted⟩ := Option.or_eq_some_iff.mp h
  · obtain hpreferred|⟨-,hprivate⟩ := Option.or_eq_some_iff.mp hfirst
    · obtain ⟨p,-,hp⟩ := Option.bind_eq_some_iff.mp hpreferred
      exact List.mem_of_find?_eq_some hp
    · exact List.mem_of_find?_eq_some hprivate
  · exact List.mem_of_find?_eq_some hrouted

/-- What is chosen is one of the interfaces. -/
theorem Chooses.mem {iface : NetworkInterface} {zone : Str} (h : Chooses sys o ifaces iface zone) :
    iface ∈ ifaces := by
  cases h with
  | named hzone h => exact List.mem_of_find?_eq_some h
  | manual hzone hmanual h => exact manualSelect_mem h
  | auto hzone hmanual h => exact autoSelect_mem h
  | autoManual hzone hmanual hauto h => exact manualSelect_mem h

/-- The branches set the pointer to the interface that the option asks for, unless it is chosen by
hand from the start. -/
theorem selectInterface_chooses (sys : System) (ifaces : List NetworkInterface)
    (hhand : ¬ (o.zone = [] ∧ o.manualSelect = true)) :
    (∃ err, selectInterface sys o ifaces = .error err) ∨
      ∃ iface zone, selectInterface sys o ifaces = .ok (some iface,zone) ∧
        Chooses sys o ifaces iface zone := by
  rw [selectInterface]
  by_cases hzone : o.zone = []
  · have hmanual : o.manualSelect = false := by
      cases hm : o.manualSelect with
      | false => rfl
      | true => exact absurd ⟨hzone,hm⟩ hhand
    rw [if_neg (not_not.mpr hzone),hmanual,if_neg Bool.false_ne_true]
    cases hauto : autoSelect ifaces o.preferredPrefix with
    | some iface => exact .inr ⟨iface,[],rfl,.auto hzone hmanual hauto⟩
    | none =>
      cases hread : manualSelect ifaces sys.stdin with
      | error err => exact .inl ⟨err,rfl⟩
      | ok iface => exact .inr ⟨iface,iface.name,rfl,.autoManual hzone hmanual hauto hread⟩
  · rw [if_pos hzone]
    cases hfind : find ifaces o.zone with
    | none => exact .inl ⟨_,rfl⟩
    | some iface => exact .inr ⟨iface,o.zone,rfl,.named hzone hfind⟩

theorem selectInterface_manual (hzone : o.zone = []) (hmanual : o.manualSelect = true) :
    selectInterface sys o ifaces =
      (manualSelect ifaces sys.stdin).map fun inner => (none,inner.name) := by
  rw [selectInterface,if_neg (not_not.mpr hzone),if_pos hmanual]
  cases manualSelect ifaces sys.stdin <;> rfl

/-- The pointer is used although it is nil. -/
theorem ChosenByHand.panics (h : ChosenByHand sys o) (s : State) :
    setLocalAddr sys o s = .error .nilDereference := by
  obtain ⟨hmethod,hzone,hmanual,ifaces,iface,hifaces,hread⟩ := h
  rw [setLocalAddr,hmethod]
  simp only [hifaces,selectInterface_manual hzone hmanual,hread,Except.map]

theorem Returned.error (err : String) (s : State) : Returned sys o s (.ok (.error err,s)) :=
  ⟨_,s,rfl,fun _ _ => rfl,fun h => (nomatch h)⟩

theorem Returned.ok {s s' : State} (h : Binds sys o s'.dialers) :
    Returned sys o s (.ok (.ok (),s')) :=
  ⟨_,s',rfl,fun _ herr => (nomatch herr),fun _ => h⟩

theorem select_returned (hmethod : o.method = .selectInterface) (h : ¬ ChosenByHand sys o)
    (s : State) :
    Returned sys o s (setLocalAddr sys o s) := by
  rw [setLocalAddr,hmethod]
  cases hifaces : getFilteredInterfaces sys with
  | error err => exact .error err s
  | ok ifaces =>
    by_cases hhand : o.zone = [] ∧ o.manualSelect = true
    · simp only [selectInterface_manual hhand.1 hhand.2]
      cases hread : manualSelect ifaces sys.stdin with
      | error err => exact .error err s
      | ok iface => exact absurd ⟨hmethod,hhand.1,hhand.2,ifaces,iface,hifaces,hread⟩ h
    · obtain ⟨err,herr⟩|⟨iface,zone,hselect,hchooses⟩ :=
        selectInterface_chooses sys ifaces hhand
      · simp only [herr]
        exact .error err s
      · simp only [hselect]
        exact .ok (.interface hmethod hifaces hchooses.mem hchooses)

theorem dial_returned (hmethod : o.method = .dialDetect) (s : State) :
    Returned sys o s (setLocalAddr sys o s) := by
  rw [setLocalAddr,hmethod]
  dsimp only
  cases hipv4 : detectIPv4 sys o (if o.dialTCP then str "tcp" else str "udp") with
  | error err => exact .error err s
  | ok ipv4 =>
    cases hipv6 : detectIPv6 sys o (if o.dialTCP then str "tcp" else str "udp") with
    | error err => exact .error err s
    | ok r => exact .ok (.dialed hmethod rfl hipv4 hipv6)

end Results

/-- The binding is safe unless an interface is chosen by hand from the start. -/
theorem bindsSafely_iff (sys : System) (o : BindingOption) :
    BindsSafely sys o ↔ ¬ ChosenByHand sys o := by
  refine ⟨fun h hhand => ?_,fun h s => ?_⟩
  · obtain ⟨res,s',hrun,-⟩ := h {}
    rw [hhand.panics] at hrun
    cases hrun
  · cases hmethod : o.method with
    | off =>
      rw [setLocalAddr,hmethod]
      exact .ok (.off hmethod)
    | selectInterface => exact select_returned hmethod h s
    | dialDetect => exact dial_returned hmethod s
    | custom =>
      rw [setLocalAddr,hmethod]
      exact .ok (.custom hmethod)

/-- One interface is up, and its index is read. -/
def oneInterface : System where
  interfaces := .ok [⟨2,str "eth0",true,false,.ok [.ipNet [192,168,1,5]]⟩]
  gateway _ := []
  dialTimeout _ _ _ _ := .error "network is unreachable"
  stdin := [.ok 0]

def chosenByHand : BindingOption := {method := .selectInterface, manualSelect := true}

/-- An accepted option with which the interface that was chosen is not the one that is used. -/
theorem chosenByHand_panics :
    unmarshalJSON false {method := .selectInterface, manualSelect := true} = .ok chosenByHand ∧
      manualSelect [⟨2,str "eth0",[],some [192,168,1,5],none⟩] oneInterface.stdin =
        .ok ⟨2,str "eth0",[],some [192,168,1,5],none⟩ ∧
      setLocalAddr oneInterface chosenByHand {} = .error .nilDereference ∧
      ¬ BindsSafely oneInterface chosenByHand := by
  have hpanics : setLocalAddr oneInterface chosenByHand {} = .error .nilDereference := by
    decide
  refine ⟨by decide,by decide,hpanics,fun h => ?_⟩
  obtain ⟨res,s',hrun,-⟩ := h {}
  cases hpanics.symm.trans hrun

end LocalAddr
end Enimul
