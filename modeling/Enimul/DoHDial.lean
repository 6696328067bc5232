import Enimul.GenPolicy
import Mathlib.Data.Nat.Digits.Defs

/-! The address at which a DoH server is dialled.
The host of the URL is replaced by the host that its policy or the hosts table names; what
is then not an address is looked up with the resolver of the system. -/
namespace Enimul
namespace DoHDial

open GoSlice GoText NetIP Policies GoRun Resolve GenPolicy

/-- A parsed URL. Its host has no control characters and its port only digits. -/
structure URL where
  hostname : Str
  port : Str
  hostname_ne_nul : ∀ c ∈ hostname, c ≠ 0
  port_digits : port.all isDigit = true

/-- What the dial function is made with. The resolver of the system returns addresses of
either family, and an IP pool never returns an empty text. -/
structure Env (σ : Type) where
  world : World σ
  parseURL : Str → Except String URL
  bootstrapLookupIP : Str → Run σ (List Bytes)
  lookup_sized : ∀ host s addrs s₁, bootstrapLookupIP host s = (.ok addrs,s₁) →
    ∀ ip ∈ addrs, ip = [] ∨ ip.length = 4 ∨ ip.length = 16
  pool_ne_nil : ∀ tag s ip s₁, world.getFromIPPool tag s = (.ok ip,s₁) → ip ≠ []

/-- Five minutes. -/
def reverseMappingTTL : ℤ := 5*60*10^9

/-- The first IPv4 address or, failing that, the first address. -/
def pickBootstrapIP : List Bytes → Str → Str
  | [], first => first
  | ip::addrs, first =>
    if ip = [] then pickBootstrapIP addrs first
    else
      match to4 ip with
      | some v4 => ipString v4
      | none => pickBootstrapIP addrs (if first = [] then ipString ip else first)

/-- `strconv.FormatInt(v, 10)`. -/
def formatInt (v : ℤ) : Str :=
  let digits := if v = 0 then [48] else ((Nat.digits 10 v.natAbs).map digit).reverse
  if v < 0 then 45::digits else digits

/-- `net.JoinHostPort`. -/
def joinHostPort (host port : Str) : Str :=
  if contains host 58 then str "["++host++str "]:"++port else host++str ":"++port

structure Dial where
  host : Str
  port : Str
  policy : Policy

def Dial.addr (d : Dial) : Str := joinHostPort d.host d.port

section Generate

variable {σ : Type} (t : Tables) (env : Env σ)

def rememberBootstrap (host ip : Str) : Run σ Unit :=
  if env.world.hasCache then call (env.world.cacheAdd host ip reverseMappingTTL) else return ()

def lookupBootstrapHost (host : Str) : Run σ Str := do
  let addrs ← withStr ("bootstrap resolve " ++ text host) (env.bootstrapLookupIP host)
  let ip := pickBootstrapIP addrs []
  if ip = [] then fail ("bootstrap resolve " ++ text host ++ ": no address found")
  else do
    rememberBootstrap env host ip
    return ip

def resolveBootstrapHost (host : Str) : Run σ Str :=
  if host = [] ∨ isIPLiteral host then return host
  else do
    match ← cached env.world host with
    | some ip => return ip
    | none => lookupBootstrapHost env host

/-- The policy of a URL with a name, and the request that its rules are found with. -/
def nameRequest (url : URL) : Request := ⟨url.hostname,false,false⟩

/-- The host that is named for the URL, without its prefix. -/
def selectedHost (url : URL) : Str := (hostChoice t (nameRequest url)).selectedHost

def nameTarget (url : URL) : Run σ Str :=
  let selectedHost := selectedHost t url
  if selectedHost = str "self" then return url.hostname
  else if hasPrefix selectedHost ipPoolTagPrefix then env.world.getFromIPPool (selectedHost.drop 1)
  else if hasPrefix selectedHost resolvePrefix then return url.hostname
  else return selectedHost

def addressTarget (url : URL) : Run σ (Str × Policy) := do
  let r ← withStr "ip redirect" (ipRedirect t env.world url.hostname)
  return (r.1,effective t r.2.toList)

/-- The host to be dialled before it is looked up, and its policy. -/
def target (url : URL) : Run σ (Str × Policy) :=
  if isIPLiteral url.hostname then addressTarget t env url
  else do
    let host ← nameTarget t env url
    return (host,domainPolicy t (nameRequest url))

def bootstrap (host : Str) : Run σ Str :=
  if isIPLiteral host then return host else resolveBootstrapHost env host

def dialPort (url : URL) (pol : Policy) : Str :=
  if pol.port ≠ unsetInt then formatInt pol.port
  else if url.port = [] then str "443"
  else url.port

def genDoHDialFuncFor (dohURL : Str) : Run σ Dial := do
  let url ← withStr "invalid DoH URL" (ofExcept (env.parseURL dohURL))
  let r ← target t env url
  let host ← bootstrap env r.1
  if r.2.mode = .block ∨ r.2.mode = .tlsAlert then fail "the mode of the DoH cannot be `block`"
  else return ⟨host,dialPort url r.2,r.2⟩

end Generate

section Ports

theorem digit_map_toNat {ds : List ℕ} (h : ∀ d ∈ ds, d < 10) (n : ℕ) :
    (ds.map digit).foldr (fun c n => n*10+(c.toNat-48)) n = ds.foldr (fun d n => d+10*n) n := by
  induction ds with
  | nil => rfl
  | cons d ds ih =>
    have hd := (digit_decimal d (h d List.mem_cons_self)).2
    rw [List.map_cons,List.foldr_cons,List.foldr_cons,hd,
      ih fun x hx => h x (List.mem_cons_of_mem d hx)]
    omega

theorem parseNat10_formatInt {v : ℤ} (hv : 0 ≤ v) : parseNat10 (formatInt v) = some v.natAbs := by
  rcases hv.eq_or_lt with rfl | hpos
  · decide
  have hne : v.natAbs ≠ 0 := by omega
  have hdigits : formatInt v = ((Nat.digits 10 v.natAbs).map digit).reverse := by
    simp [formatInt,hpos.ne',not_lt.mpr hv]
  have hlt : ∀ d ∈ Nat.digits 10 v.natAbs, d < 10 := fun d hd => Nat.digits_lt_base (by decide) hd
  have hall : (formatInt v).all isDigit = true := by
    rw [hdigits,List.all_reverse,List.all_map,List.all_eq_true]
    exact fun d hd => (digit_decimal d (hlt d hd)).1
  have hnil : formatInt v ≠ [] := by
    rw [hdigits]
    simpa [Nat.digits_ne_nil_iff_ne_zero] using hpos.ne'
  rw [parseNat10,if_pos ⟨hnil,hall⟩,hdigits,List.foldl_reverse,digit_map_toNat hlt]
  have hread : Nat.ofDigits 10 (Nat.digits 10 v.natAbs) = v.natAbs := Nat.ofDigits_digits 10 _
  rw [Nat.ofDigits_eq_foldr] at hread
  exact congrArg some hread

theorem formatInt_natCast_inj {m n : ℕ} : formatInt m = formatInt n ↔ m = n := by
  constructor
  · intro h
    have hm := parseNat10_formatInt (Int.natCast_nonneg m)
    rw [h,parseNat10_formatInt (Int.natCast_nonneg n)] at hm
    exact (Option.some.inj hm).symm
  · rintro rfl
    rfl

theorem isDigit_formatInt {n : ℕ} {c : UInt8} (h : c ∈ formatInt n) : isDigit c = true := by
  have hread := parseNat10_formatInt (Int.natCast_nonneg n)
  rw [parseNat10] at hread
  split at hread
  · rename_i hdigits
    exact List.all_eq_true.mp hdigits.2 c h
  · cases hread

theorem parseNat10_formatInt_neg {v : ℤ} (hv : v < 0) : parseNat10 (formatInt v) = none := by
  have hminus : isDigit 45 = false := by decide
  simp [parseNat10,formatInt,hv,hminus]

/-- A port that can be dialled. -/
def IsPort (port : Str) : Prop := ∃ n, parseNat10 port = some n ∧ n ≠ 0

theorem isPort_dialPort {url : URL} {pol : Policy} :
    IsPort (dialPort url pol) ↔
      0 < pol.port ∨ (pol.port = unsetInt ∧ (url.port = [] ∨ IsPort url.port)) := by
  rw [dialPort]
  by_cases hp : pol.port = unsetInt
  · have hneg : ¬ 0 < pol.port := by
      rw [hp]
      decide
    rw [if_neg (not_not.mpr hp)]
    by_cases hu : url.port = []
    · have h443 : IsPort (str "443") := ⟨443,by decide,by decide⟩
      simp [hu,hp,h443]
    · simp [hu,hp,unsetInt]
  · rw [if_pos hp]
    constructor
    · rintro ⟨n,hn,hne⟩
      rcases lt_or_ge pol.port 0 with hneg | hpos
      · simp [parseNat10_formatInt_neg hneg] at hn
      · rw [parseNat10_formatInt hpos] at hn
        have hn := Option.some.inj hn
        exact .inl (by omega)
    · rintro (hpos | ⟨hu,-⟩)
      · exact ⟨_,parseNat10_formatInt hpos.le,by omega⟩
      · exact absurd hu hp

end Ports

section Hosts

variable {σ : Type} {t : Tables} {env : Env σ} {url : URL} {s s₁ : σ}

theorem string4_ne_nil (b : BitVec 32) : string4 b ≠ [] := by
  intro hnil
  have hparse := parseAddr_string4 b
  simp [hnil,parseAddr] at hparse

theorem string_ne_nil (a : Addr) : a.string ≠ [] := by
  cases a with
  | invalid => simp [Addr.string,str]
  | v4 b => exact string4_ne_nil b
  | v6 b zone =>
    have hbody : string6 b ≠ [] := by
      intro hnil
      have hparse := parseAddr_string6 b
      simp [hnil,parseAddr] at hparse
    rw [Addr.string]
    split
    · rw [withZone]
      split <;> simp [string4_ne_nil]
    · rw [withZone]
      split <;> simp [hbody]

theorem transformIP_ne_nil {ip net dst : Str} (h : transformIP ip net = .ok dst) : dst ≠ [] := by
  rw [transformIP] at h
  split at h
  · simp at h
  split at h
  · simp at h
  split at h
  · exact Except.ok.inj h ▸ string_ne_nil _
  · exact Except.ok.inj h ▸ string_ne_nil _
  · simp at h

/-- A redirect of an address leads somewhere. -/
theorem ipRedirect_ne_nil {ip dst : Str} {policy : Option Policy} (hip : ip ≠ [])
    (h : ipRedirect t env.world ip s = (.ok (dst,policy),s₁)) : dst ≠ [] := by
  cases hp : getIPPolicy t ip with
  | none =>
    rw [ipRedirect_none hp] at h
    obtain ⟨rfl,-⟩ := Prod.mk.inj (Except.ok.inj (Prod.mk.inj h).1)
    exact hip
  | some rule =>
    simp only [ipRedirect,hp] at h
    obtain ⟨mapTo,s₂,hmap,hret⟩ := bind_ok h
    obtain ⟨rfl,-⟩ := Prod.mk.inj (Except.ok.inj (Prod.mk.inj hret).1)
    rw [redirectTarget] at hmap
    split at hmap
    · exact Except.ok.inj (Prod.mk.inj hmap).1 ▸ hip
    rename_i hset
    split at hmap
    · exact env.pool_ne_nil _ _ _ _ hmap
    split at hmap
    · exact transformIP_ne_nil (Prod.mk.inj hmap).1
    · exact Except.ok.inj (Prod.mk.inj hmap).1 ▸ (not_or.mp hset).1

theorem pickBootstrapIP_literal {addrs : List Bytes} {first : Str}
    (hsized : ∀ ip ∈ addrs, ip = [] ∨ ip.length = 4 ∨ ip.length = 16)
    (hfirst : first = [] ∨ isIPLiteral first = true) :
    pickBootstrapIP addrs first = [] ∨ isIPLiteral (pickBootstrapIP addrs first) = true := by
  induction addrs generalizing first with
  | nil => exact hfirst
  | cons ip addrs ih =>
    have hrest : ∀ ip ∈ addrs, ip = [] ∨ ip.length = 4 ∨ ip.length = 16 := fun x hx =>
      hsized x (List.mem_cons_of_mem ip hx)
    rw [pickBootstrapIP]
    split
    · exact ih hrest hfirst
    rename_i hne
    have hlen := (hsized ip List.mem_cons_self).resolve_left hne
    split
    · rename_i v4 hv4
      exact .inr (isIPLiteral_ipString (.inl (length_of_to4 hv4)))
    · refine ih hrest ?_
      split
      · exact .inr (isIPLiteral_ipString hlen)
      · exact hfirst

theorem lookupBootstrapHost_literal {host ip : Str}
    (h : lookupBootstrapHost env host s = (.ok ip,s₁)) : isIPLiteral ip = true := by
  obtain ⟨addrs,s₂,haddrs,h⟩ := bind_ok h
  dsimp only at h
  split at h
  · simp [fail] at h
  rename_i hne
  obtain ⟨u,s₃,-,hret⟩ := bind_ok h
  obtain rfl := Except.ok.inj (Prod.mk.inj hret).1
  have hsized := env.lookup_sized _ _ _ _ (withStr_ok haddrs)
  exact (pickBootstrapIP_literal hsized (.inl rfl)).resolve_left hne

/-- A host is named for the URL, by the policy or by the hosts table. -/
def IsNamed (t : Tables) (url : URL) : Prop :=
  selectedHost t url ≠ [] ∧ selectedHost t url ≠ unsetString

theorem nameTarget_ne_nil (hhost : url.hostname ≠ []) (hnamed : IsNamed t url) {host : Str}
    (h : nameTarget t env url s = (.ok host,s₁)) : host ≠ [] := by
  rw [nameTarget] at h
  split at h
  · exact Except.ok.inj (Prod.mk.inj h).1 ▸ hhost
  split at h
  · exact env.pool_ne_nil _ _ _ _ h
  split at h
  · exact Except.ok.inj (Prod.mk.inj h).1 ▸ hhost
  · exact Except.ok.inj (Prod.mk.inj h).1 ▸ hnamed.1

/-- Without a named host the program goes on with the empty or unset text. -/
theorem nameTarget_unnamed (hno : ¬ IsNamed t url) (s : σ) :
    nameTarget t env url s = (.ok (selectedHost t url),s) := by
  have hcases : selectedHost t url = [] ∨ selectedHost t url = unsetString := by
    by_contra hne
    exact hno (not_or.mp hne)
  rw [nameTarget]
  rcases hcases with hsel | hsel <;> rw [hsel] <;> rfl

theorem target_name (hname : isIPLiteral url.hostname = false) {host : Str} {pol : Policy}
    (h : target t env url s = (.ok (host,pol),s₁)) : nameTarget t env url s = (.ok host,s₁) := by
  rw [target,hname,if_neg Bool.false_ne_true] at h
  obtain ⟨host',s₂,hhost,hret⟩ := bind_ok h
  obtain ⟨hpair,rfl⟩ := Prod.mk.inj hret
  obtain ⟨rfl,-⟩ := Prod.mk.inj (Except.ok.inj hpair)
  exact hhost

theorem target_ne_nil (hhost : url.hostname ≠ [])
    (hnamed : isIPLiteral url.hostname = true ∨ IsNamed t url) {host : Str} {pol : Policy}
    (h : target t env url s = (.ok (host,pol),s₁)) : host ≠ [] := by
  cases hname : isIPLiteral url.hostname with
  | false =>
    have hnamed : IsNamed t url := hnamed.resolve_left (by simp [hname])
    exact nameTarget_ne_nil hhost hnamed (target_name hname h)
  | true =>
    rw [target,hname,if_pos rfl,addressTarget] at h
    obtain ⟨r,s₂,hr,hret⟩ := bind_ok h
    obtain ⟨rfl,-⟩ := Prod.mk.inj (Except.ok.inj (Prod.mk.inj hret).1)
    exact ipRedirect_ne_nil hhost (withStr_ok hr)

/-- What is dialled is an address, unless the cache had something else for the host. -/
theorem bootstrap_literal_iff {host ip : Str} (hne : host ≠ [])
    (h : bootstrap env host s = (.ok ip,s₁)) :
    isIPLiteral ip = true ↔ ∀ found s', isIPLiteral host = false →
      cached env.world host s = (.ok (some found),s') → isIPLiteral found = true := by
  rw [bootstrap] at h
  cases hlit : isIPLiteral host with
  | true =>
    rw [hlit,if_pos rfl] at h
    obtain rfl := Except.ok.inj (Prod.mk.inj h).1
    simp [hlit]
  | false =>
    rw [hlit,if_neg Bool.false_ne_true,resolveBootstrapHost,if_neg (by simp [hne,hlit])] at h
    obtain ⟨entry,s₂,hentry,h⟩ := bind_ok h
    cases entry with
    | some found =>
      obtain rfl := Except.ok.inj (Prod.mk.inj h).1
      simp [hentry]
    | none =>
      have hip := lookupBootstrapHost_literal h
      simp [hentry,hip]

theorem genDoHDialFuncFor_ok {dohURL : Str} {dial : Dial} (hurl : env.parseURL dohURL = .ok url)
    (h : genDoHDialFuncFor t env dohURL s = (.ok dial,s₁)) :
    ∃ host s₂ s₃, target t env url s = (.ok (host,dial.policy),s₂) ∧
      bootstrap env host s₂ = (.ok dial.host,s₃) ∧ dial.port = dialPort url dial.policy := by
  obtain ⟨url',s₂,hurl',h⟩ := bind_ok h
  obtain ⟨hparse,rfl⟩ := Prod.mk.inj (withStr_ok hurl')
  obtain rfl : url = url' := Except.ok.inj (hurl.symm.trans hparse)
  obtain ⟨⟨host,pol⟩,s₃,htarget,h⟩ := bind_ok h
  obtain ⟨ip,s₄,hboot,h⟩ := bind_ok h
  split at h
  · simp [fail] at h
  · obtain rfl := Except.ok.inj (Prod.mk.inj h).1
    exact ⟨host,s₃,s₄,htarget,hboot,rfl⟩

/-- A dial function for a URL with a host: it dials an address and a port, and looks up the
host of the URL when none is named, if and only if a host is named or the URL has an
address, there is a port, and the cache has no junk for the host. -/
theorem genDoHDialFuncFor_dials_iff {dohURL : Str} {dial : Dial} {host : Str} {pol : Policy} {s₂ : σ}
    (hurl : env.parseURL dohURL = .ok url) (hhost : url.hostname ≠ [])
    (h : genDoHDialFuncFor t env dohURL s = (.ok dial,s₂))
    (htarget : target t env url s = (.ok (host,pol),s₁)) :
    (isIPLiteral dial.host = true ∧ IsPort dial.port ∧
        (isIPLiteral url.hostname = false → ¬ IsNamed t url → host = url.hostname)) ↔
      (isIPLiteral url.hostname = true ∨ IsNamed t url) ∧
        (0 < pol.port ∨ (pol.port = unsetInt ∧ (url.port = [] ∨ IsPort url.port))) ∧
        ∀ found s', isIPLiteral host = false →
          cached env.world host s₁ = (.ok (some found),s') → isIPLiteral found = true := by
  obtain ⟨host',s₃,s₄,htarget',hboot,hport⟩ := genDoHDialFuncFor_ok hurl h
  obtain ⟨hpair,rfl⟩ := Prod.mk.inj (htarget.symm.trans htarget')
  obtain ⟨rfl,rfl⟩ := Prod.mk.inj (Except.ok.inj hpair)
  rw [hport,isPort_dialPort]
  constructor
  · rintro ⟨hlit,hp,hown⟩
    have hnamed : isIPLiteral url.hostname = true ∨ IsNamed t url := by
      by_contra hneither
      obtain ⟨hname,hno⟩ := not_or.mp hneither
      have hname := Bool.eq_false_iff.mpr hname
      have htext := target_name hname htarget
      rw [nameTarget_unnamed hno] at htext
      have hsel : selectedHost t url = url.hostname :=
        (Except.ok.inj (Prod.mk.inj htext).1).trans (hown hname hno)
      refine hno ⟨hsel ▸ hhost,fun hunset => ?_⟩
      -- the unset text is not a host name
      exact url.hostname_ne_nul 0 (by rw [← hsel,hunset]; exact List.mem_cons_self) rfl
    exact ⟨hnamed,hp,(bootstrap_literal_iff (target_ne_nil hhost hnamed htarget) hboot).mp hlit⟩
  · rintro ⟨hnamed,hp,hcache⟩
    have hlit := (bootstrap_literal_iff (target_ne_nil hhost hnamed htarget) hboot).mpr hcache
    refine ⟨hlit,hp,fun hname hno => ?_⟩
    exact absurd (hnamed.resolve_left (by simp [hname])) hno

end Hosts

/-- A URL with the name dns.test. -/
def testURL : URL := ⟨str "dns.test",[],by simp [str],rfl⟩

/-- Every URL is that one, and the system resolves every name to 9.9.9.9. -/
def testEnv : Env Unit where
  world := answering [1,2,3,4]
  parseURL _ := .ok testURL
  bootstrapLookupIP _ := return [[9,9,9,9]]
  lookup_sized := by
    intro host s addrs s₁ h ip hip
    obtain rfl := Except.ok.inj (Prod.mk.inj h).1
    obtain rfl := List.mem_singleton.mp hip
    exact .inr (.inl rfl)
  pool_ne_nil := by
    intro tag s ip s₁ h
    simp [answering,fail] at h

/-- No rules, and a default policy that sets nothing. -/
def noRules : Tables := {blockAll with defaultPolicy := mergeStart}

/-- The hosts table sends dns.test to itself. -/
def selfHost : Tables :=
  {noRules with
    hostsMatcher := (DomainMatcher.newDomainMatcher : DomainMatcher.Matcher Str).insertPattern
      (str "self") false true (DomainMatcher.labels (str "dns.test"))}

theorem genDoHDialFuncFor_dials_self :
    ∃ dial, genDoHDialFuncFor selfHost testEnv (str "https://dns.test/") () = (.ok dial,()) ∧
      dial.addr = str "9.9.9.9:443" ∧ isIPLiteral dial.host = true ∧ IsPort dial.port := by
  have hdial : ∃ dial, genDoHDialFuncFor selfHost testEnv (str "https://dns.test/") () = (.ok dial,()) ∧
      dial.addr = str "9.9.9.9:443" := ⟨_,rfl,rfl⟩
  obtain ⟨dial,hdial,haddr⟩ := hdial
  have htarget : target selfHost testEnv testURL () = (.ok (str "dns.test",mergeStart),()) := rfl
  have hnamed : IsNamed selfHost testURL := ⟨by decide,by decide⟩
  have hcache : ∀ found s', isIPLiteral (str "dns.test") = false →
      cached testEnv.world (str "dns.test") () = (.ok (some found),s') → isIPLiteral found = true := by
    intro found s' _ hfound
    have hnone : cached testEnv.world (str "dns.test") () = (.ok none,()) := rfl
    simp [hnone] at hfound
  obtain ⟨hlit,hport,-⟩ := (genDoHDialFuncFor_dials_iff rfl (by decide) hdial htarget).mpr
    ⟨.inr hnamed,.inr ⟨rfl,.inl rfl⟩,hcache⟩
  exact ⟨dial,hdial,haddr,hlit,hport⟩

/-- Nothing is named for dns.test, and the dial function has no host. -/
theorem genDoHDialFuncFor_without_host :
    ∃ dial, genDoHDialFuncFor noRules testEnv (str "https://dns.test/") () = (.ok dial,()) ∧
      testURL.hostname = str "dns.test" ∧ dial.host = [] ∧ dial.addr = str ":443" := by
  exact ⟨_,rfl,rfl,rfl,rfl⟩

end DoHDial
end Enimul
