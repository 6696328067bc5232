import Enimul.GoText
import Mathlib.Data.BitVec

/-! IP addresses and prefixes as the standard library has them.
An address is invalid, a 32-bit value, or a 128-bit value with a zone; the text forms
are parsed and printed as documented for `net/netip`. -/
namespace Enimul
namespace NetIP

open GoSlice GoText

/-- The invalid address is the zero value. -/
inductive Addr
  | invalid
  | v4 (b : BitVec 32)
  | v6 (b : BitVec 128) (zone : Str)
  deriving DecidableEq, Repr

def isDigit (c : UInt8) : Bool := 48 ≤ c ∧ c ≤ 57

def hexValue (c : UInt8) : Option ℕ :=
  if 48 ≤ c ∧ c ≤ 57 then some (c.toNat-48)
  else if 97 ≤ c ∧ c ≤ 102 then some (c.toNat-87)
  else if 65 ≤ c ∧ c ≤ 70 then some (c.toNat-55)
  else none

def isHex (c : UInt8) : Bool := (hexValue c).isSome

/-- The loop over the octets: the value and the digits of the current one, and those
already read. A dot needs a digit before it and more text behind it. -/
def parseOctets : Str → ℕ → ℕ → List ℕ → Option (List ℕ)
  | [], val, _, fields => if fields.length < 3 then none else some (fields++[val])
  | c::rest, val, digLen, fields =>
    if isDigit c then
      if digLen = 1 ∧ val = 0 then none
      else
        let val := val*10+(c.toNat-48)
        if 255 < val then none else parseOctets rest val (digLen+1) fields
    else if c = 46 then
      if digLen = 0 ∨ rest = [] then none
      else if fields.length = 3 then none
      else parseOctets rest 0 0 (fields++[val])
    else none

def parseIPv4Fields (s : Str) : Option (List ℕ) := parseOctets s 0 0 []

/-- Bytes in network order as one number. -/
def bigEndian (bytes : List ℕ) : ℕ := bytes.foldl (fun n b => n*256+b) 0

def parseIPv4 (s : Str) : Option Addr :=
  (parseIPv4Fields s).map fun fields => .v4 (BitVec.ofNat 32 (bigEndian fields))

/-- What the loop over the groups leaves: unread text, bytes, the place of the ellipsis. -/
abbrev Groups := Str × List ℕ × Option ℕ

/-- One group of up to four hexadecimal digits in each round; eight rounds fill the
address. -/
def parseGroups : ℕ → Str → List ℕ → Option ℕ → Option Groups
  | 0, s, ip, ellipsis => some (s,ip,ellipsis)
  | rounds+1, s, ip, ellipsis =>
    let digits := s.takeWhile isHex
    if digits.length = 0 ∨ 4 < digits.length then none
    else
      let acc := digits.foldl (fun n c => n*16+(hexValue c).getD 0) 0
      let grown := ip++[acc/256,acc%256]
      match s.drop digits.length with
      | [] => some ([],grown,ellipsis)
      | c::rest =>
        if c = 46 then
          if (ellipsis = none ∧ ip.length ≠ 12) ∨ 16 < ip.length+4 then none
          else (parseIPv4Fields s).map fun fields => ([],ip++fields,ellipsis)
        else if c ≠ 58 then none
        else match rest with
          | [] => none
          | d::more =>
            if d = 58 then
              if ellipsis.isSome then none
              else if more = [] then some ([],grown,some grown.length)
              else parseGroups rounds more grown (some grown.length)
            else parseGroups rounds rest grown ellipsis

/-- Fill the place of the ellipsis with zeros. -/
def expandGroups : Groups → Option (List ℕ)
  | (s,ip,ellipsis) =>
    if s ≠ [] then none
    else if ip.length < 16 then
      ellipsis.map fun e => ip.take e++List.replicate (16-ip.length) 0++ip.drop e
    else if ellipsis.isSome then none
    else some ip

def addrFrom16 (ip : List ℕ) (zone : Str) : Addr := .v6 (BitVec.ofNat 128 (bigEndian ip)) zone

def parseIPv6 (s : Str) : Option Addr :=
  let body := s.takeWhile fun c => c ≠ 37
  let zone := s.drop (body.length+1)
  if contains s 37 ∧ zone = [] then none
  else if hasPrefix body (str "::") then
    if body.drop 2 = [] then some (addrFrom16 [] zone)
    else ((parseGroups 8 (body.drop 2) [] (some 0)).bind expandGroups).map fun ip =>
      addrFrom16 ip zone
  else ((parseGroups 8 body [] none).bind expandGroups).map fun ip => addrFrom16 ip zone

def isSeparator (c : UInt8) : Bool := c = 46 ∨ c = 58 ∨ c = 37

/-- The first of dot, colon and percent sign decides the family. -/
def parseAddr (s : Str) : Option Addr :=
  match s.find? isSeparator with
  | some 46 => parseIPv4 s
  | some 58 => parseIPv6 s
  | _ => none

namespace Addr

def is4 : Addr → Bool
  | .v4 _ => true
  | _ => false

def is6 : Addr → Bool
  | .v6 _ _ => true
  | _ => false

def zone : Addr → Str
  | .v6 _ z => z
  | _ => []

def is4In6 : Addr → Bool
  | .v6 b _ => b.toNat/2^32 = 0xffff
  | _ => false

def unmap (a : Addr) : Addr :=
  match a with
  | .v6 b _ => if a.is4In6 then .v4 (b.setWidth 32) else a
  | _ => a

/-- The address after this one, invalid behind the last. -/
def next : Addr → Addr
  | .invalid => .invalid
  | .v4 b => if b.toNat+1 = 2^32 then .invalid else .v4 (b+1)
  | .v6 b z => if b.toNat+1 = 2^128 then .invalid else .v6 (b+1) z

/-- The bits from the most significant one. -/
def bits : Addr → List Bool
  | .invalid => []
  | .v4 b => (List.range 32).map b.getMsbD
  | .v6 b _ => (List.range 128).map b.getMsbD

def bitLen : Addr → ℕ
  | .invalid => 0
  | .v4 _ => 32
  | .v6 _ _ => 128

end Addr

def digit (d : ℕ) : UInt8 := (str "0123456789abcdef").getD d 48

def appendDecimal (x : ℕ) : Str :=
  (if 100 ≤ x then [digit (x/100)] else [])++(if 10 ≤ x then [digit (x/10%10)] else [])++
    [digit (x%10)]

def appendHex (x : ℕ) : Str :=
  (if 0x1000 ≤ x then [digit (x/0x1000)] else [])++
    (if 0x100 ≤ x then [digit (x/0x100%16)] else [])++
    (if 0x10 ≤ x then [digit (x/0x10%16)] else [])++[digit (x%16)]

/-- `count` digits of a number in base `base`, from the most significant one. -/
def fieldsOf (base count n : ℕ) : List ℕ :=
  (List.range count).map fun i => n/base^(count-1-i)%base

def string4 (b : BitVec 32) : Str :=
  (str ".").intercalate ((fieldsOf 256 4 b.toNat).map appendDecimal)

/-- The length of the run of zero groups at the head. -/
def zeroRun (groups : List ℕ) : ℕ := (groups.takeWhile fun g => g = 0).length

/-- Take the run of zeros at `i` if it has at least two groups and is longer. -/
def longerRun (groups : List ℕ) (best : Option (ℕ × ℕ)) (i : ℕ) : Option (ℕ × ℕ) :=
  let l := zeroRun (groups.drop i)
  if 2 ≤ l ∧ (best.map fun run => run.2-run.1).getD 0 < l then some (i,i+l) else best

/-- Start and end of the first longest run of zero groups. -/
def longestZeros (groups : List ℕ) : Option (ℕ × ℕ) :=
  (List.range groups.length).foldl (longerRun groups) none

def joinGroups (groups : List ℕ) : Str := (str ":").intercalate (groups.map appendHex)

/-- The groups with an ellipsis for the longest run of zeros. -/
def stringGroups (groups : List ℕ) : Str :=
  match longestZeros groups with
  | none => joinGroups groups
  | some (start,stop) => joinGroups (groups.take start)++str "::"++joinGroups (groups.drop stop)

def string6 (b : BitVec 128) : Str := stringGroups (fieldsOf 65536 8 b.toNat)

def withZone (zone text : Str) : Str := if zone = [] then text else text++str "%"++zone

def Addr.string (a : Addr) : Str :=
  match a with
  | .invalid => str "invalid IP"
  | .v4 b => string4 b
  | .v6 b zone =>
    if a.is4In6 then withZone zone (str "::ffff:"++string4 (b.setWidth 32))
    else withZone zone (string6 b)

/-- A prefix has no more bits than its address. -/
structure Prefix where
  addr : Addr
  bits : ℕ
  bits_le : bits ≤ addr.bitLen
  noZone : addr.zone = []
  deriving DecidableEq

def parseNat10 (s : Str) : Option ℕ :=
  if s ≠ [] ∧ s.all isDigit then some (s.foldl (fun n c => n*10+(c.toNat-48)) 0) else none

def parsePrefix (s : Str) : Option Prefix := do
  let i ← lastIndexByte s 47
  let ip ← parseAddr (s.take i)
  let bitsStr := s.drop (i+1)
  if 1 < bitsStr.length ∧ bitsStr.head? = some 48 then none else
  let bits ← parseNat10 bitsStr
  if h : bits ≤ ip.bitLen ∧ ip.zone = [] then some ⟨ip,bits,h.1,h.2⟩ else none

/-- Clear the bits behind the prefix. -/
def maskBits {w : ℕ} (b : BitVec w) (bits : ℕ) : BitVec w := (b >>> (w-bits)) <<< (w-bits)

def Prefix.masked (p : Prefix) : Addr :=
  match p.addr with
  | .invalid => .invalid
  | .v4 b => .v4 (maskBits b p.bits)
  | .v6 b z => .v6 (maskBits b p.bits) z

def Prefix.contains (p : Prefix) (a : Addr) : Bool :=
  match p.addr,a with
  | .v4 b,.v4 c => maskBits b p.bits = maskBits c p.bits
  | .v6 b _,.v6 c zone => zone = [] ∧ maskBits b p.bits = maskBits c p.bits
  | _,_ => false

/-- The bytes of an address in network order. -/
def bytesOf (count n : ℕ) : Bytes := (fieldsOf 256 count n).map UInt8.ofNat

def Addr.as16 : Addr → Bytes
  | .invalid => bytesOf 16 0
  | .v4 b => List.replicate 10 0++[0xff,0xff]++bytesOf 4 b.toNat
  | .v6 b _ => bytesOf 16 b.toNat

/-- `netip.AddrFromSlice` -/
def addrFromSlice (ip : Bytes) : Option Addr :=
  let n := bigEndian (ip.map UInt8.toNat)
  if ip.length = 4 then some (.v4 (BitVec.ofNat 32 n))
  else if ip.length = 16 then some (.v6 (BitVec.ofNat 128 n) [])
  else none

/-- `net.ParseIP`, none for nil. -/
def parseIP (s : Str) : Option Bytes :=
  (parseAddr s).bind fun a => if a.zone = [] then some a.as16 else none

/-- `net.IP.To4`, none for nil. -/
def to4 (ip : Bytes) : Option Bytes :=
  if ip.length = 4 then some ip
  else if ip.length = 16 ∧ ip.take 12 = List.replicate 10 0++[0xff,0xff] then some (ip.drop 12)
  else none

/-- `net.ParseIP(s) != nil`. -/
def isIPLiteral (s : Str) : Bool :=
  match parseAddr s with
  | some a => a.zone = []
  | none => false

/-- `net.SplitHostPort`, none for an error. -/
def splitHostPort (s : Str) : Option (Str × Str) :=
  match lastIndexByte s 58 with
  | none => none
  | some i =>
    if s.head? = some 91 then
      match s.findIdx? fun c => c = 93 with
      | none => none
      | some stop =>
        if stop+1 = i ∧ ¬ contains (s.drop 1) 91 ∧ ¬ contains (s.drop (stop+1)) 93 then
          some ((s.take stop).drop 1,s.drop (i+1))
        else none
    else if contains (s.take i) 58 ∨ contains s 91 ∨ contains s 93 then none
    else some (s.take i,s.drop (i+1))

/-- The number of addresses under a prefix. -/
def Prefix.size (p : Prefix) : ℕ := 2^(p.addr.bitLen-p.bits)

section Range

theorem maskBits_toNat {w : ℕ} (b : BitVec w) (k : ℕ) :
    (maskBits b k).toNat = b.toNat/2^(w-k)*2^(w-k) := by
  rw [maskBits,BitVec.toNat_shiftLeft,BitVec.toNat_ushiftRight,Nat.shiftLeft_eq,
    Nat.shiftRight_eq_div_pow]
  exact Nat.mod_eq_of_lt (lt_of_le_of_lt (Nat.div_mul_le_self _ _) b.isLt)

/-- The addresses under a prefix end before or with the address space. -/
theorem toNat_add_size_le {w k : ℕ} {b : BitVec w} (hk : k ≤ w) (hb : maskBits b k = b) :
    b.toNat+2^(w-k) ≤ 2^w := by
  have hq : b.toNat/2^(w-k)*2^(w-k) = b.toNat := by rw [← maskBits_toNat,hb]
  have hw : 2^w = 2^k*2^(w-k) := by rw [← Nat.pow_add,Nat.add_sub_cancel' hk]
  have hlt : b.toNat/2^(w-k) < 2^k := by
    apply Nat.div_lt_of_lt_mul
    rw [Nat.mul_comm,← hw]
    exact b.isLt
  calc b.toNat+2^(w-k) = (b.toNat/2^(w-k)+1)*2^(w-k) := by rw [Nat.succ_mul,hq]
    _ ≤ 2^k*2^(w-k) := Nat.mul_le_mul_right _ hlt
    _ = 2^w := hw.symm

theorem maskBits_add {w k i : ℕ} {b : BitVec w} (hb : maskBits b k = b) (hi : b.toNat+i < 2^w) :
    maskBits b k = maskBits (BitVec.ofNat w (b.toNat+i)) k ↔ i < 2^(w-k) := by
  have hq : b.toNat/2^(w-k)*2^(w-k) = b.toNat := by rw [← maskBits_toNat,hb]
  have hpos : 0 < 2^(w-k) := Nat.two_pow_pos _
  have hdiv : (b.toNat+i)/2^(w-k) = b.toNat/2^(w-k)+i/2^(w-k) := by
    conv_lhs => rw [← hq]
    rw [Nat.add_comm,Nat.add_mul_div_right _ _ hpos,Nat.add_comm]
  rw [← BitVec.toNat_inj,maskBits_toNat,maskBits_toNat,BitVec.toNat_ofNat,Nat.mod_eq_of_lt hi,hdiv,
    Nat.mul_left_inj hpos.ne',Nat.left_eq_add,Nat.div_eq_zero_iff_lt hpos]

/-- The `i`-th address from the address of the prefix on, invalid behind the last one. -/
def Prefix.addrAt (p : Prefix) (i : ℕ) : Addr :=
  match p.addr with
  | .invalid => .invalid
  | .v4 b => if b.toNat+i < 2^32 then .v4 (BitVec.ofNat 32 (b.toNat+i)) else .invalid
  | .v6 b zone => if b.toNat+i < 2^128 then .v6 (BitVec.ofNat 128 (b.toNat+i)) zone else .invalid

/-- The address as a number. -/
def Addr.value : Addr → ℕ
  | .invalid => 0
  | .v4 b => b.toNat
  | .v6 b _ => b.toNat

theorem next_numbered {w n : ℕ} (mk : BitVec w → Addr) (hn : n < 2^w) :
    (if (BitVec.ofNat w n).toNat+1 = 2^w then Addr.invalid else mk (BitVec.ofNat w n+1)) =
      if n+1 < 2^w then mk (BitVec.ofNat w (n+1)) else .invalid := by
  rw [BitVec.toNat_ofNat,Nat.mod_eq_of_lt hn]
  by_cases h : n+1 = 2^w
  · rw [if_pos h,if_neg (by omega)]
  · rw [if_neg h,if_pos (by omega),BitVec.ofNat_add]
    rfl

theorem Prefix.addrAt_zero (p : Prefix) : p.addrAt 0 = p.addr := by
  obtain ⟨addr,k,hk,hz⟩ := p
  cases addr with
  | invalid => rfl
  | v4 b => simp [addrAt,b.isLt]
  | v6 b zone => simp [addrAt,b.isLt]

theorem Prefix.addr_ne_invalid {p : Prefix} (h : 2 ≤ p.size) : p.addr ≠ .invalid := by
  intro ha
  simp [size,ha,Addr.bitLen] at h

variable {p : Prefix} (hm : p.masked = p.addr)
include hm

theorem Prefix.next_addrAt {i : ℕ} (hi : i < p.size) : (p.addrAt i).next = p.addrAt (i+1) := by
  obtain ⟨addr,k,hk,hz⟩ := p
  cases addr with
  | invalid => rfl
  | v4 b =>
    have hlt : b.toNat+i < 2^32 :=
      lt_of_lt_of_le (Nat.add_lt_add_left hi _) (toNat_add_size_le hk (Addr.v4.inj hm))
    simp only [addrAt,if_pos hlt]
    exact next_numbered .v4 hlt
  | v6 b zone =>
    have hlt : b.toNat+i < 2^128 :=
      lt_of_lt_of_le (Nat.add_lt_add_left hi _) (toNat_add_size_le hk (Addr.v6.inj hm).1)
    simp only [addrAt,if_pos hlt]
    exact next_numbered (fun c => .v6 c zone) hlt

/-- Exactly the first `size` of them are under the prefix. -/
theorem Prefix.contains_addrAt (hv : p.addr ≠ .invalid) {i : ℕ} :
    p.contains (p.addrAt i) = true ↔ i < p.size := by
  obtain ⟨addr,k,hk,hz⟩ := p
  cases addr with
  | invalid => exact absurd rfl hv
  | v4 b =>
    have hb := Addr.v4.inj hm
    have hs : b.toNat+2^(32-k) ≤ 2^32 := toNat_add_size_le hk hb
    by_cases hlt : b.toNat+i < 2^32
    · simp only [addrAt,if_pos hlt,contains,decide_eq_true_eq]
      exact maskBits_add hb hlt
    · simp only [addrAt,if_neg hlt,contains,Bool.false_eq_true,false_iff,not_lt]
      change 2^(32-k) ≤ i
      omega
  | v6 b zone =>
    have hb := (Addr.v6.inj hm).1
    have hs : b.toNat+2^(128-k) ≤ 2^128 := toNat_add_size_le hk hb
    have hzone : zone = [] := hz
    by_cases hlt : b.toNat+i < 2^128
    · simp only [addrAt,if_pos hlt,contains,hzone,true_and,decide_eq_true_eq]
      exact maskBits_add hb hlt
    · simp only [addrAt,if_neg hlt,contains,Bool.false_eq_true,false_iff,not_lt]
      change 2^(128-k) ≤ i
      omega

/-- Up to the last address under the prefix, the number of an address grows by one. -/
theorem Prefix.value_addrAt {i : ℕ} (hi : i < p.size) :
    (p.addrAt i).value = p.addr.value+i := by
  obtain ⟨addr,k,hk,hz⟩ := p
  cases addr with
  | invalid =>
    simp only [size,Addr.bitLen,Nat.zero_sub,Nat.pow_zero] at hi
    obtain rfl : i = 0 := by omega
    rfl
  | v4 b =>
    have hlt : b.toNat+i < 2^32 :=
      lt_of_lt_of_le (Nat.add_lt_add_left hi _) (toNat_add_size_le hk (Addr.v4.inj hm))
    simp only [addrAt,if_pos hlt,Addr.value]
    rw [BitVec.toNat_ofNat,Nat.mod_eq_of_lt hlt]
  | v6 b zone =>
    have hlt : b.toNat+i < 2^128 :=
      lt_of_lt_of_le (Nat.add_lt_add_left hi _) (toNat_add_size_le hk (Addr.v6.inj hm).1)
    simp only [addrAt,if_pos hlt,Addr.value]
    rw [BitVec.toNat_ofNat,Nat.mod_eq_of_lt hlt]

/-- The addresses are different, up to and with the one behind the last. -/
theorem Prefix.addrAt_inj (hv : p.addr ≠ .invalid) {i j : ℕ} (hi : i ≤ p.size) (hj : j ≤ p.size)
    (h : p.addrAt i = p.addrAt j) : i = j := by
  have inside : i < p.size ↔ j < p.size := by
    rw [← Prefix.contains_addrAt hm hv,← Prefix.contains_addrAt hm hv,h]
  by_cases hlt : i < p.size
  · have hvalue := congrArg Addr.value h
    rw [Prefix.value_addrAt hm hlt,Prefix.value_addrAt hm (inside.mp hlt)] at hvalue
    omega
  · have hlt' := mt inside.mpr hlt
    omega

theorem Prefix.addrAt_ne_addr {i : ℕ} (hpos : 1 ≤ i) (hi : i < p.size) : p.addrAt i ≠ p.addr := by
  intro heq
  have hvalue := congrArg Addr.value heq
  rw [Prefix.value_addrAt hm hi] at hvalue
  omega

/-- Every address under the prefix is one of them. -/
theorem Prefix.exists_addrAt {a : Addr} (h : p.contains a = true) :
    ∃ i < p.size, a = p.addrAt i := by
  have number : ∀ {w k : ℕ} {b c : BitVec w}, maskBits b k = b → maskBits b k = maskBits c k →
      ∃ i < 2^(w-k), c.toNat = b.toNat+i := by
    intro w k b c hb hc
    have hbc : b.toNat = c.toNat/2^(w-k)*2^(w-k) := by rw [← maskBits_toNat,← hc,hb]
    refine ⟨c.toNat%2^(w-k),Nat.mod_lt _ (Nat.two_pow_pos _),?_⟩
    rw [hbc,Nat.mul_comm,Nat.div_add_mod]
  obtain ⟨addr,k,hk,hz⟩ := p
  cases addr with
  | invalid => simp [Prefix.contains] at h
  | v4 b =>
    cases a with
    | invalid => simp [Prefix.contains] at h
    | v6 c zone => simp [Prefix.contains] at h
    | v4 c =>
      obtain ⟨i,hi,hc⟩ := number (Addr.v4.inj hm) (of_decide_eq_true h)
      have hlt : b.toNat+i < 2^32 := hc ▸ c.isLt
      refine ⟨i,hi,?_⟩
      simp only [addrAt,if_pos hlt]
      rw [← hc,BitVec.ofNat_toNat,BitVec.setWidth_eq]
  | v6 b zone =>
    cases a with
    | invalid => simp [Prefix.contains] at h
    | v4 c => simp [Prefix.contains] at h
    | v6 c zone' =>
      have hboth : zone' = [] ∧ maskBits b k = maskBits c k := of_decide_eq_true h
      obtain ⟨i,hi,hc⟩ := number (Addr.v6.inj hm).1 hboth.2
      have hlt : b.toNat+i < 2^128 := hc ▸ c.isLt
      have hzone : zone = [] := hz
      refine ⟨i,hi,?_⟩
      simp only [addrAt,if_pos hlt]
      rw [← hc,BitVec.ofNat_toNat,BitVec.setWidth_eq,hboth.1,hzone]

end Range
end NetIP
end Enimul
