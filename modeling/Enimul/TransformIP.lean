import Enimul.GenPolicy
import Enimul.LongestPrefix

/-! Addresses moved into another network.
The bytes of the moved address come from the network, from the address or, in the byte where the
prefix ends, from both. Bit by bit, the bits of the prefix are those of the network and the others
are kept. -/
namespace Enimul
namespace GenPolicy

open GoSlice GoText NetIP IPTrie

section Bytes

/-- Byte `k` of a number has its bits. -/
theorem testBit_bigEndian {bytes : List ℕ} (h : ∀ x ∈ bytes, x < 256) : ∀ {k j : ℕ},
    k < bytes.length → j < 8 →
      (bigEndian bytes).testBit (8*(bytes.length-1-k)+j) = (bytes.getD k 0).testBit j := by
  induction bytes with
  | nil => simp
  | cons a as ih =>
    intro k j hk hj
    have rest : ∀ x ∈ as, x < 256 := fun x hx => h x (List.mem_cons_of_mem a hx)
    have base : (256 : ℕ)^as.length = 2^(8*as.length) := by rw [Nat.pow_mul]
    have low : bigEndian as < 2^(8*as.length) := base ▸ bigEndian_lt rest
    rw [bigEndian_cons,base,Nat.mul_comm,Nat.testBit_two_pow_mul_add a low]
    cases k with
    | zero => simp
    | succ k =>
      have hk' : k < as.length := Nat.lt_of_succ_lt_succ hk
      have place : (a::as).length-1-(k+1) = as.length-1-k := by
        simp only [List.length_cons]
        omega
      rw [place,if_pos (by omega)]
      exact ih rest hk' hj

theorem testBit_fieldsOf {count n k j : ℕ} (hk : k < count) (hj : j < 8) :
    ((fieldsOf 256 count n).getD k 0).testBit j = n.testBit (8*(count-1-k)+j) := by
  have field : (fieldsOf 256 count n).getD k 0 = n/2^(8*(count-1-k))%2^8 := by
    rw [Nat.pow_mul]
    simp [fieldsOf,hk]
  rw [field,Nat.testBit_mod_two_pow,Nat.testBit_div_two_pow,decide_eq_true hj,Bool.true_and,
    Nat.add_comm]

/-- The mask of the byte in which the prefix ends. -/
theorem testBit_mask : ∀ s < 8, ∀ j < 8, (0xFF <<< s % 256).testBit j = decide (s ≤ j) := by decide

/-- Bit `7-j` of a byte, counted from the front, is taken from the network if the prefix reaches
it. -/
theorem testBit_transformByte (bits i netByte ipByte : ℕ) {j : ℕ} (hj : j < 8) :
    (transformByte bits i netByte ipByte).testBit j =
      if i*8+(7-j) < bits then netByte.testBit j else ipByte.testBit j := by
  unfold transformByte
  dsimp only
  split
  · rw [if_pos (by omega)]
  · split
    · rw [if_neg (by omega)]
    · have mask := testBit_mask (8-(bits-i*8)) (by omega) j hj
      have all : Nat.testBit 255 j = true := testBit_mask 0 (by decide) j hj
      rw [Nat.testBit_or,Nat.testBit_and,Nat.testBit_and,Nat.testBit_xor,mask,all]
      by_cases inside : i*8+(7-j) < bits
      · simp [inside,show 8-(bits-i*8) ≤ j by omega]
      · simp [inside,show ¬ 8-(bits-i*8) ≤ j by omega]

theorem transformByte_lt {bits i netByte ipByte : ℕ} (hnet : netByte < 256) (hip : ipByte < 256) :
    transformByte bits i netByte ipByte < 256 := by
  unfold transformByte
  dsimp only
  split
  · exact hnet
  · split
    · exact hip
    · exact Nat.or_lt_two_pow (n := 8) (Nat.and_le_left.trans_lt hnet)
        (Nat.and_le_left.trans_lt hip)

theorem transformBytes_length (bits : ℕ) (netBytes ipBytes : List ℕ) :
    (transformBytes bits netBytes ipBytes).length = min netBytes.length ipBytes.length := by
  simp [transformBytes]

theorem transformBytes_getD {bits k : ℕ} {netBytes ipBytes : List ℕ} (hn : k < netBytes.length)
    (hi : k < ipBytes.length) : (transformBytes bits netBytes ipBytes).getD k 0 =
      transformByte bits k (netBytes.getD k 0) (ipBytes.getD k 0) := by
  simp [transformBytes,hn,hi]

theorem transformBytes_lt (bits : ℕ) {netBytes ipBytes : List ℕ} (hn : ∀ x ∈ netBytes, x < 256)
    (hi : ∀ x ∈ ipBytes, x < 256) : ∀ x ∈ transformBytes bits netBytes ipBytes, x < 256 := by
  intro x hx
  obtain ⟨⟨⟨a,b⟩,i⟩,hmem,rfl⟩ := List.mem_map.mp hx
  have pair : (a,b) ∈ netBytes.zip ipBytes := (List.mem_zipIdx' hmem).2 ▸ List.getElem_mem _
  exact transformByte_lt (hn a (List.of_mem_zip pair).1) (hi b (List.of_mem_zip pair).2)

/-- The moved address, bit by bit from the front. -/
theorem getMsbD_transformBytes {w count : ℕ} (hw : w = 8*count) (bits : ℕ) (net b : BitVec w)
    {i : ℕ} (hi : i < w) :
    (BitVec.ofNat w (bigEndian (transformBytes bits (fieldsOf 256 count net.toNat)
      (fieldsOf 256 count b.toNat)))).getMsbD i =
        if i < bits then net.getMsbD i else b.getMsbD i := by
  have hk : i/8 < count := by omega
  have hj : 7-i%8 < 8 := by omega
  have place : w-1-i = 8*(count-1-i/8)+(7-i%8) := by omega
  have front : i/8*8+(7-(7-i%8)) = i := by omega
  have count_eq : (transformBytes bits (fieldsOf 256 count net.toNat)
      (fieldsOf 256 count b.toNat)).length = count := by
    simp [transformBytes_length,fieldsOf_length]
  have small : ∀ (n : ℕ), ∀ x ∈ fieldsOf 256 count n, x < 256 := fun _ _ hx =>
    fieldsOf_lt (by decide) hx
  have bytes := testBit_bigEndian (transformBytes_lt bits (small net.toNat)
    (small b.toNat)) (k := i/8) (j := 7-i%8) (by rw [count_eq]; exact hk) hj
  rw [count_eq,transformBytes_getD (by simpa [fieldsOf_length]) (by simpa [fieldsOf_length]),
    testBit_transformByte _ _ _ _ hj,front,testBit_fieldsOf hk hj,testBit_fieldsOf hk hj,
    ← place] at bytes
  simp only [BitVec.getMsbD_eq_getLsbD,hi,decide_true,Bool.true_and]
  rw [BitVec.getLsbD_ofNat,bytes,decide_eq_true (show w-1-i < w by omega)]
  rfl

end Bytes

section Networks

/-- The address in the target network; invalid where the families differ. -/
def transformed (target : Prefix) (ip : Addr) : Addr :=
  match ip,target.masked with
  | .v4 b,.v4 net => .v4 (BitVec.ofNat 32 (bigEndian
      (transformBytes target.bits (fieldsOf 256 4 net.toNat) (fieldsOf 256 4 b.toNat))))
  | .v6 b _,.v6 net _ => .v6 (BitVec.ofNat 128 (bigEndian
      (transformBytes target.bits (fieldsOf 256 16 net.toNat) (fieldsOf 256 16 b.toNat)))) []
  | _,_ => .invalid

variable {ipStr targetNetStr : Str} {ip : Addr} {target : Prefix}

theorem bits_of_msb {w bits : ℕ} {r net b : BitVec w}
    (h : ∀ i < w, r.getMsbD i = if i < bits then net.getMsbD i else b.getMsbD i) :
    (List.range w).map r.getMsbD =
      ((List.range w).map net.getMsbD).take bits++((List.range w).map b.getMsbD).drop bits := by
  apply List.ext_getElem
  · simp
    omega
  · intro i h₁ h₂
    have hi : i < w := by simpa using h₁
    rw [List.getElem_append]
    by_cases front : i < bits
    · simp [front,hi,h i hi]
    · have back : bits+(i-min bits w) = i := by omega
      simp [front,hi,h i hi,back]

/-- What the moved address is: an address of its family, without a zone. -/
structure Moved (target : Prefix) (ip r : Addr) : Prop where
  valid : r ≠ .invalid
  family : r.is4 = target.addr.is4
  zone : r.zone = []
  bits : r.bits = target.masked.bits.take target.bits++ip.bits.drop target.bits

theorem transformed_moved (hip : ip ≠ .invalid) (hsame : ip.is4 = target.addr.is4)
    (ht : target.addr ≠ .invalid) : Moved target ip (transformed target ip) := by
  obtain ⟨addr,k,hk,hz⟩ := target
  cases addr with
  | invalid => exact absurd rfl ht
  | v4 net =>
    cases ip with
    | invalid => exact absurd rfl hip
    | v6 b zone => simp [Addr.is4] at hsame
    | v4 b =>
      exact ⟨by simp [transformed,Prefix.masked],rfl,rfl,
        bits_of_msb fun i hi => getMsbD_transformBytes (by rfl) k _ b hi⟩
  | v6 net zone' =>
    cases ip with
    | invalid => exact absurd rfl hip
    | v4 b => simp [Addr.is4] at hsame
    | v6 b zone =>
      exact ⟨by simp [transformed,Prefix.masked],rfl,rfl,
        bits_of_msb fun i hi => getMsbD_transformBytes (by rfl) k _ b hi⟩

/-- The text is transformed as the address is. -/
theorem transformIP_of_parsed (hip : parseAddr ipStr = some ip)
    (ht : parsePrefix targetNetStr = some target) :
    transformIP ipStr targetNetStr =
      if ip.is4 = target.addr.is4 then .ok (transformed target ip).string
      else .error "IP version mismatch between source IP and target network" := by
  have hvalid := parseAddr_ne_invalid hip
  have htarget := parsePrefix_ne_invalid ht
  simp only [transformIP,hip,ht,transformed]
  obtain ⟨addr,k,hk,hz⟩ := target
  cases addr <;> cases ip <;> first | rfl | contradiction

/-- An address without a zone is known by its family and its bits. -/
theorem addr_eq_of_bits {a b : Addr} (ha : a ≠ .invalid) (hb : b ≠ .invalid) (hza : a.zone = [])
    (hzb : b.zone = []) (hsame : a.is4 = b.is4) (h : a.bits = b.bits) : a = b := by
  have vectors : ∀ {w : ℕ} {c d : BitVec w},
      (List.range w).map c.getMsbD = (List.range w).map d.getMsbD → c = d := by
    intro w c d hcd
    apply BitVec.eq_of_getMsbD_eq
    intro i hi
    exact List.map_inj_left.mp hcd i (List.mem_range.mpr hi)
  cases a with
  | invalid => exact absurd rfl ha
  | v4 c =>
    cases b with
    | invalid => exact absurd rfl hb
    | v4 d => rw [vectors h]
    | v6 d zone => simp [Addr.is4] at hsame
  | v6 c zone =>
    cases b with
    | invalid => exact absurd rfl hb
    | v4 d => simp [Addr.is4] at hsame
    | v6 d zone' =>
      have hzone : zone = [] := hza
      have hzone' : zone' = [] := hzb
      rw [vectors h,hzone,hzone']

theorem masked_take_bits (target : Prefix) :
    target.masked.bits.take target.bits = netBits target := by
  have vectors : ∀ {w k : ℕ} (b : BitVec w), k ≤ w →
      ((List.range w).map (maskBits b k).getMsbD).take k = ((List.range w).map b.getMsbD).take k := by
    intro w k b hk
    rw [← List.map_take,← List.map_take,List.take_range,Nat.min_eq_left hk,List.map_inj_left]
    intro i hi
    simp [getMsbD_maskBits b hk,List.mem_range.mp hi]
  obtain ⟨addr,k,hk,hz⟩ := target
  cases addr with
  | invalid => rfl
  | v4 b => exact vectors b hk
  | v6 b zone => exact vectors b hk

theorem length_masked_take (target : Prefix) :
    (target.masked.bits.take target.bits).length = target.bits := by
  rw [masked_take_bits,length_netBits]

namespace Moved

variable {r : Addr} (h : Moved target ip r)
include h

theorem contains (ht : target.addr ≠ .invalid) : target.contains r = true := by
  rw [contains_iff_bits ht h.valid h.zone h.family.symm,h.bits,masked_take_bits]
  exact List.prefix_append _ _

theorem parsed : parseAddr r.string = some r := parseAddr_string h.valid h.zone

theorem drop_bits : r.bits.drop target.bits = ip.bits.drop target.bits := by
  rw [h.bits,List.drop_left' (length_masked_take target)]

/-- Moved addresses are equal exactly when the bits behind the prefix are. -/
theorem string_eq_iff {ip' r' : Addr} (h' : Moved target ip' r') :
    r'.string = r.string ↔ ip'.bits.drop target.bits = ip.bits.drop target.bits := by
  constructor
  · intro heq
    have haddr : r' = r := Option.some.inj (h'.parsed.symm.trans (heq ▸ h.parsed))
    rw [← h.drop_bits,← h'.drop_bits,haddr]
  · intro hdrop
    have hbits : r'.bits = r.bits := by rw [h.bits,h'.bits,hdrop]
    rw [addr_eq_of_bits h'.valid h.valid h'.zone h.zone (h'.family.trans h.family.symm) hbits]

end Moved

/-- An address that is transformed gets the bits of the target in front and keeps its own behind
them: it lies in the target and is left alone by a second transformation, and exactly the
addresses with the same bits behind the prefix get the same result. -/
theorem transformIP_combines (hip : parseAddr ipStr = some ip)
    (ht : parsePrefix targetNetStr = some target) :
    (ip.is4 ≠ target.addr.is4 → transformIP ipStr targetNetStr =
      .error "IP version mismatch between source IP and target network") ∧
    (ip.is4 = target.addr.is4 → ∃ r : Addr,
      transformIP ipStr targetNetStr = .ok r.string ∧ parseAddr r.string = some r ∧
      r.is4 = ip.is4 ∧
      r.bits = target.masked.bits.take target.bits++ip.bits.drop target.bits ∧
      target.contains r = true ∧
      transformIP r.string targetNetStr = .ok r.string ∧
      ∀ ipStr' ip', parseAddr ipStr' = some ip' → ip'.is4 = target.addr.is4 →
        (transformIP ipStr' targetNetStr = transformIP ipStr targetNetStr ↔
          ip'.bits.drop target.bits = ip.bits.drop target.bits)) := by
  have htarget := parsePrefix_ne_invalid ht
  have moved : ∀ {s : Str} {a : Addr}, parseAddr s = some a → a.is4 = target.addr.is4 →
      Moved target a (transformed target a) ∧
        transformIP s targetNetStr = .ok (transformed target a).string := by
    intro s a ha hsame
    constructor
    · exact transformed_moved (parseAddr_ne_invalid ha) hsame htarget
    · rw [transformIP_of_parsed ha ht,if_pos hsame]
  constructor
  · intro hdiff
    rw [transformIP_of_parsed hip ht,if_neg hdiff]
  · intro hsame
    obtain ⟨hmoved,htext⟩ := moved hip hsame
    obtain ⟨hagain,hsecond⟩ := moved hmoved.parsed hmoved.family
    refine ⟨_,htext,hmoved.parsed,hmoved.family.trans hsame.symm,hmoved.bits,
      hmoved.contains htarget,?_,?_⟩
    · rw [hsecond,(hmoved.string_eq_iff hagain).mpr hmoved.drop_bits]
    · intro ipStr' ip' hip' hsame'
      obtain ⟨hmoved',htext'⟩ := moved hip' hsame'
      rw [htext,htext',Except.ok.injEq]
      exact hmoved.string_eq_iff hmoved'

theorem transformIP_combines_straddle :
    parseAddr (str "203.0.113.77") = some (.v4 0xcb00714d) ∧
      ∃ r : Addr, transformIP (str "203.0.113.77") (str "10.20.32.0/19") = .ok r.string ∧
        r.bits = (Addr.v4 0x0a142000).bits.take 19++(Addr.v4 0xcb00714d).bits.drop 19 := by
  have hip : parseAddr (str "203.0.113.77") = some (.v4 0xcb00714d) := by decide
  have ht : parsePrefix (str "10.20.32.0/19") = some ⟨.v4 0x0a142000,19,by decide,rfl⟩ := by decide
  obtain ⟨r,htext,-,-,hbits,-⟩ := (transformIP_combines hip ht).2 rfl
  exact ⟨hip,r,htext,hbits⟩

end Networks

end GenPolicy
end Enimul
