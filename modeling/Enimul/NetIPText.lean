import Enimul.NetIP
import Mathlib.Data.List.TakeWhile
import Mathlib.Tactic.Ring

/-! Reading back a printed address.
The text of an address is parsed into the same address again, so different addresses have
different texts. -/
namespace Enimul
namespace NetIP

open GoSlice GoText

section Numbers

/-- Reading the digits of a number in base `base`. -/
theorem foldl_fieldsOf (base count n acc : ℕ) :
    (fieldsOf base count n).foldl (fun m d => m*base+d) acc = acc*base^count+n%base^count := by
  induction count generalizing acc with
  | zero => simp [fieldsOf,Nat.mod_one]
  | succ count ih =>
    have hcons : fieldsOf base (count+1) n = (n/base^count%base)::fieldsOf base count n := by
      rw [fieldsOf,List.range_succ_eq_map,List.map_cons,List.map_map,fieldsOf]
      congr 1
      apply List.map_congr_left
      intro i hi
      have : count+1-1-(i+1) = count-1-i := by omega
      simp only [Function.comp_apply,Nat.succ_eq_add_one,this]
    have hmod : n%base^(count+1) = n%base^count+base^count*(n/base^count%base) := Nat.mod_mul
    rw [hcons,List.foldl_cons,ih,hmod,Nat.pow_succ,Nat.add_mul,Nat.mul_assoc,
      Nat.mul_comm base,Nat.mul_comm (base^count) (n/base^count%base)]
    omega

theorem bigEndian_fieldsOf {count n : ℕ} (h : n < 256^count) :
    bigEndian (fieldsOf 256 count n) = n := by
  rw [bigEndian,foldl_fieldsOf,Nat.mod_eq_of_lt h,Nat.zero_mul,Nat.zero_add]

/-- The two bytes of a group. -/
def groupBytes (g : ℕ) : List ℕ := [g/256,g%256]

theorem foldl_groupBytes (groups : List ℕ) (acc : ℕ) :
    (groups.flatMap groupBytes).foldl (fun m b => m*256+b) acc =
      groups.foldl (fun m g => m*65536+g) acc := by
  induction groups generalizing acc with
  | nil => simp
  | cons g gs ih =>
    have hg : (groupBytes g).foldl (fun m b => m*256+b) acc = acc*65536+g := by
      simp only [groupBytes,List.foldl_cons,List.foldl_nil]
      omega
    rw [List.flatMap_cons,List.foldl_append,hg,ih,List.foldl_cons]

theorem bigEndian_groups {n : ℕ} (h : n < 2^128) :
    bigEndian ((fieldsOf 65536 8 n).flatMap groupBytes) = n := by
  have hmod : n%65536^8 = n := Nat.mod_eq_of_lt (lt_of_lt_of_eq h (by decide))
  rw [bigEndian,foldl_groupBytes,foldl_fieldsOf,hmod,Nat.zero_mul,Nat.zero_add]

theorem fieldsOf_lt {base count n x : ℕ} (hb : 0 < base) (hx : x ∈ fieldsOf base count n) :
    x < base := by
  obtain ⟨i,-,rfl⟩ := List.mem_map.mp hx
  exact Nat.mod_lt _ hb

theorem fieldsOf_length (base count n : ℕ) : (fieldsOf base count n).length = count := by
  simp [fieldsOf]

theorem bigEndian_append (as bs : List ℕ) :
    bigEndian (as++bs) = bigEndian as*256^bs.length+bigEndian bs := by
  have hfold : ∀ (cs : List ℕ) (n : ℕ), cs.foldl (fun n b => n*256+b) n =
      n*256^cs.length+bigEndian cs := by
    intro cs
    induction cs with
    | nil => simp [bigEndian]
    | cons c cs ih =>
      intro n
      have hcons : bigEndian (c::cs) = (0*256+c)*256^cs.length+bigEndian cs := ih (0*256+c)
      rw [List.foldl_cons,ih,hcons,List.length_cons]
      ring
  rw [bigEndian,List.foldl_append,hfold bs]
  rfl

theorem bigEndian_cons (a : ℕ) (as : List ℕ) :
    bigEndian (a::as) = a*256^as.length+bigEndian as := by
  have hone : bigEndian [a] = a := by simp [bigEndian]
  rw [← List.singleton_append,bigEndian_append,hone]

end Numbers

section Octets

theorem digit_decimal : ∀ d < 10, isDigit (digit d) = true ∧ (digit d).toNat-48 = d := by decide

theorem parseOctets_digit {d val n : ℕ} (hd : d < 10) (hn : ¬(n = 1 ∧ val = 0))
    (hval : val*10+d ≤ 255) (rest : Str) (fields : List ℕ) :
    parseOctets (digit d::rest) val n fields = parseOctets rest (val*10+d) (n+1) fields := by
  obtain ⟨hdig,hnat⟩ := digit_decimal d hd
  rw [parseOctets,if_pos hdig,if_neg hn]
  simp only [hnat]
  rw [if_neg (by omega)]

/-- A printed octet is read as its value, with at least one digit. -/
theorem parseOctets_appendDecimal {x : ℕ} (hx : x < 256) (rest : Str) (fields : List ℕ) :
    ∃ n, 0 < n ∧ parseOctets (appendDecimal x++rest) 0 0 fields = parseOctets rest x n fields := by
  by_cases h₁ : 100 ≤ x
  · refine ⟨3,by omega,?_⟩
    rw [appendDecimal,if_pos h₁,if_pos (by omega)]
    simp only [List.cons_append,List.nil_append]
    rw [parseOctets_digit (by omega) (by omega) (by omega),
      parseOctets_digit (by omega) (by omega) (by omega),
      parseOctets_digit (by omega) (by omega) (by omega)]
    congr 1
    omega
  by_cases h₂ : 10 ≤ x
  · refine ⟨2,by omega,?_⟩
    rw [appendDecimal,if_neg h₁,if_pos h₂]
    simp only [List.cons_append,List.nil_append]
    rw [parseOctets_digit (by omega) (by omega) (by omega),
      parseOctets_digit (by omega) (by omega) (by omega)]
    congr 1
    omega
  · refine ⟨1,by omega,?_⟩
    rw [appendDecimal,if_neg h₁,if_neg h₂]
    simp only [List.cons_append,List.nil_append]
    rw [parseOctets_digit (by omega) (by omega) (by omega)]
    congr 1
    omega

theorem appendDecimal_ne_nil (x : ℕ) : appendDecimal x ≠ [] := by simp [appendDecimal]

/-- An octet with a dot and more text behind it. -/
theorem parseOctets_dot {x : ℕ} (hx : x < 256) {rest : Str} (hr : rest ≠ []) {fields : List ℕ}
    (hf : fields.length ≠ 3) :
    parseOctets (appendDecimal x++46::rest) 0 0 fields = parseOctets rest 0 0 (fields++[x]) := by
  obtain ⟨n,hn,heq⟩ := parseOctets_appendDecimal hx (46::rest) fields
  rw [heq,parseOctets,if_neg (by decide),if_pos rfl,if_neg (by simp [hr]; omega),if_neg hf]

theorem parseOctets_last {x : ℕ} (hx : x < 256) {fields : List ℕ} (hf : fields.length = 3) :
    parseOctets (appendDecimal x) 0 0 fields = some (fields++[x]) := by
  obtain ⟨n,-,heq⟩ := parseOctets_appendDecimal hx [] fields
  rw [List.append_nil] at heq
  rw [heq,parseOctets,if_neg (by omega)]

theorem digit_not_separator : ∀ d < 16, isSeparator (digit d) = false := by decide

theorem find_separator_digits {ds : Str} (h : ∀ c ∈ ds, ∃ d < 16, c = digit d) (rest : Str) :
    (ds++rest).find? isSeparator = rest.find? isSeparator := by
  have hnone : ds.find? isSeparator = none := by
    rw [List.find?_eq_none]
    intro c hc
    obtain ⟨d,hd,rfl⟩ := h c hc
    simp [digit_not_separator d hd]
  rw [List.find?_append,hnone,Option.none_or]

theorem mem_appendDecimal {x : ℕ} (hx : x < 256) {c : UInt8} (hc : c ∈ appendDecimal x) :
    ∃ d < 16, c = digit d := by
  simp only [appendDecimal,List.mem_append,List.mem_singleton] at hc
  rcases hc with (hc | hc) | hc
  · split at hc
    · exact ⟨x/100,by omega,by simpa using hc⟩
    · simp at hc
  · split at hc
    · exact ⟨x/10%10,by omega,by simpa using hc⟩
    · simp at hc
  · exact ⟨x%10,by omega,hc⟩

/-- The text of four octets, written out. -/
theorem string4_text (b : BitVec 32) : ∃ x₀ x₁ x₂ x₃, fieldsOf 256 4 b.toNat = [x₀,x₁,x₂,x₃] ∧
    string4 b =
      appendDecimal x₀++46::(appendDecimal x₁++46::(appendDecimal x₂++46::appendDecimal x₃)) := by
  rw [string4]
  match fieldsOf 256 4 b.toNat,fieldsOf_length 256 4 b.toNat with
  | [x₀,x₁,x₂,x₃],_ => exact ⟨x₀,x₁,x₂,x₃,rfl,by simp [List.intercalate,str]⟩

theorem parseIPv4Fields_string4 (b : BitVec 32) :
    parseIPv4Fields (string4 b) = some (fieldsOf 256 4 b.toNat) := by
  have hlt : ∀ x ∈ fieldsOf 256 4 b.toNat, x < 256 := fun x hx => fieldsOf_lt (by decide) hx
  obtain ⟨x₀,x₁,x₂,x₃,hf,htext⟩ := string4_text b
  rw [hf] at hlt ⊢
  have hdot : ∀ (x : ℕ) (rest : Str), appendDecimal x++46::rest ≠ [] := by simp
  rw [htext,parseIPv4Fields,
    parseOctets_dot (hlt x₀ (by simp)) (hdot _ _) (by simp),
    parseOctets_dot (hlt x₁ (by simp)) (hdot _ _) (by simp),
    parseOctets_dot (hlt x₂ (by simp)) (appendDecimal_ne_nil x₃) (by simp),
    parseOctets_last (hlt x₃ (by simp)) rfl]
  rfl

/-- Four octets start with a decimal number and a dot. -/
theorem string4_head (b : BitVec 32) :
    ∃ x < 256, ∃ rest, string4 b = appendDecimal x++46::rest := by
  obtain ⟨x₀,x₁,x₂,x₃,hf,htext⟩ := string4_text b
  have hx : x₀ ∈ fieldsOf 256 4 b.toNat := hf ▸ List.mem_cons_self
  exact ⟨x₀,fieldsOf_lt (by decide) hx,_,htext⟩

theorem mem_string4 (b : BitVec 32) {c : UInt8} (hc : c ∈ string4 b) :
    c = 46 ∨ ∃ d < 16, c = digit d := by
  obtain ⟨x₀,x₁,x₂,x₃,hf,htext⟩ := string4_text b
  have hlt : ∀ x ∈ [x₀,x₁,x₂,x₃], x < 256 := fun x hx => fieldsOf_lt (by decide) (hf ▸ hx)
  simp only [htext,List.mem_append,List.mem_cons] at hc
  rcases hc with hc | hc | hc | hc | hc | hc | hc
  · exact .inr (mem_appendDecimal (hlt x₀ (by simp)) hc)
  · exact .inl hc
  · exact .inr (mem_appendDecimal (hlt x₁ (by simp)) hc)
  · exact .inl hc
  · exact .inr (mem_appendDecimal (hlt x₂ (by simp)) hc)
  · exact .inl hc
  · exact .inr (mem_appendDecimal (hlt x₃ (by simp)) hc)

theorem parseAddr_string4 (b : BitVec 32) : parseAddr (string4 b) = some (.v4 b) := by
  obtain ⟨x,hx,rest,htext⟩ := string4_head b
  have hfirst : (string4 b).find? isSeparator = some 46 := by
    rw [htext,find_separator_digits fun c hc => mem_appendDecimal hx hc]
    rfl
  rw [parseAddr,hfirst]
  change parseIPv4 _ = _
  rw [parseIPv4,parseIPv4Fields_string4,Option.map_some,bigEndian_fieldsOf b.isLt,
    BitVec.ofNat_toNat,BitVec.setWidth_eq]

end Octets

section Groups

theorem digit_hex : ∀ d < 16, hexValue (digit d) = some d := by decide

theorem mem_appendHex {x : ℕ} (hx : x < 65536) {c : UInt8} (hc : c ∈ appendHex x) :
    ∃ d < 16, c = digit d := by
  simp only [appendHex,List.mem_append,List.mem_singleton] at hc
  rcases hc with ((hc | hc) | hc) | hc
  · split at hc
    · exact ⟨x/0x1000,by omega,by simpa using hc⟩
    · simp at hc
  · split at hc
    · exact ⟨x/0x100%16,by omega,by simpa using hc⟩
    · simp at hc
  · split at hc
    · exact ⟨x/0x10%16,by omega,by simpa using hc⟩
    · simp at hc
  · exact ⟨x%16,by omega,hc⟩

theorem appendHex_fits (x : ℕ) : ¬((appendHex x).length = 0 ∨ 4 < (appendHex x).length) := by
  rw [appendHex]
  split <;> split <;> split <;> simp

/-- The digits of a printed group give its value. -/
theorem value_appendHex {x : ℕ} (hx : x < 65536) :
    (appendHex x).foldl (fun n c => n*16+(hexValue c).getD 0) 0 = x := by
  have h₀ := digit_hex (x%16) (by omega)
  have h₁ := digit_hex (x/0x10%16) (by omega)
  have h₂ := digit_hex (x/0x100%16) (by omega)
  have h₃ := digit_hex (x/0x1000) (by omega)
  rw [appendHex]
  split <;> split <;> split <;>
    simp only [List.nil_append,List.cons_append,List.foldl_cons,List.foldl_nil,h₀,h₁,h₂,h₃,
      Option.getD_some] <;> omega

theorem takeWhile_appendHex {x : ℕ} (hx : x < 65536) {rest : Str}
    (hr : rest.takeWhile isHex = []) : (appendHex x++rest).takeWhile isHex = appendHex x := by
  rw [List.takeWhile_append_of_pos,hr,List.append_nil]
  intro c hc
  obtain ⟨d,hd,rfl⟩ := mem_appendHex hx hc
  simp [isHex,digit_hex d hd]

section Step

variable {x : ℕ} (hx : x < 65536) (rounds : ℕ) (ip : List ℕ)
include hx

theorem parseGroups_end (ellipsis : Option ℕ) :
    parseGroups (rounds+1) (appendHex x) ip ellipsis = some ([],ip++groupBytes x,ellipsis) := by
  have htake : (appendHex x++[]).takeWhile isHex = appendHex x := takeWhile_appendHex hx rfl
  rw [List.append_nil] at htake
  rw [parseGroups,htake,if_neg (appendHex_fits x),value_appendHex hx,List.drop_length]
  rfl

theorem parseGroups_colon (ellipsis : Option ℕ) {c : UInt8} (hc : c ≠ 58) (more : Str) :
    parseGroups (rounds+1) (appendHex x++58::c::more) ip ellipsis =
      parseGroups rounds (c::more) (ip++groupBytes x) ellipsis := by
  rw [parseGroups,takeWhile_appendHex hx (by rfl),if_neg (appendHex_fits x),value_appendHex hx,
    List.drop_left]
  simp only [if_neg hc]
  rfl

/-- The first ellipsis. -/
theorem parseGroups_ellipsis (more : Str) :
    parseGroups (rounds+1) (appendHex x++58::58::more) ip none =
      if more = [] then some ([],ip++groupBytes x,some (ip++groupBytes x).length)
      else parseGroups rounds more (ip++groupBytes x) (some (ip++groupBytes x).length) := by
  rw [parseGroups,takeWhile_appendHex hx (by rfl),if_neg (appendHex_fits x),value_appendHex hx,
    List.drop_left]
  rfl

end Step

theorem joinGroups_cons (g h : ℕ) (gs : List ℕ) :
    joinGroups (g::h::gs) = appendHex g++58::joinGroups (h::gs) := by
  simp [joinGroups,List.intercalate,str]

theorem joinGroups_singleton (g : ℕ) : joinGroups [g] = appendHex g := by
  simp [joinGroups,List.intercalate]

theorem joinGroups_head {g : ℕ} (hg : g < 65536) (gs : List ℕ) :
    ∃ d < 16, ∃ more, joinGroups (g::gs) = digit d::more := by
  have hne : appendHex g ≠ [] := by simp [appendHex]
  obtain ⟨c,rest,hc⟩ := List.exists_cons_of_ne_nil hne
  obtain ⟨d,hd,rfl⟩ := mem_appendHex hg (hc ▸ List.mem_cons_self)
  cases gs with
  | nil => exact ⟨d,hd,rest,by rw [joinGroups_singleton,hc]⟩
  | cons h gs => exact ⟨d,hd,_,by rw [joinGroups_cons,hc,List.cons_append]⟩

theorem digit_ne_colon : ∀ d < 16, digit d ≠ 58 := by decide

/-- One group with another one behind it. -/
theorem parseGroups_next {g h : ℕ} (hg : g < 65536) (hh : h < 65536) (gs : List ℕ) (tail : Str)
    (rounds : ℕ) (ip : List ℕ) (ellipsis : Option ℕ) :
    parseGroups (rounds+1) (joinGroups (g::h::gs)++tail) ip ellipsis =
      parseGroups rounds (joinGroups (h::gs)++tail) (ip++groupBytes g) ellipsis := by
  obtain ⟨d,hd,more,hmore⟩ := joinGroups_head hh gs
  rw [joinGroups_cons,List.append_assoc,List.cons_append,hmore,List.cons_append,
    parseGroups_colon hg rounds ip ellipsis (digit_ne_colon d hd)]

/-- Groups up to the end of the text. -/
theorem parseGroups_join {g : ℕ} {gs : List ℕ} (hgs : ∀ x ∈ g::gs, x < 65536) {rounds : ℕ}
    (hr : (g::gs).length ≤ rounds) (ip : List ℕ) (ellipsis : Option ℕ) :
    parseGroups rounds (joinGroups (g::gs)) ip ellipsis =
      some ([],ip++(g::gs).flatMap groupBytes,ellipsis) := by
  induction gs generalizing g rounds ip with
  | nil =>
    obtain ⟨k,rfl⟩ : ∃ k, rounds = k+1 := ⟨rounds-1,by simp at hr; omega⟩
    rw [joinGroups_singleton,parseGroups_end (hgs g (by simp)),List.flatMap_cons,List.flatMap_nil,
      List.append_nil]
  | cons h gs ih =>
    obtain ⟨k,rfl⟩ : ∃ k, rounds = k+1 := ⟨rounds-1,by simp at hr; omega⟩
    have htail : ∀ x ∈ h::gs, x < 65536 := fun x hx => hgs x (List.mem_cons_of_mem g hx)
    have hnext := parseGroups_next (hgs g (by simp)) (htail h (by simp)) gs [] k ip ellipsis
    have hbytes : ip++groupBytes g++(h::gs).flatMap groupBytes =
        ip++(g::h::gs).flatMap groupBytes := List.append_assoc ..
    rw [List.append_nil,List.append_nil] at hnext
    rw [hnext,ih htail (by simpa using hr),hbytes]

/-- Groups up to the ellipsis. -/
theorem parseGroups_join_ellipsis {g : ℕ} {gs : List ℕ} (hgs : ∀ x ∈ g::gs, x < 65536)
    {rounds : ℕ} (hr : (g::gs).length ≤ rounds) (ip : List ℕ) (tail : Str) :
    parseGroups rounds (joinGroups (g::gs)++58::58::tail) ip none =
      if tail = [] then some ([],ip++(g::gs).flatMap groupBytes,
        some (ip++(g::gs).flatMap groupBytes).length)
      else parseGroups (rounds-(g::gs).length) tail (ip++(g::gs).flatMap groupBytes)
        (some (ip++(g::gs).flatMap groupBytes).length) := by
  induction gs generalizing g rounds ip with
  | nil =>
    obtain ⟨k,rfl⟩ : ∃ k, rounds = k+1 := ⟨rounds-1,by simp at hr; omega⟩
    rw [joinGroups_singleton,parseGroups_ellipsis (hgs g (by simp)),List.flatMap_cons,
      List.flatMap_nil,List.append_nil]
    rfl
  | cons h gs ih =>
    obtain ⟨k,rfl⟩ : ∃ k, rounds = k+1 := ⟨rounds-1,by simp at hr; omega⟩
    have htail : ∀ x ∈ h::gs, x < 65536 := fun x hx => hgs x (List.mem_cons_of_mem g hx)
    have hbytes : ip++groupBytes g++(h::gs).flatMap groupBytes =
        ip++(g::h::gs).flatMap groupBytes := List.append_assoc ..
    have hlen : k+1-(g::h::gs).length = k-(h::gs).length := by simp
    rw [parseGroups_next (hgs g (by simp)) (htail h (by simp)),ih htail (by simpa using hr),hbytes,
      hlen]

/-- What is known about the run that an ellipsis replaces. -/
def ZeroRun (groups : List ℕ) (start stop : ℕ) : Prop :=
  start+2 ≤ stop ∧ stop ≤ groups.length ∧
    groups = groups.take start++List.replicate (stop-start) 0++groups.drop stop

theorem zeroRun_spec (groups : List ℕ) (i : ℕ) (h : 2 ≤ zeroRun (groups.drop i)) :
    ZeroRun groups i (i+zeroRun (groups.drop i)) := by
  have hrun : (groups.drop i).take (zeroRun (groups.drop i)) =
      List.replicate (zeroRun (groups.drop i)) 0 := by
    rw [zeroRun,← List.prefix_iff_eq_take.mp (List.takeWhile_prefix _)]
    apply List.eq_replicate_of_mem
    intro g hg
    simpa using List.all_eq_true.mp List.all_takeWhile g hg
  have hlen : zeroRun (groups.drop i) ≤ (groups.drop i).length :=
    (List.takeWhile_prefix _).length_le
  rw [List.length_drop] at hlen
  refine ⟨by omega,by omega,?_⟩
  rw [Nat.add_sub_cancel_left,← hrun,List.append_assoc,← List.drop_drop,List.take_append_drop,
    List.take_append_drop]

/-- Every run that the fold takes up is a run of zeros. -/
theorem foldl_longerRun {groups : List ℕ} (positions : List ℕ) {best : Option (ℕ × ℕ)}
    (hbest : ∀ run, best = some run → ZeroRun groups run.1 run.2) {run : ℕ × ℕ}
    (h : positions.foldl (longerRun groups) best = some run) : ZeroRun groups run.1 run.2 := by
  induction positions generalizing best with
  | nil => exact hbest run h
  | cons i positions ih =>
    refine ih (fun run' hrun => ?_) h
    rw [longerRun] at hrun
    split at hrun
    · rename_i hlong
      rw [← Option.some.inj hrun]
      exact zeroRun_spec groups i hlong.1
    · exact hbest run' hrun

theorem longestZeros_spec {groups : List ℕ} {start stop : ℕ}
    (h : longestZeros groups = some (start,stop)) : ZeroRun groups start stop :=
  foldl_longerRun (List.range groups.length) (fun _ hnone => by simp at hnone) h

theorem mem_joinGroups {gs : List ℕ} (hgs : ∀ x ∈ gs, x < 65536) {c : UInt8}
    (hc : c ∈ joinGroups gs) : c ≠ 37 := by
  induction gs with
  | nil => simp [joinGroups] at hc
  | cons g gs ih =>
    have hdigit : ∀ c ∈ appendHex g, c ≠ 37 := by
      intro c hc
      obtain ⟨d,hd,rfl⟩ := mem_appendHex (hgs g (by simp)) hc
      exact (by decide : ∀ d < 16, digit d ≠ 37) d hd
    cases gs with
    | nil =>
      rw [joinGroups_singleton] at hc
      exact hdigit c hc
    | cons h gs =>
      rw [joinGroups_cons,List.mem_append,List.mem_cons] at hc
      rcases hc with hc | rfl | hc
      · exact hdigit c hc
      · decide
      · exact ih (fun x hx => hgs x (List.mem_cons_of_mem g hx)) hc

theorem find_separator_join {g : ℕ} (hg : g < 65536) (gs : List ℕ) (rest : Str) :
    (joinGroups (g::gs)++58::rest).find? isSeparator = some 58 := by
  cases gs with
  | nil =>
    rw [joinGroups_singleton,find_separator_digits fun c hc => mem_appendHex hg hc]
    rfl
  | cons h gs =>
    rw [joinGroups_cons,List.append_assoc,find_separator_digits fun c hc => mem_appendHex hg hc]
    rfl

/-- Reading an address without a zone. -/
theorem parseIPv6_of_no_zone {s : Str} (hs : ∀ c ∈ s, c ≠ 37) :
    parseIPv6 s =
      if hasPrefix s (str "::") then
        if s.drop 2 = [] then some (addrFrom16 [] [])
        else ((parseGroups 8 (s.drop 2) [] (some 0)).bind expandGroups).map fun ip =>
          addrFrom16 ip []
      else ((parseGroups 8 s [] none).bind expandGroups).map fun ip => addrFrom16 ip [] := by
  have hbody : s.takeWhile (fun c => c ≠ 37) = s := by
    rw [List.takeWhile_eq_self_iff]
    simpa using hs
  have hzone : contains s 37 = false := by
    simpa [contains] using hs
  rw [parseIPv6,hbody,List.drop_of_length_le (Nat.le_succ _),hzone,if_neg (by simp)]

theorem hasPrefix_join {g : ℕ} (hg : g < 65536) (gs : List ℕ) (rest : Str) :
    hasPrefix (joinGroups (g::gs)++rest) (str "::") = false := by
  obtain ⟨d,hd,more,hmore⟩ := joinGroups_head hg gs
  have hne := digit_ne_colon d hd
  rw [hmore]
  simp [hasPrefix,str,List.isPrefixOf,Ne.symm hne]

theorem length_flatMap_groupBytes (groups : List ℕ) :
    (groups.flatMap groupBytes).length = 2*groups.length := by
  induction groups with
  | nil => rfl
  | cons g gs ih =>
    rw [List.flatMap_cons,List.length_append,ih,List.length_cons]
    simp only [groupBytes,List.length_cons,List.length_nil]
    omega

theorem flatMap_replicate_zero (n : ℕ) :
    (List.replicate n 0).flatMap groupBytes = List.replicate (2*n) 0 := by
  induction n with
  | zero => rfl
  | succ n ih =>
    rw [List.replicate_succ,List.flatMap_cons,ih,Nat.mul_succ]
    rfl

/-- The bytes of an address with an ellipsis, put back in place. -/
theorem expandGroups_ellipsis {groups : List ℕ} (hlen : groups.length = 8) {start stop : ℕ}
    (hz : ZeroRun groups start stop) :
    expandGroups ([],(groups.take start).flatMap groupBytes++(groups.drop stop).flatMap groupBytes,
      some ((groups.take start).flatMap groupBytes).length) = some (groups.flatMap groupBytes) := by
  obtain ⟨htwo,hstop,hsplit⟩ := hz
  have hl : ((groups.take start).flatMap groupBytes++
      (groups.drop stop).flatMap groupBytes).length = 16-2*(stop-start) := by
    rw [List.length_append,length_flatMap_groupBytes,length_flatMap_groupBytes,List.length_take,
      List.length_drop]
    omega
  have hgap : 16-(16-2*(stop-start)) = 2*(stop-start) := by omega
  have hall : groups.flatMap groupBytes = (groups.take start).flatMap groupBytes++
      List.replicate (2*(stop-start)) 0++(groups.drop stop).flatMap groupBytes := by
    conv_lhs => rw [hsplit]
    rw [List.flatMap_append,List.flatMap_append,flatMap_replicate_zero]
  rw [expandGroups,if_neg (by simp),if_pos (by omega),Option.map_some,List.take_left,
    List.drop_left,hl,hgap,hall]

theorem parseIPv6_joinGroups {groups : List ℕ} (hgs : ∀ x ∈ groups, x < 65536)
    (hlen : groups.length = 8) :
    parseIPv6 (joinGroups groups) = some (addrFrom16 (groups.flatMap groupBytes) []) := by
  cases groups with
  | nil => simp at hlen
  | cons g gs =>
    have hpre := hasPrefix_join (hgs g (by simp)) gs []
    rw [List.append_nil] at hpre
    rw [parseIPv6_of_no_zone fun c hc => mem_joinGroups hgs hc,hpre,if_neg (by simp),
      parseGroups_join hgs hlen.le,List.nil_append,Option.bind_some,expandGroups,if_neg (by simp),
      if_neg (by rw [length_flatMap_groupBytes,hlen]; omega),if_neg (by simp),Option.map_some]

theorem bigEndian_replicate_zero (n : ℕ) : bigEndian (List.replicate n 0) = 0 := by
  induction n with
  | zero => rfl
  | succ n ih => exact ih

/-- The rest of the text behind an ellipsis. -/
theorem parseGroups_tail {hs : List ℕ} (hhs : ∀ x ∈ hs, x < 65536) {rounds : ℕ}
    (hr : hs.length ≤ rounds) (ip : List ℕ) (e : ℕ) :
    (if joinGroups hs = [] then some ([],ip,some e) else parseGroups rounds (joinGroups hs) ip (some e))
      = some (([],ip++hs.flatMap groupBytes,some e) : Groups) := by
  cases hs with
  | nil => simp [joinGroups]
  | cons h hs =>
    obtain ⟨d,-,more,hmore⟩ := joinGroups_head (hhs h (by simp)) hs
    rw [if_neg (by simp [hmore]),parseGroups_join hhs hr]

theorem ellipsis_no_zone {gs hs : List ℕ} (hgs : ∀ x ∈ gs, x < 65536) (hhs : ∀ x ∈ hs, x < 65536) :
    ∀ c ∈ joinGroups gs++str "::"++joinGroups hs, c ≠ 37 := by
  intro c hc
  simp only [List.mem_append] at hc
  rcases hc with (hc | hc) | hc
  · exact mem_joinGroups hgs hc
  · have hcolon : c = 58 := by simpa [str] using hc
    rw [hcolon]
    decide
  · exact mem_joinGroups hhs hc

/-- A text that starts with the ellipsis. -/
theorem parseIPv6_leading {h : ℕ} {hs : List ℕ} (hhs : ∀ x ∈ h::hs, x < 65536)
    (hlen : (h::hs).length ≤ 8) :
    parseIPv6 (joinGroups []++str "::"++joinGroups (h::hs)) =
      (expandGroups ([],(h::hs).flatMap groupBytes,some 0)).map fun ip => addrFrom16 ip [] := by
  have hpre : hasPrefix (joinGroups []++str "::"++joinGroups (h::hs)) (str "::") = true := by
    simp [joinGroups,hasPrefix,str,List.isPrefixOf]
  have htext : (joinGroups []++str "::"++joinGroups (h::hs)).drop 2 = joinGroups (h::hs) := rfl
  obtain ⟨d,-,more,hmore⟩ := joinGroups_head (hhs h (by simp)) hs
  have hjoin : parseGroups 8 (joinGroups (h::hs)) [] (some 0) =
      some ([],[]++(h::hs).flatMap groupBytes,some 0) := parseGroups_join hhs hlen [] (some 0)
  rw [parseIPv6_of_no_zone (ellipsis_no_zone (by simp) hhs),hpre,if_pos rfl,htext,
    if_neg (by simp [hmore]),hjoin,Option.bind_some,List.nil_append]

/-- A text with a group in front of the ellipsis. -/
theorem parseIPv6_inner {g : ℕ} {gs hs : List ℕ} (hgs : ∀ x ∈ g::gs, x < 65536)
    (hhs : ∀ x ∈ hs, x < 65536) (hfront : (g::gs).length ≤ 8)
    (hlen : hs.length ≤ 8-(g::gs).length) :
    parseIPv6 (joinGroups (g::gs)++str "::"++joinGroups hs) =
      (expandGroups ([],(g::gs).flatMap groupBytes++hs.flatMap groupBytes,
        some ((g::gs).flatMap groupBytes).length)).map fun ip => addrFrom16 ip [] := by
  have hcolons : joinGroups (g::gs)++str "::"++joinGroups hs =
      joinGroups (g::gs)++58::58::joinGroups hs := List.append_assoc ..
  have htail := parseGroups_tail hhs hlen ((g::gs).flatMap groupBytes)
    ((g::gs).flatMap groupBytes).length
  rw [parseIPv6_of_no_zone (ellipsis_no_zone hgs hhs),hcolons,hasPrefix_join (hgs g (by simp)),
    if_neg (by simp),parseGroups_join_ellipsis hgs hfront,List.nil_append,htail,Option.bind_some]

theorem parseIPv6_ellipsis {groups : List ℕ} (hgs : ∀ x ∈ groups, x < 65536)
    (hlen : groups.length = 8) {start stop : ℕ} (hz : ZeroRun groups start stop) :
    parseIPv6 (joinGroups (groups.take start)++str "::"++joinGroups (groups.drop stop)) =
      some (addrFrom16 (groups.flatMap groupBytes) []) := by
  have htake : ∀ x ∈ groups.take start, x < 65536 := fun x hx => hgs x (List.mem_of_mem_take hx)
  have hdrop : ∀ x ∈ groups.drop stop, x < 65536 := fun x hx => hgs x (List.mem_of_mem_drop hx)
  have hexpand := expandGroups_ellipsis hlen hz
  obtain ⟨htwo,hstop,hsplit⟩ := hz
  have hrest : (groups.drop stop).length ≤ 8-(groups.take start).length := by
    rw [List.length_drop,List.length_take]
    omega
  cases hgroups : groups.take start with
  | nil =>
    rw [hgroups] at hexpand hrest
    cases hdropped : groups.drop stop with
    | nil =>
      have hempty : parseIPv6 (joinGroups []++str "::"++joinGroups []) = some (addrFrom16 [] []) := rfl
      rw [hdropped,hgroups] at hsplit
      rw [hempty,hsplit,List.nil_append,List.append_nil,flatMap_replicate_zero,addrFrom16,addrFrom16,
        bigEndian_replicate_zero]
      rfl
    | cons h hs =>
      rw [hdropped] at hdrop hexpand hrest
      rw [parseIPv6_leading hdrop hrest]
      exact congrArg _ hexpand
  | cons g gs =>
    have hfront : (g::gs).length ≤ 8 := by
      rw [← hgroups,List.length_take]
      omega
    rw [hgroups] at htake hexpand hrest
    rw [parseIPv6_inner htake hdrop hfront hrest,hexpand,Option.map_some]

theorem parseIPv6_stringGroups {groups : List ℕ} (hgs : ∀ x ∈ groups, x < 65536)
    (hlen : groups.length = 8) :
    parseIPv6 (stringGroups groups) = some (addrFrom16 (groups.flatMap groupBytes) []) := by
  rw [stringGroups]
  cases hz : longestZeros groups with
  | none => exact parseIPv6_joinGroups hgs hlen
  | some run => exact parseIPv6_ellipsis hgs hlen (longestZeros_spec hz)

theorem find_separator_stringGroups {groups : List ℕ} (hgs : ∀ x ∈ groups, x < 65536)
    (hlen : groups.length = 8) : (stringGroups groups).find? isSeparator = some 58 := by
  rw [stringGroups]
  cases longestZeros groups with
  | none =>
    match groups,hlen with
    | g::h::gs,_ =>
      dsimp only
      rw [joinGroups_cons,find_separator_digits fun c hc => mem_appendHex (hgs g (by simp)) hc]
      rfl
  | some run =>
    dsimp only
    rw [List.append_assoc]
    cases hgroups : groups.take run.1 with
    | nil => rfl
    | cons g gs =>
      have hg : g ∈ groups := List.mem_of_mem_take (hgroups ▸ List.mem_cons_self)
      exact find_separator_join (hgs g hg) gs _

theorem parseAddr_string6 (b : BitVec 128) : parseAddr (string6 b) = some (.v6 b []) := by
  have hgs : ∀ x ∈ fieldsOf 65536 8 b.toNat, x < 65536 := fun x hx => fieldsOf_lt (by decide) hx
  have hlen := fieldsOf_length 65536 8 b.toNat
  rw [string6,parseAddr,find_separator_stringGroups hgs hlen]
  change parseIPv6 _ = _
  rw [parseIPv6_stringGroups hgs hlen,addrFrom16,bigEndian_groups b.isLt,BitVec.ofNat_toNat,
    BitVec.setWidth_eq]

end Groups

theorem string_v6 {b : BitVec 128} (h : (Addr.v6 b []).is4In6 = false) :
    (Addr.v6 b []).string = string6 b := by
  rw [Addr.string,h,if_neg (by simp),withZone,if_pos rfl]

/-- Four octets end the groups. -/
theorem parseGroups_string4 (c : BitVec 32) (rounds : ℕ) {ip : List ℕ} (h : ip.length ≤ 12)
    (e : ℕ) : parseGroups (rounds+1) (string4 c) ip (some e) =
      some ([],ip++fieldsOf 256 4 c.toNat,some e) := by
  obtain ⟨x,hx,rest,htext⟩ := string4_head c
  have hdigits : (string4 c).takeWhile isHex = appendDecimal x := by
    rw [htext,List.takeWhile_append_of_pos]
    · simp [show isHex 46 = false from rfl]
    · intro d hd
      obtain ⟨n,hn,rfl⟩ := mem_appendDecimal hx hd
      simp [isHex,digit_hex n hn]
  have hfits : ¬((appendDecimal x).length = 0 ∨ 4 < (appendDecimal x).length) := by
    rw [appendDecimal]
    split <;> split <;> simp
  have hdrop : (string4 c).drop (appendDecimal x).length = 46::rest := by
    rw [htext,List.drop_left]
  have hroom : ¬(((some e : Option ℕ) = none ∧ ip.length ≠ 12) ∨ 16 < ip.length+4) := by
    simp
    omega
  rw [parseGroups,hdigits,if_neg hfits,hdrop]
  simp only [if_true,if_neg hroom,parseIPv4Fields_string4,Option.map_some]

/-- An IPv4 address written as an IPv6 address. -/
theorem parseAddr_mapped (c : BitVec 32) :
    parseAddr (str "::ffff:"++string4 c) =
      some (.v6 (BitVec.ofNat 128 (0xffff*2^32+c.toNat)) []) := by
  have hzone : ∀ d ∈ str "::ffff:"++string4 c, d ≠ 37 := by
    intro d hd
    cases List.mem_append.mp hd with
    | inl h =>
      rintro rfl
      revert h
      decide
    | inr h =>
      have digits : ∀ n < 16, digit n ≠ 37 := by decide
      rcases mem_string4 c h with rfl | ⟨n,hn,rfl⟩
      · decide
      · exact digits n hn
  have hgroups : parseGroups 8 (str "ffff:"++string4 c) [] (some 0) =
      some ([],[255,255]++fieldsOf 256 4 c.toNat,some 0) := by
    obtain ⟨x,hx,rest,htext⟩ := string4_head c
    obtain ⟨d,more,hmore⟩ := List.exists_cons_of_ne_nil (appendDecimal_ne_nil x)
    have hd : d ≠ 58 := by
      obtain ⟨n,hn,rfl⟩ := mem_appendDecimal hx (hmore ▸ List.mem_cons_self)
      exact digit_ne_colon n hn
    have hcons : string4 c = d::(more++46::rest) := by rw [htext,hmore,List.cons_append]
    have hffff : str "ffff:"++string4 c = appendHex 0xffff++58::d::(more++46::rest) := by
      rw [hcons]
      rfl
    rw [hffff,parseGroups_colon (by decide) 7 [] (some 0) hd,← hcons]
    exact parseGroups_string4 c 6 (by decide) 0
  have hfields : (fieldsOf 256 4 c.toNat).length = 4 := fieldsOf_length 256 4 _
  have hbig : bigEndian (List.replicate 10 0++[255,255]++fieldsOf 256 4 c.toNat) =
      0xffff*2^32+c.toNat := by
    rw [bigEndian_append,bigEndian_fieldsOf c.isLt,hfields]
    rfl
  have hpre : hasPrefix (str "::ffff:"++string4 c) (str "::") = true := rfl
  have hparse : parseAddr (str "::ffff:"++string4 c) = parseIPv6 (str "::ffff:"++string4 c) := rfl
  have hellipsis : (str "::ffff:"++string4 c).drop 2 = str "ffff:"++string4 c := rfl
  have hexpand : expandGroups ([],[255,255]++fieldsOf 256 4 c.toNat,some 0) =
      some (List.replicate 10 0++[255,255]++fieldsOf 256 4 c.toNat) := by
    simp [expandGroups,hfields]
  rw [hparse,parseIPv6_of_no_zone hzone,if_pos hpre,hellipsis,if_neg (by simp [str]),hgroups,
    Option.bind_some,hexpand,Option.map_some,addrFrom16,hbig]

/-- The text of an address is parsed into that address. -/
theorem parseAddr_string {a : Addr} (hv : a ≠ .invalid) (hz : a.zone = []) :
    parseAddr a.string = some a := by
  cases a with
  | invalid => exact absurd rfl hv
  | v4 b => exact parseAddr_string4 b
  | v6 b zone =>
    have hzone : zone = [] := hz
    subst hzone
    cases h6 : (Addr.v6 b []).is4In6 with
    | false => rw [string_v6 h6,parseAddr_string6]
    | true =>
      have hhigh : b.toNat/2^32 = 0xffff := by simpa [Addr.is4In6] using h6
      have hnat : 0xffff*2^32+(b.setWidth 32).toNat = b.toNat := by
        rw [BitVec.toNat_setWidth]
        omega
      rw [Addr.string,h6,if_pos rfl,withZone,if_pos rfl,parseAddr_mapped,hnat,
        BitVec.ofNat_toNat,BitVec.setWidth_eq]

section IP

theorem fieldsOf_bytesOf (count n : ℕ) : (bytesOf count n).map UInt8.toNat = fieldsOf 256 count n := by
  rw [bytesOf,List.map_map]
  conv_rhs => rw [← List.map_id (fieldsOf 256 count n)]
  apply List.map_congr_left
  intro x hx
  have hlt : x < 256 := fieldsOf_lt (by decide) hx
  simp only [Function.comp_apply,UInt8.toNat_ofNat',id]
  exact Nat.mod_eq_of_lt hlt

theorem bytesOf_length (count n : ℕ) : (bytesOf count n).length = count := by
  rw [bytesOf,List.length_map,fieldsOf_length]

theorem parseIP_string4 (b : BitVec 32) :
    (parseIP (string4 b)).bind to4 = some (bytesOf 4 b.toNat) := by
  have hlen : (List.replicate 10 0++[0xff,0xff]++bytesOf 4 b.toNat : Bytes).length = 16 := by
    simp [bytesOf_length]
  have hzone : (Addr.v4 b).zone = [] := rfl
  rw [parseIP,parseAddr_string4,Option.bind_some,if_pos hzone,Option.bind_some,Addr.as16,to4,
    if_neg (by rw [hlen]; decide),if_pos ⟨hlen,rfl⟩]
  rfl

theorem parseIP_string6 (b : BitVec 128) : parseIP (string6 b) = some (bytesOf 16 b.toNat) := by
  rw [parseIP,parseAddr_string6,Option.bind_some]
  exact if_pos rfl

/-- An address whose first byte is not zero is not an IPv4 address. -/
theorem to4_bytesOf {n : ℕ} (h : n/256^15%256 ≠ 0) : to4 (bytesOf 16 n) = none := by
  rw [to4,if_neg (by rw [bytesOf_length]; decide),if_neg]
  rintro ⟨-,htake⟩
  have hhead : ((bytesOf 16 n).take 12).head? = some 0 := by rw [htake]; rfl
  have hbyte : UInt8.ofNat (n/256^15%256) = 0 := Option.some.inj hhead
  have hnat := congrArg UInt8.toNat hbyte
  simp only [UInt8.toNat_ofNat'] at hnat
  rw [Nat.mod_eq_of_lt (Nat.mod_lt _ (by decide))] at hnat
  exact h hnat

theorem bigEndian_lt {as : List ℕ} (h : ∀ a ∈ as, a < 256) : bigEndian as < 256^as.length := by
  induction as with
  | nil => simp [bigEndian]
  | cons a as ih =>
    have hlt := ih fun b hb => h b (List.mem_cons_of_mem a hb)
    have ha : a+1 ≤ 256 := h a List.mem_cons_self
    calc bigEndian (a::as) = a*256^as.length+bigEndian as := bigEndian_cons a as
      _ < a*256^as.length+256^as.length := by omega
      _ = (a+1)*256^as.length := by ring
      _ ≤ 256*256^as.length := Nat.mul_le_mul_right _ ha
      _ = 256^(a::as).length := by rw [List.length_cons,Nat.pow_succ,Nat.mul_comm]

/-- Byte sequences of one length are different numbers. -/
theorem bigEndian_inj {as bs : List ℕ} (hlen : as.length = bs.length) (ha : ∀ a ∈ as, a < 256)
    (hb : ∀ b ∈ bs, b < 256) (h : bigEndian as = bigEndian bs) : as = bs := by
  induction as generalizing bs with
  | nil => exact (List.eq_nil_of_length_eq_zero hlen.symm).symm
  | cons a as ih =>
    cases bs with
    | nil => simp at hlen
    | cons b bs =>
      have hlen' : as.length = bs.length := Nat.succ.inj hlen
      have has : ∀ c ∈ as, c < 256 := fun c hc => ha c (List.mem_cons_of_mem a hc)
      have hbs : ∀ c ∈ bs, c < 256 := fun c hc => hb c (List.mem_cons_of_mem b hc)
      have hlow := bigEndian_lt has
      have hlow' := bigEndian_lt hbs
      rw [bigEndian_cons,bigEndian_cons,hlen'] at h
      rw [hlen'] at hlow
      have hpos : 0 < 256^bs.length := Nat.pow_pos (by decide)
      have hhead : a = b := by
        have hdiv := congrArg (· / 256^bs.length) h
        simpa [Nat.add_comm (_*_),Nat.add_mul_div_right _ _ hpos,Nat.div_eq_of_lt hlow,
          Nat.div_eq_of_lt hlow'] using hdiv
      subst hhead
      rw [ih hlen' has hbs (by omega)]

theorem toNat_lt_256 (ip : Bytes) : ∀ a ∈ ip.map UInt8.toNat, a < 256 := by
  intro a ha
  obtain ⟨b,-,rfl⟩ := List.mem_map.mp ha
  exact b.toNat_lt

/-- The number of an address has its bytes. -/
theorem bytesOf_bigEndian (ip : Bytes) :
    bytesOf ip.length (bigEndian (ip.map UInt8.toNat)) = ip := by
  have hlt := bigEndian_lt (toNat_lt_256 ip)
  rw [List.length_map] at hlt
  have hfields : fieldsOf 256 ip.length (bigEndian (ip.map UInt8.toNat)) = ip.map UInt8.toNat :=
    bigEndian_inj (by simp [fieldsOf_length]) (fun a ha => fieldsOf_lt (by decide) ha)
      (toNat_lt_256 ip) (bigEndian_fieldsOf hlt)
  apply List.map_injective_iff.mpr fun _ _ => UInt8.toNat_inj.mp
  rw [fieldsOf_bytesOf,hfields]

theorem length_of_to4 {ip ipv4 : Bytes} (h : to4 ip = some ipv4) : ipv4.length = 4 := by
  unfold to4 at h
  split at h
  · rename_i hlen
    exact Option.some.inj h ▸ hlen
  · split at h
    · rename_i hlen
      rw [← Option.some.inj h,List.length_drop,hlen.1]
    · cases h

/-- An IPv6 address that is printed as an IPv4 address has the bytes of one. -/
theorem to4_of_is4In6 {ip : Bytes} (hlen : ip.length = 16)
    (h : (Addr.v6 (BitVec.ofNat 128 (bigEndian (ip.map UInt8.toNat))) []).is4In6 = true) :
    to4 ip = some (ip.drop 12) := by
  have hlt : bigEndian (ip.map UInt8.toNat) < 2^128 := by
    have hbound := bigEndian_lt (toNat_lt_256 ip)
    rw [List.length_map,hlen] at hbound
    exact lt_of_lt_of_eq hbound (by decide)
  have hhigh : bigEndian ((ip.take 12).map UInt8.toNat) = 0xffff := by
    have hsplit : bigEndian (ip.map UInt8.toNat) =
        bigEndian ((ip.take 12).map UInt8.toNat)*2^32+bigEndian ((ip.drop 12).map UInt8.toNat) := by
      conv_lhs => rw [← List.take_append_drop 12 ip,List.map_append,bigEndian_append]
      simp [hlen]
    have hlow := bigEndian_lt (toNat_lt_256 (ip.drop 12))
    have hlow' : bigEndian ((ip.drop 12).map UInt8.toNat) < 2^32 := by simpa [hlen] using hlow
    simp only [Addr.is4In6,BitVec.toNat_ofNat,Nat.mod_eq_of_lt hlt,decide_eq_true_eq] at h
    omega
  have htake : ip.take 12 = List.replicate 10 0++[0xff,0xff] := by
    have hmap : (ip.take 12).map UInt8.toNat =
        (List.replicate 10 0++[0xff,0xff] : Bytes).map UInt8.toNat :=
      bigEndian_inj (by simp [hlen]) (toNat_lt_256 _) (toNat_lt_256 _) (hhigh.trans (by decide))
    exact List.map_injective_iff.mpr (fun _ _ => UInt8.toNat_inj.mp) hmap
  rw [to4,if_neg (by omega),if_pos ⟨hlen,htake⟩]

end IP

end NetIP
end Enimul
