import Mathlib.Data.List.Basic
import Mathlib.Data.Nat.Notation
import Mathlib.Data.Int.Notation

/-! Byte slices with checked accesses.
A slice is the list of its bytes. An access outside the slice is a `Fault`, so a
program over slices is safe exactly when it is proved to return. Offsets are read
through `drop`: a field that starts at offset `i` is a prefix of `s.drop i`. -/
namespace Enimul
namespace GoSlice

abbrev Bytes := List UInt8

/-- The run-time panics of a slice program, and a loop that used up its bound. -/
inductive Fault
  | index (i len : ℕ)
  | slice (lo hi len : ℕ)
  | fuel
  deriving DecidableEq, Repr

abbrev Checked (α : Type) := Except Fault α

def index (s : Bytes) (i : ℕ) : Checked UInt8 :=
  match s[i]? with
  | some b => .ok b
  | none => .error (.index i s.length)

/-- The bound is the length of the slice, which is at most its capacity. -/
def slice (s : Bytes) (lo hi : ℕ) : Checked Bytes :=
  if lo ≤ hi ∧ hi ≤ s.length then .ok ((s.drop lo).take (hi-lo))
  else .error (.slice lo hi s.length)

def sliceTo (s : Bytes) (hi : ℕ) : Checked Bytes := slice s 0 hi

def sliceFrom (s : Bytes) (lo : ℕ) : Checked Bytes := slice s lo s.length

/-- `s[i] = b`. -/
def store (s : Bytes) (i : ℕ) (b : UInt8) : Checked Bytes :=
  if i < s.length then .ok (s.set i b) else .error (.index i s.length)

/-- The destination after `copy(dst, src)`. -/
def overwrite (dst src : Bytes) : Bytes := src.take dst.length ++ dst.drop src.length

def bigEndianUint16 (b : Bytes) : Checked ℕ := do
  let lo ← index b 1
  let hi ← index b 0
  return hi.toNat*256+lo.toNat

/-- `binary.BigEndian.Uint16(s[i:i+2])`. -/
def uint16At (s : Bytes) (i : ℕ) : Checked ℕ := do
  let b ← slice s i (i+2)
  bigEndianUint16 b

/-- The two bytes of `uint16(n)`. -/
def putUint16 (n : ℕ) : Bytes := [UInt8.ofNat (n/256),UInt8.ofNat n]

/-- The last position of `c`, or `none`. -/
def lastIndexByte : Bytes → UInt8 → Option ℕ
  | [], _ => none
  | b::bs, c =>
    match lastIndexByte bs c with
    | some i => some (i+1)
    | none => if b = c then some 0 else none

@[simp] theorem ok_bind {α β : Type} (a : α) (f : α → Checked β) :
    (Except.ok a >>= f : Checked β) = f a := rfl
@[simp] theorem pure_eq_ok {α : Type} (a : α) : (pure a : Checked α) = .ok a := rfl

theorem index_of_lt {s : Bytes} {i : ℕ} (h : i < s.length) : index s i = .ok s[i] := by
  simp [index,List.getElem?_eq_getElem h]

theorem slice_of_le {s : Bytes} {lo hi : ℕ} (h₁ : lo ≤ hi) (h₂ : hi ≤ s.length) :
    slice s lo hi = .ok ((s.drop lo).take (hi-lo)) := if_pos ⟨h₁,h₂⟩

theorem sliceTo_of_le {s : Bytes} {hi : ℕ} (h : hi ≤ s.length) :
    sliceTo s hi = .ok (s.take hi) := by
  simp [sliceTo,slice_of_le (Nat.zero_le hi) h]

theorem sliceFrom_of_le {s : Bytes} {lo : ℕ} (h : lo ≤ s.length) :
    sliceFrom s lo = .ok (s.drop lo) := by
  rw [sliceFrom,slice_of_le h (Nat.le_refl _),List.take_of_length_le (by simp)]

theorem store_of_lt {s : Bytes} {i : ℕ} {b : UInt8} (h : i < s.length) :
    store s i b = .ok (s.set i b) := if_pos h

/-- Reading two bytes in range gives a number below `2^16`. -/
theorem uint16At_of_le {s : Bytes} {i : ℕ} (h : i+2 ≤ s.length) :
    ∃ n, uint16At s i = .ok n ∧ n < 65536 := by
  have hl : ((s.drop i).take 2).length = 2 := by simp; omega
  have hs := slice_of_le (show i ≤ i+2 by omega) h
  rw [show i+2-i = 2 by omega] at hs
  rw [uint16At,hs,ok_bind,bigEndianUint16,index_of_lt (by omega),ok_bind,index_of_lt (by omega),ok_bind]
  refine ⟨_,rfl,?_⟩
  have h₁ := (((s.drop i).take 2)[0]).toNat_lt
  have h₂ := (((s.drop i).take 2)[1]).toNat_lt
  omega

/-- Bytes behind the field do not change it. -/
theorem uint16At_append {s : Bytes} (t : Bytes) {i : ℕ} (h : i+2 ≤ s.length) :
    uint16At (s++t) i = uint16At s i := by
  have hs : slice (s++t) i (i+2) = slice s i (i+2) := by
    rw [slice_of_le (by omega) h,slice_of_le (by omega) (by simp; omega),
      List.drop_append_of_le_length (by omega),
      List.take_append_of_le_length (by rw [List.length_drop]; omega)]
  rw [uint16At,uint16At,hs]

section Cursor

variable {s f t : Bytes} {i n : ℕ}

theorem index_of_drop {b : UInt8} (h : s.drop i = b::t) : index s i = .ok b := by
  have hb : s[i]? = some b := by
    have h₀ : (s.drop i)[0]? = some b := by rw [h]; rfl
    simpa using h₀
  simp [index,hb]

theorem length_of_drop (h : s.drop i = f++t) (hf : f ≠ []) :
    i+f.length+t.length = s.length := by
  have hl := congrArg List.length h
  have hp := List.length_pos_of_ne_nil hf
  simp only [List.length_drop,List.length_append] at hl
  omega

theorem drop_advance (h : s.drop i = f++t) (hn : f.length = n) : s.drop (i+n) = t := by
  rw [← List.drop_drop,h,← hn,List.drop_left]

theorem slice_of_drop (h : s.drop i = f++t) (hf : f ≠ []) (hn : f.length = n) :
    slice s i (i+n) = .ok f := by
  have hl := length_of_drop h hf
  rw [slice_of_le (by omega) (by omega),h,Nat.add_sub_cancel_left,← hn,List.take_left]

/-- The two bytes of a number below `2^16` are read back as the number. -/
theorem bigEndianUint16_putUint16 (hn : n < 65536) : bigEndianUint16 (putUint16 n) = .ok n := by
  simp only [bigEndianUint16,putUint16,index,List.getElem?_cons_succ,List.getElem?_cons_zero,
    ok_bind,pure_eq_ok,UInt8.toNat_ofNat']
  congr 1
  omega

theorem uint16At_of_drop (h : s.drop i = putUint16 n++t) (hn : n < 65536) :
    uint16At s i = .ok n := by
  have hl : (putUint16 n).length = 2 := rfl
  rw [uint16At,slice_of_drop h (by simp [putUint16]) hl,ok_bind]
  exact bigEndianUint16_putUint16 hn

end Cursor

@[simp] theorem putUint16_length (n : ℕ) : (putUint16 n).length = 2 := rfl

/-- Two big-endian fields of numbers below `2^16` are equal only if the numbers are. -/
theorem putUint16_inj {m n : ℕ} (hm : m < 65536) (hn : n < 65536)
    (h : putUint16 m = putUint16 n) : m = n := by
  have h₁ := uint16At_of_drop (s := putUint16 m) (i := 0) (t := []) (by simp) hm
  have h₂ := uint16At_of_drop (s := putUint16 n) (i := 0) (t := []) (by simp) hn
  rw [h,h₂] at h₁
  exact (Except.ok.inj h₁).symm

theorem putUint16_bytes (hi lo : UInt8) : putUint16 (hi.toNat*256+lo.toNat) = [hi,lo] := by
  have hlt := lo.toNat_lt
  have hdiv : (hi.toNat*256+lo.toNat)/256 = hi.toNat := by omega
  rw [putUint16,hdiv,UInt8.ofNat_toNat]
  congr 2
  apply UInt8.toNat_inj.mp
  rw [UInt8.toNat_ofNat']
  omega

/-- A field that is read is the encoding of its value. -/
theorem drop_of_uint16At {s : Bytes} {i n : ℕ} (h : uint16At s i = .ok n) :
    s.drop i = putUint16 n++s.drop (i+2) := by
  rw [uint16At,slice] at h
  split at h
  · next hle =>
    have hdrop : s.drop i = s[i]::s[i+1]::s.drop (i+2) := by
      rw [List.drop_eq_getElem_cons (show i < s.length by omega),
        List.drop_eq_getElem_cons (show i+1 < s.length by omega)]
    rw [hdrop,Nat.add_sub_cancel_left] at h
    rw [← Except.ok.inj h,putUint16_bytes,hdrop]
    rfl
  · cases h

theorem lastIndexByte_lt {s : Bytes} {c : UInt8} {i : ℕ} (h : lastIndexByte s c = some i) :
    i < s.length := by
  induction s generalizing i with
  | nil => simp [lastIndexByte] at h
  | cons b bs ih =>
    simp only [lastIndexByte] at h
    split at h
    · rename_i j hj
      have hlt := ih hj
      have he := Option.some.inj h
      simp only [List.length_cons]
      omega
    · split at h
      · simp only [Option.some.injEq] at h
        simp only [List.length_cons]
        omega
      · simp at h

/-- The `i`-th of `n` consecutive windows of `base` elements; the last one takes the rest. -/
def window {α : Type} (s : List α) (base n i : ℕ) : List α :=
  if i = n-1 then s.drop (i*base) else (s.drop (i*base)).take base

def evenParts {α : Type} (s : List α) (base n : ℕ) : List (List α) :=
  (List.range n).map (window s base n)

section Parts

variable {α : Type} (s : List α) (base : ℕ)

theorem windows_flatten (k : ℕ) :
    ((List.range k).map fun i => (s.drop (i*base)).take base).flatten = s.take (k*base) := by
  induction k with
  | zero => simp
  | succ k ih =>
    rw [List.range_succ,List.map_append,List.flatten_append,ih,Nat.succ_mul,List.take_add]
    simp

theorem evenParts_succ (n : ℕ) : evenParts s base (n+1) =
    ((List.range n).map fun i => (s.drop (i*base)).take base)++[s.drop (n*base)] := by
  rw [evenParts,List.range_succ,List.map_append]
  congr 1
  · apply List.map_congr_left
    intro i hi
    rw [window,if_neg]
    have := List.mem_range.mp hi
    omega
  · simp [window]

/-- The parts put together are the whole. -/
theorem evenParts_flatten {n : ℕ} (hn : 0 < n) : (evenParts s base n).flatten = s := by
  obtain ⟨k,rfl⟩ : ∃ k, n = k+1 := ⟨n-1,by omega⟩
  rw [evenParts_succ,List.flatten_append,windows_flatten,List.flatten_singleton,
    List.take_append_drop]

@[simp] theorem evenParts_length (n : ℕ) : (evenParts s base n).length = n := by
  simp [evenParts]

variable {s base}

theorem window_end_le {n i : ℕ} (hl : base*n ≤ s.length) (hi : i < n) :
    i*base+base ≤ s.length := by
  have hw : (i+1)*base ≤ n*base := Nat.mul_le_mul_right base hi
  rw [Nat.succ_mul,Nat.mul_comm n base] at hw
  omega

theorem evenParts_ne_nil {n : ℕ} (hb : 0 < base) (hl : base*n ≤ s.length) {p : List α}
    (hp : p ∈ evenParts s base n) : p ≠ [] := by
  simp only [evenParts,List.mem_map,List.mem_range] at hp
  obtain ⟨i,hi,rfl⟩ := hp
  have hw := window_end_le hl hi
  apply List.ne_nil_of_length_pos
  rw [window]
  split <;> simp only [List.length_take,List.length_drop] <;> omega

end Parts

end GoSlice
end Enimul
