import Enimul.GoSlice

/-! Strings as the program sees them: sequences of bytes.
Literals of the source are written with `str`. -/
namespace Enimul
namespace GoText

open GoSlice

abbrev Str := Bytes

instance lawfulBEqStr : LawfulBEq Str := inferInstance

/-- The bytes of an ASCII literal. -/
def str (s : String) : Str := s.toList.map fun c => UInt8.ofNat c.toNat

/-- A string inside an error text, read byte by byte. -/
def text (s : Str) : String := String.ofList (s.map fun b => Char.ofNat b.toNat)

def hasPrefix (s start : Str) : Bool := start.isPrefixOf s

def contains (s : Str) (c : UInt8) : Bool := s.any fun b => b = c

/-- The characters that count as white space, in UTF-8. -/
def spaces : List Str :=
  [[9],[10],[11],[12],[13],[32],[0xc2,0x85],[0xc2,0xa0],[0xe1,0x9a,0x80],[0xe2,0x80,0xa8],
    [0xe2,0x80,0xa9],[0xe2,0x80,0xaf],[0xe2,0x81,0x9f],[0xe3,0x80,0x80]]++
  (List.range 11).map fun i => [0xe2,0x80,UInt8.ofNat (0x80+i)]

/-- Drop the given sequences from the head, again and again. -/
def dropSeqs (seqs : List Str) : ℕ → Str → Str
  | 0, s => s
  | rounds+1, s =>
    match seqs.find? fun q => hasPrefix s q with
    | some q => dropSeqs seqs rounds (s.drop q.length)
    | none => s

def trimSpace (s : Str) : Str :=
  let left := dropSeqs spaces s.length s
  (dropSeqs (spaces.map List.reverse) left.length left.reverse).reverse

section Trim

variable {seqs : List Str} {s : Str}

theorem dropSeqs_suffix (seqs : List Str) (rounds : ℕ) (s : Str) : dropSeqs seqs rounds s <:+ s := by
  induction rounds generalizing s with
  | zero => exact List.suffix_rfl
  | succ rounds ih =>
    rw [dropSeqs]
    split
    · exact (ih _).trans (List.drop_suffix _ _)
    · exact List.suffix_rfl

/-- With a round for every byte none of the sequences is left at the head. -/
theorem dropSeqs_done (hne : [] ∉ seqs) {rounds : ℕ} (h : s.length ≤ rounds) :
    ∀ q ∈ seqs, hasPrefix (dropSeqs seqs rounds s) q = false := by
  induction rounds generalizing s with
  | zero =>
    obtain rfl := List.eq_nil_of_length_eq_zero (Nat.le_zero.mp h)
    intro q hq
    cases q with
    | nil => exact absurd hq hne
    | cons b q => rfl
  | succ rounds ih =>
    rw [dropSeqs]
    split
    · rename_i q hfind
      have hmem := List.mem_of_find?_eq_some hfind
      have hpos : 0 < q.length := List.length_pos_iff.mpr fun hq => hne (hq ▸ hmem)
      exact ih (by rw [List.length_drop]; omega)
    · rename_i hfind
      intro q hq
      simpa using List.find?_eq_none.mp hfind q hq

theorem dropSeqs_of_clean (h : ∀ q ∈ seqs, hasPrefix s q = false) (rounds : ℕ) :
    dropSeqs seqs rounds s = s := by
  cases rounds with
  | zero => rfl
  | succ rounds =>
    have hfind : seqs.find? (fun q => hasPrefix s q) = none :=
      List.find?_eq_none.mpr fun q hq => by simp [h q hq]
    rw [dropSeqs,hfind]

theorem hasPrefix_of_prefix {t q : Str} (h : s <+: t) (hq : hasPrefix t q = false) :
    hasPrefix s q = false := by
  by_contra hs
  have hpre : q <+: s := List.isPrefixOf_iff_prefix.mp (by simpa [hasPrefix] using hs)
  rw [hasPrefix,List.isPrefixOf_iff_prefix.mpr (hpre.trans h)] at hq
  cases hq

/-- Drop the given sequences at both ends. -/
def trimSeqs (seqs : List Str) (s : Str) : Str :=
  let left := dropSeqs seqs s.length s
  (dropSeqs (seqs.map List.reverse) left.length left.reverse).reverse

theorem trimSeqs_of_clean (hleft : ∀ q ∈ seqs, hasPrefix s q = false)
    (hright : ∀ q ∈ seqs.map List.reverse, hasPrefix s.reverse q = false) :
    trimSeqs seqs s = s := by
  rw [trimSeqs,dropSeqs_of_clean hleft,dropSeqs_of_clean hright,List.reverse_reverse]

theorem trimSeqs_trimSeqs (hne : [] ∉ seqs) (s : Str) :
    trimSeqs seqs (trimSeqs seqs s) = trimSeqs seqs s := by
  have hne' : [] ∉ seqs.map List.reverse := by simpa using hne
  have hleft := dropSeqs_done hne (Nat.le_refl s.length)
  have hsuffix (left : Str) := dropSeqs_suffix (seqs.map List.reverse) left.length left.reverse
  have hright (left : Str) := dropSeqs_done hne'
    (Nat.le_of_eq (List.length_reverse : left.reverse.length = left.length))
  apply trimSeqs_of_clean
  · intro q hq
    refine hasPrefix_of_prefix ?_ (hleft q hq)
    have hpre := List.reverse_prefix.mpr (hsuffix (dropSeqs seqs s.length s))
    rwa [List.reverse_reverse] at hpre
  · rw [trimSeqs,List.reverse_reverse]
    exact hright _

theorem trimSeqs_subset (seqs : List Str) (s : Str) : trimSeqs seqs s ⊆ s := by
  intro b hb
  have hright := (dropSeqs_suffix _ _ _).subset (List.mem_reverse.mp hb)
  exact (dropSeqs_suffix seqs s.length s).subset (List.mem_reverse.mp hright)

theorem trimSpace_trimSpace (s : Str) : trimSpace (trimSpace s) = trimSpace s :=
  trimSeqs_trimSeqs (by decide) s

end Trim

def lowerByte (b : UInt8) : UInt8 := if 65 ≤ b ∧ b ≤ 90 then b+32 else b

/-- `strings.ToLower`. Strings with characters beyond ASCII are mapped character by
character, which is `mapLower` here. -/
def toLower (mapLower : Str → Str) (s : Str) : Str :=
  if s.all fun b => b < 0x80 then s.map lowerByte else mapLower s

/-- What `mapLower` returns is in lower case. -/
def LowersOnce (mapLower : Str → Str) : Prop :=
  ∀ s, (s.all fun b => b < 0x80) = false → toLower mapLower (mapLower s) = mapLower s

theorem lowersOnce_id : LowersOnce id := by
  intro s hs
  rw [id_eq,toLower,hs,if_neg Bool.false_ne_true,id_eq]

theorem lowerByte_lowerByte (b : UInt8) : lowerByte (lowerByte b) = lowerByte b := by
  by_cases hb : 65 ≤ b ∧ b ≤ 90
  · have hlow : ¬(65 ≤ b+32 ∧ b+32 ≤ 90) := by
      simp only [UInt8.le_iff_toNat_le,UInt8.toNat_add,UInt8.reduceToNat] at hb ⊢
      omega
    rw [lowerByte,lowerByte,if_pos hb,if_neg hlow]
  · rw [lowerByte,lowerByte,if_neg hb,if_neg hb]

theorem lowerByte_lt {b : UInt8} (h : b < 0x80) : lowerByte b < 0x80 := by
  rw [lowerByte]
  split
  · rename_i hb
    simp only [UInt8.le_iff_toNat_le,UInt8.lt_iff_toNat_lt,UInt8.toNat_add,UInt8.reduceToNat] at hb ⊢
    omega
  · exact h

theorem toLower_toLower {mapLower : Str → Str} (h : LowersOnce mapLower) (s : Str) :
    toLower mapLower (toLower mapLower s) = toLower mapLower s := by
  cases hs : s.all fun b => b < 0x80 with
  | false => rw [toLower.eq_1 mapLower s,hs,if_neg Bool.false_ne_true,h s hs]
  | true =>
    have hlow : toLower mapLower s = s.map lowerByte := by rw [toLower,hs,if_pos rfl]
    have hascii : ((s.map lowerByte).all fun b => b < 0x80) = true := by
      simp only [List.all_map,List.all_eq_true,decide_eq_true_eq,Function.comp_apply] at hs ⊢
      exact fun b hb => lowerByte_lt (hs b hb)
    rw [hlow,toLower,hascii,if_pos rfl,List.map_map]
    exact List.map_congr_left fun b _ => lowerByte_lowerByte b

end GoText
end Enimul
