import Mathlib.Data.List.DropRight
import Mathlib.Data.List.TakeWhile
import Mathlib.Order.Bounds.Defs
import Enimul.NetIP

/-! The rules that turn a reachable TTL into the TTL of a fake packet.
`parseTTLRules` scans rules such as `13-1;3=3` and sorts them by their thresholds;
`buildCalcTTL` makes the function that applies the first one whose threshold a TTL reaches.
The integers are of 64 bits and wrap. `Rule` and `Written` say on their own what is a text of
rules and what the rules mean. -/
namespace Enimul
namespace TTLRules

open GoText NetIP

/-- `sort.Slice`, which leaves the order of equal elements open. -/
structure SortSlice (α : Type) where
  sort : (α → α → Bool) → List α → List α
  perm : ∀ less l, (sort less l).Perm l
  sorted : ∀ less l, (∀ a b c, less b a = false → less c b = false → less c a = false) →
    (∀ a b, less a b = false ∨ less b a = false) →
    (sort less l).Pairwise fun a b => less b a = false

structure TTLRule where
  threshold : Int64
  typ : UInt8
  val : Int64
  deriving DecidableEq, Repr

/-- `for _, c := range digits { a = a*10 + int(c-'0') }` -/
def numeral (digits : Str) : Int64 :=
  digits.foldl (fun a c => a*10+Int64.ofNat (c-48).toNat) 0

def skipSeparator : Str → Str
  | 59::b => b
  | b => b

/-- A round of the loop: the rule at the head and what comes after it. -/
def parseRule (b : Str) : Except String (TTLRule × Str) :=
  if b.takeWhile isDigit = [] then .error "invalid rule: missing left number" else
  match b.dropWhile isDigit with
  | [] => .error "invalid rule: missing operator"
  | op::b' =>
    if op ≠ 45 ∧ op ≠ 61 then .error "invalid operator"
    else if b'.takeWhile isDigit = [] then .error "invalid rule: missing right number"
    else .ok (⟨numeral (b.takeWhile isDigit),op,numeral (b'.takeWhile isDigit)⟩,
      skipSeparator (b'.dropWhile isDigit))

theorem skipSeparator_length (b : Str) : (skipSeparator b).length ≤ b.length := by
  unfold skipSeparator
  split <;> simp

/-- The parts of a text that starts with a rule. -/
theorem parseRule_parts {b rest : Str} {r : TTLRule} (h : parseRule b = .ok (r,rest)) :
    ∃ left op right tail, b = left++op::(right++tail) ∧ rest = skipSeparator tail ∧
      r = ⟨numeral left,op,numeral right⟩ ∧ (op = 45 ∨ op = 61) ∧
      left ≠ [] ∧ left.all isDigit = true ∧ right ≠ [] ∧ right.all isDigit = true ∧
      tail.takeWhile isDigit = [] := by
  have hall (s : Str) : (s.takeWhile isDigit).all isDigit = true :=
    List.all_eq_true.mpr fun _ hc => List.mem_takeWhile_imp hc
  unfold parseRule at h
  split at h
  · cases h
  · rename_i hleft
    split at h
    · cases h
    · rename_i op b' hrest
      split at h
      · cases h
      · rename_i hop
        split at h
        · cases h
        · rename_i hright
          obtain ⟨rfl,rfl⟩ := Prod.mk.inj (Except.ok.inj h)
          refine ⟨_,op,_,b'.dropWhile isDigit,?_,rfl,rfl,?_,hleft,hall b,hright,hall b',?_⟩
          · rw [List.takeWhile_append_dropWhile,← hrest,List.takeWhile_append_dropWhile]
          · by_cases h45 : op = 45
            · exact .inl h45
            · exact .inr (by_contra fun h61 => hop ⟨h45,h61⟩)
          · have hsplit :=
              List.takeWhile_append_dropWhile (p := isDigit) (l := b'.dropWhile isDigit)
            rw [List.dropWhile_idempotent] at hsplit
            exact List.append_left_eq_self.mp hsplit

theorem parseRule_shorter {b rest : Str} {r : TTLRule} (h : parseRule b = .ok (r,rest)) :
    rest.length < b.length := by
  obtain ⟨left,op,right,tail,rfl,rfl,-⟩ := parseRule_parts h
  have hskip := skipSeparator_length tail
  simp only [List.length_append,List.length_cons]
  omega

/-- The loop `for i < len(b)`. -/
def scan (b : Str) : Except String (List TTLRule) :=
  if b = [] then .ok [] else
  match _h : parseRule b with
  | .error err => .error err
  | .ok (r,rest) => (scan rest).map (r::·)
termination_by b.length
decreasing_by exact parseRule_shorter _h

def parseTTLRules (sort : SortSlice TTLRule) (conf : Str) : Except String (List TTLRule) := do
  let rules ← scan conf
  return sort.sort (fun a b => decide (b.threshold < a.threshold)) rules

/-- The function that is made from sorted rules. -/
def calcTTL (rules : List TTLRule) (ttl : Int64) : Except String Int64 :=
  match rules.find? fun r => decide (r.threshold ≤ ttl) with
  | some r => if r.typ = 45 then .ok (ttl-r.val) else .ok r.val
  | none => .error "no matching ttl rule"

def buildCalcTTL (sort : SortSlice TTLRule) (conf : Str) :
    Except String (Int64 → Except String Int64) :=
  if conf = [] then .ok fun ttl => .ok (ttl-1) else
  match parseTTLRules sort conf with
  | .error err => .error ("parse ttl rules: " ++ err)
  | .ok rules => .ok (calcTTL rules)

/-! ### What a text of rules is -/

/-- A non-empty sequence of digits. -/
def IsNumeral (s : Str) : Prop := s ≠ [] ∧ s.all isDigit = true

instance (s : Str) : Decidable (IsNumeral s) := inferInstanceAs (Decidable (_ ∧ _))

def decimal (s : Str) : ℕ := s.foldl (fun n c => n*10+(c.toNat-48)) 0

inductive Op
  | minus | equals
  deriving DecidableEq, Repr

def Op.byte : Op → UInt8
  | .minus => 45
  | .equals => 61

structure Rule where
  left : Str
  op : Op
  right : Str
  left_numeral : IsNumeral left
  right_numeral : IsNumeral right

namespace Rule

def text (r : Rule) : Str := r.left++r.op.byte::r.right

def threshold (r : Rule) : ℤ := decimal r.left

def val (r : Rule) : ℤ := decimal r.right

/-- What the rule makes of a TTL. -/
def apply (r : Rule) (ttl : ℤ) : ℤ :=
  match r.op with
  | .minus => ttl-r.val
  | .equals => r.val

def compile (r : Rule) : TTLRule := ⟨numeral r.left,r.op.byte,numeral r.right⟩

end Rule

/-- The text is `rule (";" rule)* [";"]` with these rules. -/
def Written (rules : List Rule) (s : Str) : Prop :=
  rules ≠ [] ∧ ∃ tail, (tail = [] ∨ tail = str ";") ∧
    s = List.intercalate (str ";") (rules.map Rule.text)++tail

/-- Every sequence of digits in the text is the numeral of an `int`. -/
def NumeralsFit (s : Str) : Prop :=
  ∀ digits, digits <:+: s → digits.all isDigit = true → decimal digits < 2^63

section Scan

theorem isDigit_op (op : Op) : isDigit op.byte = false := by cases op <;> rfl

/-- A numeral in front of something that does not continue it. -/
theorem takeWhile_numeral {digits tail : Str} (h : IsNumeral digits)
    (htail : tail.takeWhile isDigit = []) :
    (digits++tail).takeWhile isDigit = digits ∧ (digits++tail).dropWhile isDigit = tail := by
  have hdigits := List.all_eq_true.mp h.2
  have hsplit := List.takeWhile_append_dropWhile (p := isDigit) (l := tail)
  rw [htail,List.nil_append] at hsplit
  rw [List.takeWhile_append_of_pos hdigits,List.dropWhile_append_of_pos hdigits,htail,hsplit,
    List.append_nil]
  exact ⟨rfl,rfl⟩

theorem parseRule_text (r : Rule) {tail : Str} (htail : tail.takeWhile isDigit = []) :
    parseRule (r.text++tail) = .ok (r.compile,skipSeparator tail) := by
  have hop : (r.op.byte::(r.right++tail)).takeWhile isDigit = [] := by
    rw [List.takeWhile_cons,isDigit_op]
    rfl
  have hleft := takeWhile_numeral r.left_numeral hop
  have hright := takeWhile_numeral r.right_numeral htail
  have htext : r.text++tail = r.left++r.op.byte::(r.right++tail) := by simp [Rule.text]
  have hbyte : ¬ (r.op.byte ≠ 45 ∧ r.op.byte ≠ 61) := by cases r.op <;> simp [Op.byte]
  rw [parseRule,htext,hleft.1,hleft.2,if_neg r.left_numeral.1]
  simp only [if_neg hbyte,hright.1,hright.2,if_neg r.right_numeral.1,Rule.compile]

theorem parseRule_rule {b rest : Str} {x : TTLRule} (h : parseRule b = .ok (x,rest)) :
    ∃ (r : Rule) (tail : Str), b = r.text++tail ∧ rest = skipSeparator tail ∧ x = r.compile ∧
      tail.takeWhile isDigit = [] := by
  obtain ⟨left,op,right,tail,rfl,rfl,rfl,hop,hleft,hleft',hright,hright',htail⟩ := parseRule_parts h
  obtain ⟨o,rfl⟩ : ∃ o : Op, op = o.byte := by
    cases hop with
    | inl h45 => exact ⟨.minus,h45⟩
    | inr h61 => exact ⟨.equals,h61⟩
  exact ⟨⟨left,o,right,⟨hleft,hleft'⟩,⟨hright,hright'⟩⟩,tail,by simp [Rule.text],rfl,rfl,htail⟩

theorem scan_nil : scan [] = .ok [] := by rw [scan,if_pos rfl]

/-- Reading a rule and going on. -/
theorem scan_text (r : Rule) {tail : Str} (htail : tail.takeWhile isDigit = []) :
    scan (r.text++tail) = (scan (skipSeparator tail)).map (r.compile::·) := by
  have hne : r.text++tail ≠ [] := by simp [Rule.text]
  have hrule := parseRule_text r htail
  rw [scan,if_neg hne]
  split
  · rename_i err herr
    rw [hrule] at herr
    cases herr
  · rename_i x rest hx
    rw [hrule] at hx
    cases hx
    rfl

/-- A text of rules is scanned to these rules. -/
theorem Written.scanned {rules : List Rule} {s : Str} (h : Written rules s) :
    scan s = .ok (rules.map Rule.compile) := by
  obtain ⟨hne,tail,htail,rfl⟩ := h
  induction rules with
  | nil => exact absurd rfl hne
  | cons r rules ih =>
    cases rules with
    | nil =>
      have hdigit : tail.takeWhile isDigit = [] ∧ skipSeparator tail = [] := by
        rcases htail with rfl|rfl <;> exact ⟨rfl,rfl⟩
      have hsingle : List.intercalate (str ";") (List.map Rule.text [r])++tail = r.text++tail := by
        simp
      rw [hsingle,scan_text r hdigit.1,hdigit.2,scan_nil]
      rfl
    | cons r' rules =>
      have hcons : List.intercalate (str ";") (List.map Rule.text (r::r'::rules))++tail =
          r.text++59::(List.intercalate (str ";") (List.map Rule.text (r'::rules))++tail) := by
        simp [List.intercalate_cons_cons,str]
      rw [hcons,scan_text r rfl]
      rw [skipSeparator,ih (List.cons_ne_nil r' rules)]
      rfl

theorem Written.single (r : Rule) {tail : Str} (htail : tail = [] ∨ tail = str ";") :
    Written [r] (r.text++tail) := ⟨List.cons_ne_nil r [],tail,htail,by simp⟩

theorem Written.cons (r : Rule) {rules : List Rule} {s : Str} (h : Written rules s) :
    Written (r::rules) (r.text++59::s) := by
  obtain ⟨hne,tail,htail,rfl⟩ := h
  cases rules with
  | nil => exact absurd rfl hne
  | cons r' rules =>
    exact ⟨List.cons_ne_nil r _,tail,htail,by simp [List.intercalate_cons_cons,str]⟩

/-- Only texts of rules are scanned: a byte that is neither a digit of the right number nor a
separator starts no rule. -/
theorem scan_written {s : Str} {xs : List TTLRule} (h : scan s = .ok xs) (hne : s ≠ []) :
    ∃ rules, Written rules s := by
  induction hn : s.length using Nat.strong_induction_on generalizing s xs with
  | _ n ih =>
    rw [scan,if_neg hne] at h
    split at h
    · cases h
    · rename_i x rest hrule
      have hshort := parseRule_shorter hrule
      obtain ⟨r,tail,rfl,rfl,-,htail⟩ := parseRule_rule hrule
      cases hscan : scan (skipSeparator tail) with
      | error err =>
        rw [hscan] at h
        cases h
      | ok ys =>
        cases tail with
        | nil => exact ⟨[r],.single r (.inl rfl)⟩
        | cons c tail =>
          by_cases hc : c = 59
          · subst hc
            by_cases hend : tail = []
            · subst hend
              exact ⟨[r],.single r (.inr rfl)⟩
            · obtain ⟨rules,hrules⟩ := ih _ (hn ▸ hshort) hscan hend rfl
              exact ⟨r::rules,hrules.cons r⟩
          · have hskip : skipSeparator (c::tail) = c::tail := by
              unfold skipSeparator
              split
              · rename_i heq
                exact absurd (List.cons.inj heq).1 hc
              · rfl
            have herr : parseRule (c::tail) = .error "invalid rule: missing left number" := by
              rw [parseRule,if_pos htail]
            rw [hskip,scan,if_neg (List.cons_ne_nil c tail)] at hscan
            split at hscan
            · cases hscan
            · rename_i hok
              rw [herr] at hok
              cases hok

end Scan

section Meaning

theorem digit_toNat {c : UInt8} (h : isDigit c = true) : (c-48).toNat = c.toNat-48 := by
  rw [isDigit,decide_eq_true_eq] at h
  exact UInt8.toNat_sub_of_le c 48 h.1

theorem numeral_eq {digits : Str} (h : digits.all isDigit = true) :
    numeral digits = Int64.ofNat (decimal digits) := by
  induction digits using List.reverseRecOn with
  | nil => rfl
  | append_singleton digits c ih =>
    rw [List.all_append,Bool.and_eq_true] at h
    have hc : isDigit c = true := by simpa using h.2
    have hnum : numeral (digits++[c]) = numeral digits*10+Int64.ofNat (c-48).toNat := by
      simp [numeral]
    have hdec : decimal (digits++[c]) = decimal digits*10+(c.toNat-48) := by simp [decimal]
    rw [hnum,hdec,Int64.ofNat_add,Int64.ofNat_mul,ih h.1,digit_toNat hc]
    rfl

theorem numeral_toInt {digits : Str} (h : IsNumeral digits) (hfit : decimal digits < 2^63) :
    (numeral digits).toInt = decimal digits := by
  rw [numeral_eq h.2,Int64.toInt_ofNat_of_lt hfit]

/-- The numerals of the rule are those of an `int`. -/
def Rule.Fits (r : Rule) : Prop := decimal r.left < 2^63 ∧ decimal r.right < 2^63

theorem Rule.Fits.threshold {r : Rule} (h : r.Fits) : r.compile.threshold.toInt = r.threshold :=
  numeral_toInt r.left_numeral h.1

theorem Rule.Fits.val {r : Rule} (h : r.Fits) : r.compile.val.toInt = r.val :=
  numeral_toInt r.right_numeral h.2

theorem Rule.Fits.threshold_le {r : Rule} (h : r.Fits) (ttl : Int64) :
    r.compile.threshold ≤ ttl ↔ r.threshold ≤ ttl.toInt := by
  rw [Int64.le_iff_toInt_le,h.threshold]

/-- A TTL that has reached a threshold is not negative, so that nothing overflows. -/
theorem Rule.Fits.apply {r : Rule} (h : r.Fits) {ttl : Int64} (hle : r.threshold ≤ ttl.toInt) :
    ∃ v, (if r.compile.typ = 45 then .ok (ttl-r.compile.val) else .ok r.compile.val :
      Except String Int64) = .ok v ∧ v.toInt = r.apply ttl.toInt := by
  cases hop : r.op with
  | minus =>
    refine ⟨ttl-r.compile.val,if_pos (by rw [Rule.compile,hop]; rfl),?_⟩
    have hpos : (0 : ℤ) ≤ r.threshold := Int.natCast_nonneg _
    have hval : (0 : ℤ) ≤ r.val ∧ r.val < 2^63 := ⟨Int.natCast_nonneg _,Int.ofNat_lt.mpr h.2⟩
    have httl := ttl.toInt_lt
    rw [Int64.toInt_sub,h.val,Rule.apply,hop]
    exact Int.bmod_eq_of_le (by omega) (by omega)
  | equals =>
    refine ⟨r.compile.val,if_neg (by rw [Rule.compile,hop]; simp [Op.byte]),?_⟩
    rw [h.val,Rule.apply,hop]

theorem Written.text_infix {rules : List Rule} {s : Str} (h : Written rules s) {r : Rule}
    (hr : r ∈ rules) : r.text <:+: s := by
  obtain ⟨-,tail,-,rfl⟩ := h
  refine List.IsInfix.trans ?_ (List.prefix_append _ tail).isInfix
  induction rules with
  | nil => cases hr
  | cons r' rules ih =>
    cases rules with
    | nil =>
      obtain rfl := List.mem_singleton.mp hr
      simp
    | cons r'' rules =>
      rw [List.map_cons,List.map_cons,List.intercalate_cons_cons]
      cases hr with
      | head => exact ⟨[],_,by rw [List.nil_append,← List.append_assoc]⟩
      | tail _ hr => exact (ih hr).trans (List.suffix_append _ _).isInfix

theorem NumeralsFit.fits {rules : List Rule} {s : Str} (hfit : NumeralsFit s) (h : Written rules s)
    {r : Rule} (hr : r ∈ rules) : r.Fits := by
  have htext := h.text_infix hr
  have hleft : r.left <:+: r.text := ⟨[],r.op.byte::r.right,rfl⟩
  have hright : r.right <:+: r.text := ⟨r.left++[r.op.byte],[],by simp [Rule.text]⟩
  exact ⟨hfit r.left (hleft.trans htext) r.left_numeral.2,
    hfit r.right (hright.trans htext) r.right_numeral.2⟩

/-- No rule that the TTL reaches has a greater threshold than the first one. -/
theorem Rule.Fits.le_of_first {r r' : Rule} {before after : List TTLRule} {ttl : Int64}
    (hr : r.Fits) (hr' : r'.Fits)
    (hsorted : (before++r.compile::after).Pairwise fun a b => b.threshold ≤ a.threshold)
    (hbefore : ∀ x ∈ before, ¬ x.threshold ≤ ttl) (hmem : r'.compile ∈ before++r.compile::after)
    (hle : r'.threshold ≤ ttl.toInt) : r'.threshold ≤ r.threshold := by
  obtain hin|heq|hin : r'.compile ∈ before ∨ r'.compile = r.compile ∨ r'.compile ∈ after := by
    simpa using hmem
  · have hnot := hbefore _ hin
    rw [hr'.threshold_le] at hnot
    exact absurd hle hnot
  · rw [← hr'.threshold,← hr.threshold,heq]
  · have hge := List.rel_of_pairwise_cons (List.pairwise_append.mp hsorted).2.1 hin
    rwa [Int64.le_iff_toInt_le,hr.threshold,hr'.threshold] at hge

/-- The function of sorted rules. -/
theorem calcTTL_sorted {rules : List Rule} {sorted : List TTLRule}
    (hperm : sorted.Perm (rules.map Rule.compile))
    (hsorted : sorted.Pairwise fun a b => b.threshold ≤ a.threshold)
    (hfits : ∀ r ∈ rules, r.Fits) (ttl : Int64) :
    ((∃ err, calcTTL sorted ttl = .error err) ↔ ∀ r ∈ rules, ttl.toInt < r.threshold) ∧
    ∀ v, calcTTL sorted ttl = .ok v → ∃ r ∈ rules, r.threshold ≤ ttl.toInt ∧
      (∀ r' ∈ rules, r'.threshold ≤ ttl.toInt → r'.threshold ≤ r.threshold) ∧
      v.toInt = r.apply ttl.toInt := by
  have hmem (x : TTLRule) : x ∈ sorted ↔ ∃ r ∈ rules, r.compile = x := by
    rw [hperm.mem_iff,List.mem_map]
  cases hfind : sorted.find? fun r => decide (r.threshold ≤ ttl) with
  | none =>
    have hcalc : calcTTL sorted ttl = .error "no matching ttl rule" := by rw [calcTTL,hfind]
    have hnone := List.find?_eq_none.mp hfind
    refine ⟨⟨fun _ r hr => ?_,fun _ => ⟨_,hcalc⟩⟩,fun v hv => by rw [hcalc] at hv; cases hv⟩
    have hnot := hnone r.compile ((hmem _).mpr ⟨r,hr,rfl⟩)
    rw [decide_eq_true_eq,(hfits r hr).threshold_le] at hnot
    exact not_le.mp hnot
  | some x =>
    obtain ⟨hx,before,after,rfl,hbefore⟩ := List.find?_eq_some_iff_append.mp hfind
    obtain ⟨r,hr,rfl⟩ := (hmem x).mp (by simp)
    rw [decide_eq_true_eq,(hfits r hr).threshold_le] at hx
    obtain ⟨v,hv,hval⟩ := (hfits r hr).apply hx
    have hcalc : calcTTL (before++r.compile::after) ttl = .ok v := by rw [calcTTL,hfind,← hv]
    refine ⟨⟨fun ⟨err,herr⟩ => ?_,fun hall => absurd (hall r hr) (not_lt.mpr hx)⟩,fun v' hv' => ?_⟩
    · rw [hcalc] at herr
      cases herr
    · rw [hcalc] at hv'
      obtain rfl := Except.ok.inj hv'
      refine ⟨r,hr,hx,fun r' hr' hle => ?_,hval⟩
      exact (hfits r hr).le_of_first (hfits r' hr') hsorted (by simpa using hbefore)
        ((hmem _).mpr ⟨r',hr',rfl⟩) hle

/-- The parsed rules are those of the text, from the greatest threshold down. -/
theorem Written.parsed (sort : SortSlice TTLRule) {rules : List Rule} {conf : Str}
    (h : Written rules conf) : ∃ sorted, parseTTLRules sort conf = .ok sorted ∧
      sorted.Perm (rules.map Rule.compile) ∧
      sorted.Pairwise fun a b => b.threshold ≤ a.threshold := by
  refine ⟨_,by rw [parseTTLRules,h.scanned]; rfl,sort.perm _ _,?_⟩
  refine (sort.sorted _ _ ?_ ?_).imp ?_
  · intro a b c hab hbc
    rw [decide_eq_false_iff_not,Int64.lt_iff_toInt_lt,not_lt] at *
    exact hbc.trans hab
  · intro a b
    rw [decide_eq_false_iff_not,decide_eq_false_iff_not,Int64.lt_iff_toInt_lt,
      Int64.lt_iff_toInt_lt,not_lt,not_lt]
    exact le_total _ _
  · intro a b hab
    rw [decide_eq_false_iff_not,Int64.lt_iff_toInt_lt,not_lt] at hab
    exact Int64.le_iff_toInt_le.mpr hab

theorem decimal_lt {digits : Str} (h : digits.all isDigit = true) :
    decimal digits < 10^digits.length := by
  induction digits using List.reverseRecOn with
  | nil => decide
  | append_singleton digits c ih =>
    rw [List.all_append,Bool.and_eq_true] at h
    have hc : isDigit c = true := by simpa using h.2
    have hdec : decimal (digits++[c]) = decimal digits*10+(c.toNat-48) := by simp [decimal]
    have hle : c.toNat ≤ 57 := by
      rw [isDigit,decide_eq_true_eq] at hc
      exact UInt8.le_iff_toNat_le.mp hc.2
    have hlt := ih h.1
    rw [hdec,List.length_append,List.length_singleton,pow_succ]
    omega

theorem NumeralsFit.of_length {s : Str} (h : s.length ≤ 18) : NumeralsFit s := by
  intro digits hin hall
  have hlen := hin.length_le
  calc decimal digits < 10^digits.length := decimal_lt hall
    _ ≤ 10^18 := Nat.pow_le_pow_right (by decide) (by omega)
    _ < 2^63 := by decide

/-- A stable sort is one that `sort.Slice` may be. -/
def mergeSlice (α : Type) : SortSlice α where
  sort less l := l.mergeSort fun a b => !less b a
  perm less l := List.mergeSort_perm l _
  sorted less l htrans htotal := by
    refine (List.pairwise_mergeSort ?_ ?_ l).imp fun h => by simpa using h
    · intro a b c hab hbc
      rw [Bool.not_eq_true'] at *
      exact htrans a b c hab hbc
    · intro a b
      simpa [or_comm] using htotal a b

/-- Exactly the texts of rules are accepted. The function made from one applies a rule with
the greatest threshold that the TTL reaches, and fails when it reaches none. -/
theorem buildCalcTTL_exact (sort : SortSlice TTLRule) {conf : Str} (hne : conf ≠ [])
    (hfit : NumeralsFit conf) :
    ((∃ sorted, parseTTLRules sort conf = .ok sorted) ↔ ∃ rules, Written rules conf) ∧
    ∀ rules, Written rules conf → ∃ f, buildCalcTTL sort conf = .ok f ∧ ∀ ttl : Int64,
      ((∃ err, f ttl = .error err) ↔ ∀ r ∈ rules, ttl.toInt < r.threshold) ∧
      ∀ v, f ttl = .ok v → ∃ r ∈ rules, r.threshold ≤ ttl.toInt ∧
        (∀ r' ∈ rules, r'.threshold ≤ ttl.toInt → r'.threshold ≤ r.threshold) ∧
        v.toInt = r.apply ttl.toInt := by
  refine ⟨⟨fun ⟨sorted,hsorted⟩ => ?_,fun ⟨rules,hrules⟩ => ?_⟩,fun rules hrules => ?_⟩
  · rw [parseTTLRules] at hsorted
    cases hscan : scan conf with
    | error err =>
      rw [hscan] at hsorted
      cases hsorted
    | ok xs => exact scan_written hscan hne
  · obtain ⟨sorted,hparse,-⟩ := hrules.parsed sort
    exact ⟨sorted,hparse⟩
  · obtain ⟨sorted,hparse,hperm,hpair⟩ := hrules.parsed sort
    refine ⟨calcTTL sorted,by rw [buildCalcTTL,if_neg hne,hparse],fun ttl => ?_⟩
    exact calcTTL_sorted hperm hpair (fun r hr => hfit.fits hrules hr) ttl

theorem buildCalcTTL_two_rules :
    NumeralsFit (str "3=3;13-1") ∧
    ∃ f, buildCalcTTL (mergeSlice TTLRule) (str "3=3;13-1") = .ok f ∧ ∃ err, f 2 = .error err := by
  have hfit : NumeralsFit (str "3=3;13-1") := .of_length (by decide)
  have hwritten : Written [⟨str "3",.equals,str "3",by decide,by decide⟩,
      ⟨str "13",.minus,str "1",by decide,by decide⟩] (str "3=3;13-1") :=
    ⟨by simp,[],.inl rfl,rfl⟩
  obtain ⟨f,hf,hspec⟩ := (buildCalcTTL_exact (mergeSlice TTLRule) (by decide) hfit).2 _ hwritten
  refine ⟨hfit,f,hf,(hspec 2).1.mpr ?_⟩
  decide

end Meaning

end TTLRules
end Enimul
