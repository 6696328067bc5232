import Enimul.LoadConfig

/-! What the expansion of a pattern yields.
A pattern of literals and groups stands for the product of its groups. Brackets inside a group and
bars in front of one are not taken apart; they end up in the expansions. -/
namespace Enimul
namespace LoadConfig

open GoSlice GoText

section Split

theorem runeLen_of_ascii {b : UInt8} (h : b < 0x80) (s : Str) : runeLen (b::s) = 1 := by
  have lower : ∀ x : UInt8, 0x80 ≤ x → ¬ x ≤ b := fun x hx hb =>
    UInt8.not_lt.mpr (UInt8.le_trans hx hb) h
  simp [runeLen,lower 0xc2 (by decide),lower 0xe0 (by decide),lower 0xf0 (by decide)]

theorem stringOfByte_of_ascii {b : UInt8} (h : b < 0x80) : stringOfByte b = [b] := if_pos h

/-- The characters after the first byte of a character are continuation bytes. -/
theorem ascii_mem_drop_runeLen {c : UInt8} (h : c < 0x80) (b : UInt8) (s : Str) :
    c ∈ (b::s).drop (runeLen (b::s)) ↔ c ∈ s := by
  have high : ∀ x : UInt8, isContinuation x = true → c ≠ x := by
    rintro x hx rfl
    simp only [isContinuation,decide_eq_true_eq] at hx
    exact UInt8.not_lt.mpr hx.1 h
  unfold runeLen
  dsimp only
  split
  · rename_i two
    cases s with
    | nil => simp
    | cons b₁ s => simp [high b₁ two.2.2]
  · split
    · rename_i three
      match s with
      | [] | [_] => simp at three
      | b₁::b₂::s =>
        have cont := three.2.2.1
        simp only [List.drop_succ_cons,List.drop_zero,List.take_succ_cons,List.take_zero,
          List.all_cons,List.all_nil,Bool.and_true,Bool.and_eq_true] at cont
        simp [high b₁ cont.1,high b₂ cont.2]
    · split
      · rename_i four
        match s with
        | [] | [_] | [_,_] => simp at four
        | b₁::b₂::b₃::s =>
          have cont := four.2.2.1
          simp only [List.drop_succ_cons,List.drop_zero,List.take_succ_cons,List.take_zero,
            List.all_cons,List.all_nil,Bool.and_true,Bool.and_eq_true] at cont
          simp [high b₁ cont.1,high b₂ cont.2.1,high b₃ cont.2.2]
      · simp

theorem runeLen_pos (s : Str) : 0 < runeLen s := by
  unfold runeLen
  dsimp only
  repeat' split
  all_goals decide

theorem ascii_mem_stringOfByte {c : UInt8} (h : c < 0x80) (b : UInt8) :
    c ∈ stringOfByte b ↔ c = b := by
  have high : ∀ x y : UInt8, 0x80 ≤ x → c ≠ x ||| y := by
    rintro x y hx rfl
    apply UInt8.not_lt.mpr _ h
    apply UInt8.le_trans hx
    simpa [UInt8.le_iff_toNat_le] using Nat.left_le_or
  unfold stringOfByte
  split
  · simp
  · rename_i hb
    have ne : c ≠ b := by
      rintro rfl
      exact hb h
    simp [high 0xc0 _ (by decide),high 0x80 _ (by decide),ne]

/-- A round of the loop that meets a character. -/
theorem splitLoop_cons (rounds : ℕ) (b : UInt8) (s curr : Str) (result : List Str) :
    splitLoop (rounds+1) (b::s) curr result =
      if b = 124 then splitLoop rounds ((b::s).drop (runeLen (b::s))) [] (result++[curr])
      else splitLoop rounds ((b::s).drop (runeLen (b::s))) (curr++stringOfByte b) result := rfl

/-- No character of the text is lost, bars apart. -/
theorem mem_splitLoop {c : UInt8} (h : c < 0x80) (bar : c ≠ 124) :
    ∀ (rounds : ℕ) (s curr : Str) (result : List Str), s.length ≤ rounds →
      ((∃ part ∈ splitLoop rounds s curr result, c ∈ part) ↔
        c ∈ s ∨ c ∈ curr ∨ ∃ part ∈ result, c ∈ part) := by
  intro rounds
  induction rounds with
  | zero =>
    intro s curr result len
    obtain rfl := List.length_eq_zero_iff.mp (Nat.le_zero.mp len)
    simp [splitLoop,or_and_right,exists_or,or_comm]
  | succ rounds ih =>
    intro s curr result len
    cases s with
    | nil => simp [splitLoop,or_and_right,exists_or,or_comm]
    | cons b s =>
      have rest : ((b::s).drop (runeLen (b::s))).length ≤ rounds := by
        have := runeLen_pos (b::s)
        simp only [List.length_drop,List.length_cons] at len ⊢
        omega
      rw [splitLoop_cons]
      split
      · rename_i hb
        rw [ih _ _ _ rest,ascii_mem_drop_runeLen h]
        simp [hb,bar,or_and_right,exists_or,or_comm]
      · rw [ih _ _ _ rest,ascii_mem_drop_runeLen h]
        simp [ascii_mem_stringOfByte h,or_assoc,or_comm,or_left_comm]

/-- A part holds no bar. -/
theorem splitLoop_bar : ∀ (rounds : ℕ) (s curr : Str) (result : List Str), 124 ∉ curr →
    (∀ part ∈ result, 124 ∉ part) → ∀ part ∈ splitLoop rounds s curr result, 124 ∉ part := by
  intro rounds
  have last : ∀ (curr : Str) (result : List Str), 124 ∉ curr → (∀ part ∈ result, 124 ∉ part) →
      ∀ part ∈ result++[curr], 124 ∉ part := by
    intro curr result hcurr hresult part hpart
    cases List.mem_append.mp hpart with
    | inl before => exact hresult part before
    | inr now => exact List.mem_singleton.mp now ▸ hcurr
  induction rounds with
  | zero =>
    intro s curr result hcurr hresult
    exact last curr result hcurr hresult
  | succ rounds ih =>
    intro s curr result hcurr hresult
    cases s with
    | nil => exact last curr result hcurr hresult
    | cons b s =>
      rw [splitLoop_cons]
      split
      · exact ih _ _ _ List.not_mem_nil (last curr result hcurr hresult)
      · rename_i hb
        apply ih _ _ _ _ hresult
        simp [hcurr,ascii_mem_stringOfByte (show (124 : UInt8) < 0x80 by decide),Ne.symm hb]

theorem splitByPipe_eq (s : Str) : splitByPipe s = splitLoop s.length s [] [] := by
  cases s <;> rfl

theorem mem_splitByPipe {c : UInt8} (h : c < 0x80) (bar : c ≠ 124) (s : Str) :
    (∃ part ∈ splitByPipe s, c ∈ part) ↔ c ∈ s := by
  rw [splitByPipe_eq,mem_splitLoop h bar _ _ _ _ (Nat.le_refl _)]
  simp

theorem splitByPipe_bar (s : Str) : ∀ part ∈ splitByPipe s, 124 ∉ part := by
  rw [splitByPipe_eq]
  exact splitLoop_bar _ _ _ _ List.not_mem_nil (by simp)

/-- A text without brackets and bars. -/
def Bare (s : Str) : Prop := 40 ∉ s ∧ 41 ∉ s ∧ 124 ∉ s

instance (s : Str) : Decidable (Bare s) := inferInstanceAs (Decidable (_ ∧ _))

theorem bare_append {s t : Str} : Bare (s++t) ↔ Bare s ∧ Bare t := by
  simp only [Bare,List.mem_append,not_or]
  tauto

/-- The parts of a text are bare exactly when the text has no bracket. -/
theorem splitByPipe_bare (s : Str) : (∀ part ∈ splitByPipe s, Bare part) ↔ 40 ∉ s ∧ 41 ∉ s := by
  rw [← mem_splitByPipe (show (40 : UInt8) < 0x80 by decide) (by decide) s,
    ← mem_splitByPipe (show (41 : UInt8) < 0x80 by decide) (by decide) s]
  constructor
  · intro h
    constructor
    · rintro ⟨part,hpart,open_⟩
      exact (h part hpart).1 open_
    · rintro ⟨part,hpart,close⟩
      exact (h part hpart).2.1 close
  · rintro ⟨h₁,h₂⟩ part hpart
    exact ⟨fun h => h₁ ⟨part,hpart,h⟩,fun h => h₂ ⟨part,hpart,h⟩,splitByPipe_bar s part hpart⟩

theorem splitLoop_ne_nil : ∀ (rounds : ℕ) (s curr : Str) (result : List Str),
    splitLoop rounds s curr result ≠ [] := by
  intro rounds
  induction rounds with
  | zero => simp [splitLoop]
  | succ rounds ih =>
    intro s curr result
    cases s with
    | nil => simp [splitLoop]
    | cons b s =>
      rw [splitLoop_cons]
      split <;> exact ih _ _ _

theorem splitByPipe_ne_nil (s : Str) : splitByPipe s ≠ [] :=
  splitByPipe_eq s ▸ splitLoop_ne_nil _ _ _ _

end Split

section Group

theorem expandUpTo_of_no_group {s : Str} (h : 40 ∉ s) (rounds : ℕ) :
    expandUpTo rounds s = splitByPipe s := by
  cases rounds with
  | zero => rfl
  | succ rounds =>
    have none : s.findIdx? (fun c => decide (c = 40)) = none := by
      simpa [List.findIdx?_eq_none_iff] using fun c hc => ne_of_mem_of_not_mem hc h
    simp only [expandUpTo,none]

/-- A round takes the leftmost group off. -/
theorem expandUpTo_group {before inner after : Str} (h : 40 ∉ before)
    (close : closing (inner++41::after) 1 = some inner.length) (rounds : ℕ) :
    expandUpTo (rounds+1) (before++40::(inner++41::after)) =
      (splitByPipe inner).flatMap fun part =>
        (expandUpTo rounds after).map fun suff => before++part++suff := by
  have left : (before++40::(inner++41::after)).findIdx? (fun c => decide (c = 40)) =
      some before.length := by
    rw [List.findIdx?_append]
    have none : before.findIdx? (fun c => decide (c = 40)) = none := by
      simpa [List.findIdx?_eq_none_iff] using fun c hc => ne_of_mem_of_not_mem hc h
    simp [none,List.findIdx?_cons]
  have rest : (before++40::(inner++41::after)).drop (before.length+1) = inner++41::after := by
    simp
  have tail : (before++40::(inner++41::after)).drop (before.length+1+inner.length+1) = after := by
    rw [Nat.add_assoc (before.length+1),← List.drop_drop,rest]
    simp
  simp only [expandUpTo,left,rest,close,tail]
  simp

end Group

section Nesting

/-- Every bracket has its partner, `depth` of them being open at the start. -/
def balanced : Str → ℕ → Bool
  | [], depth => depth == 0
  | c::rest, depth =>
    if c = 40 then balanced rest (depth+1)
    else if c = 41 then 0 < depth && balanced rest (depth-1)
    else balanced rest depth

/-- No group stands in another one, and a bar outside of the groups is behind all of them. -/
def flat : Str → ℕ → Bool
  | [], _ => true
  | c::rest, depth =>
    if c = 40 then depth == 0 && flat rest (depth+1)
    else if c = 41 then flat rest (depth-1)
    else if c = 124 then (0 < depth || 40 ∉ rest) && flat rest depth
    else flat rest depth

/-- The scan stops where the brackets that are open at its start are closed. -/
theorem closing_of_balanced {rest : Str} : ∀ {depth : ℕ}, balanced rest (depth+1) = true →
    ∃ inner after, rest = inner++41::after ∧ closing rest (depth+1) = some inner.length ∧
      balanced inner depth = true ∧ balanced after 0 = true := by
  induction rest with
  | nil => simp [balanced]
  | cons c rest ih =>
    intro depth h
    -- the character goes into the inner text unless it is the closing bracket itself
    have step : ∀ {d : ℕ}, balanced rest (d+1) = true →
        closing (c::rest) (depth+1) = (closing rest (d+1)).map (· + 1) →
        (∀ inner, balanced inner d = true → balanced (c::inner) depth = true) →
        ∃ inner after, c::rest = inner++41::after ∧
          closing (c::rest) (depth+1) = some inner.length ∧
          balanced inner depth = true ∧ balanced after 0 = true := by
      intro d hd scan inside
      obtain ⟨inner,after,rfl,close,hinner,hafter⟩ := ih hd
      exact ⟨c::inner,after,rfl,by rw [scan,close]; rfl,inside inner hinner,hafter⟩
    by_cases ho : c = 40
    · subst ho
      exact step h rfl fun inner hinner => hinner
    · by_cases hc : c = 41
      · subst hc
        cases depth with
        | zero => exact ⟨[],rest,rfl,rfl,rfl,by simpa [balanced] using h⟩
        | succ depth =>
          apply step (d := depth)
          · simpa [balanced] using h
          · rfl
          · intro inner hinner
            simpa [balanced] using hinner
      · apply step (d := depth)
        · simpa [balanced,ho,hc] using h
        · simp [closing,ho,hc]
        · intro inner hinner
          simpa [balanced,ho,hc] using hinner

theorem balanced_no_close {s : Str} (ho : 40 ∉ s) (h : balanced s 0 = true) : 41 ∉ s := by
  induction s with
  | nil => simp
  | cons c rest ih =>
    simp only [List.mem_cons,not_or] at ho
    have hc : c ≠ 41 := by
      rintro rfl
      simp [balanced] at h
    have hrest : balanced rest 0 = true := by simpa [balanced,Ne.symm ho.1,hc] using h
    simpa [Ne.symm hc] using ih ho.2 hrest

theorem balanced_before {before rest : Str} (ho : 40 ∉ before)
    (h : balanced (before++40::rest) 0 = true) : 41 ∉ before ∧ balanced rest 1 = true := by
  induction before with
  | nil => exact ⟨by simp,h⟩
  | cons c before ih =>
    simp only [List.mem_cons,not_or] at ho
    have hc : c ≠ 41 := by
      rintro rfl
      simp [balanced] at h
    have hrest : balanced (before++40::rest) 0 = true := by
      simpa [balanced,Ne.symm ho.1,hc] using h
    simpa [Ne.symm hc] using ih ho.2 hrest

theorem flat_of_no_group {s : Str} (h : 40 ∉ s) : ∀ depth, flat s depth = true := by
  induction s with
  | nil => intro depth; rfl
  | cons c rest ih =>
    intro depth
    simp only [List.mem_cons,not_or] at h
    simp [flat,Ne.symm h.1,h.2,ih h.2]

theorem flat_before {before rest : Str} (ho : 40 ∉ before) (hc : 41 ∉ before) :
    flat (before++40::rest) 0 = true ↔ 124 ∉ before ∧ flat rest 1 = true := by
  induction before with
  | nil => simp [flat]
  | cons c before ih =>
    simp only [List.mem_cons,not_or] at ho hc
    by_cases bar : c = 124
    · simp [flat,bar]
    · simp [flat,Ne.symm ho.1,Ne.symm hc.1,bar,Ne.symm bar,ih ho.2 hc.2]

theorem flat_inner {inner after : Str} (h : balanced inner 0 = true) :
    flat (inner++41::after) 1 = true ↔ 40 ∉ inner ∧ flat after 0 = true := by
  induction inner with
  | nil => simp [flat]
  | cons c inner ih =>
    by_cases ho : c = 40
    · simp [flat,ho]
    · have hc : c ≠ 41 := by
        rintro rfl
        simp [balanced] at h
      have hinner : balanced inner 0 = true := by simpa [balanced,ho,hc] using h
      simp [flat,ho,hc,Ne.symm ho,ih hinner]

theorem forall_bare_product {before : Str} {parts suffs : List Str} (hp : parts ≠ [])
    (hs : suffs ≠ []) :
    (∀ t ∈ parts.flatMap (fun part => suffs.map fun suff => before++part++suff), Bare t) ↔
      Bare before ∧ (∀ part ∈ parts, Bare part) ∧ ∀ suff ∈ suffs, Bare suff := by
  obtain ⟨part₀,hpart₀⟩ := List.exists_mem_of_ne_nil parts hp
  obtain ⟨suff₀,hsuff₀⟩ := List.exists_mem_of_ne_nil suffs hs
  simp only [List.mem_flatMap,List.mem_map]
  constructor
  · intro h
    have all : ∀ part ∈ parts, ∀ suff ∈ suffs, Bare before ∧ Bare part ∧ Bare suff := by
      intro part hpart suff hsuff
      have whole := bare_append.mp (h _ ⟨part,hpart,suff,hsuff,rfl⟩)
      have front := bare_append.mp whole.1
      exact ⟨front.1,front.2,whole.2⟩
    exact ⟨(all part₀ hpart₀ suff₀ hsuff₀).1,fun part hpart => (all part hpart suff₀ hsuff₀).2.1,
      fun suff hsuff => (all part₀ hpart₀ suff hsuff).2.2⟩
  · rintro ⟨hb,hparts,hsuffs⟩ t ⟨part,hpart,suff,hsuff,rfl⟩
    exact bare_append.mpr ⟨bare_append.mpr ⟨hb,hparts part hpart⟩,hsuffs suff hsuff⟩

theorem expandUpTo_ne_nil : ∀ (rounds : ℕ) (s : Str), expandUpTo rounds s ≠ [] := by
  intro rounds
  induction rounds with
  | zero => exact splitByPipe_ne_nil
  | succ rounds ih =>
    intro s
    unfold expandUpTo
    split
    · exact splitByPipe_ne_nil s
    · split
      · exact splitByPipe_ne_nil s
      · simpa [ih] using List.exists_mem_of_ne_nil _ (splitByPipe_ne_nil _)

theorem expandUpTo_bare_iff : ∀ (rounds : ℕ) (s : Str), s.length ≤ rounds →
    balanced s 0 = true → ((∀ t ∈ expandUpTo rounds s, Bare t) ↔ flat s 0 = true) := by
  intro rounds
  induction rounds with
  | zero =>
    intro s len _
    obtain rfl := List.length_eq_zero_iff.mp (Nat.le_zero.mp len)
    simp [expandUpTo,splitByPipe,flat,Bare]
  | succ rounds ih =>
    intro s len h
    by_cases ho : 40 ∈ s
    · obtain ⟨before,rest,rfl,hbefore⟩ := List.eq_append_cons_of_mem ho
      obtain ⟨hclose,hrest⟩ := balanced_before hbefore h
      obtain ⟨inner,after,rfl,scan,hinner,hafter⟩ := closing_of_balanced hrest
      have short : after.length ≤ rounds := by
        simp only [List.length_append,List.length_cons] at len
        omega
      -- the three pieces are bare independently of each other
      rw [expandUpTo_group hbefore scan,
        forall_bare_product (splitByPipe_ne_nil inner) (expandUpTo_ne_nil rounds after),
        splitByPipe_bare,ih after short hafter,flat_before hbefore hclose,flat_inner hinner]
      simp only [Bare,hbefore,hclose,not_false_eq_true,true_and]
      have close : 40 ∉ inner → 41 ∉ inner := fun hopen => balanced_no_close hopen hinner
      tauto
    · rw [expandUpTo_of_no_group ho,splitByPipe_bare]
      simp [ho,balanced_no_close ho h,flat_of_no_group ho]

/-- The expansions of a pattern with balanced brackets are bare exactly when its groups are not
nested and no bar stands in front of a group. -/
theorem expandPattern_bare_iff (s : Str) (h : balanced s 0 = true) :
    (∀ t ∈ expandPattern s, Bare t) ↔ flat s 0 = true :=
  expandUpTo_bare_iff s.length s (Nat.le_refl _) h

theorem expandPattern_bare_iff_group :
    balanced (str "a(b|c)|d") 0 = true ∧
      ((∀ t ∈ expandPattern (str "a(b|c)|d"), Bare t) ↔ flat (str "a(b|c)|d") 0 = true) :=
  ⟨by decide,expandPattern_bare_iff _ (by decide)⟩

/-- A nested group leaves its brackets, a bar in front of a group stays. -/
theorem nested_group_leaves_brackets :
    (balanced (str "((a|b)c)") 0 = true ∧
      expandPattern (str "((a|b)c)") = [str "(a",str "b)c"] ∧
      ¬ ∀ t ∈ expandPattern (str "((a|b)c)"), Bare t) ∧
    (balanced (str "a|b(c|d)") 0 = true ∧
      expandPattern (str "a|b(c|d)") = [str "a|bc",str "a|bd"] ∧
      ¬ ∀ t ∈ expandPattern (str "a|b(c|d)"), Bare t) := by
  decide

end Nesting

section Product

/-- A text of ASCII characters without brackets and bars. -/
def Plain (s : Str) : Prop := (∀ c ∈ s, c < 0x80) ∧ Bare s

/-- A group of alternatives and the literal behind it. -/
structure Segment where
  group : List Str
  literal : Str
  group_ne_nil : group ≠ []
  group_plain : ∀ a ∈ group, Plain a
  literal_plain : Plain literal

/-- A pattern of literals and groups. -/
structure Pattern where
  first : Str
  first_plain : Plain first
  segments : List Segment

/-- The alternatives of a group with bars between them. -/
def joined : List Str → Str
  | [] => []
  | [a] => a
  | a::b::group => a++124::joined (b::group)

/-- A literal with the segments behind it. -/
def written (first : Str) : List Segment → Str
  | [] => first
  | g::gs => first++40::(joined g.group++41::written g.literal gs)

def Pattern.text (p : Pattern) : Str := written p.first p.segments

/-- The text that takes the alternatives at these places. -/
def chosen (first : Str) : List Segment → List ℕ → Str
  | g::gs, i::places => first++g.group.getD i []++chosen g.literal gs places
  | _, _ => first

/-- One place for each group. -/
def IsChoice (places : List ℕ) (gs : List Segment) : Prop :=
  List.Forall₂ (fun i (g : Segment) => i < g.group.length) places gs

/-- All choices, the first group varying slowest. -/
def choices : List Segment → List (List ℕ)
  | [] => [[]]
  | g::gs => (List.range g.group.length).flatMap fun i => (choices gs).map (i::·)

theorem mem_choices (places : List ℕ) (gs : List Segment) :
    places ∈ choices gs ↔ IsChoice places gs := by
  induction gs generalizing places with
  | nil => simp [choices,IsChoice]
  | cons g gs ih =>
    cases places with
    | nil => simp [choices,IsChoice]
    | cons i places =>
      have := ih places
      simp only [IsChoice] at this
      simp [choices,IsChoice,this]

theorem choices_sorted (gs : List Segment) : (choices gs).Pairwise (· < ·) := by
  induction gs with
  | nil => simp [choices]
  | cons g gs ih =>
    simp only [choices,List.pairwise_flatMap]
    constructor
    · intro i _
      rw [List.pairwise_map]
      apply ih.imp
      intro a b hab
      exact List.cons_lt_cons_iff.mpr (Or.inr ⟨rfl,hab⟩)
    · apply List.pairwise_lt_range.imp
      intro i j hij a ha b hb
      obtain ⟨a,-,rfl⟩ := List.mem_map.mp ha
      obtain ⟨b,-,rfl⟩ := List.mem_map.mp hb
      exact List.cons_lt_cons_iff.mpr (Or.inl hij)

/-- The loop moves a plain text into the current part. -/
theorem splitLoop_plain (rounds : ℕ) (rest : Str) (result : List Str) {a : Str} (h : Plain a) :
    ∀ curr, splitLoop (a.length+rounds) (a++rest) curr result =
      splitLoop rounds rest (curr++a) result := by
  induction a with
  | nil => simp
  | cons c a ih =>
    intro curr
    have hc : c < 0x80 := h.1 c List.mem_cons_self
    have bar : c ≠ 124 := ne_of_mem_of_not_mem List.mem_cons_self h.2.2.2
    have ha : Plain a :=
      ⟨fun x hx => h.1 x (List.mem_cons_of_mem c hx),((bare_append (s := [c])).mp h.2).2⟩
    have count : (c::a).length+rounds = (a.length+rounds)+1 := by
      simp only [List.length_cons]
      omega
    rw [count,List.cons_append,splitLoop_cons,if_neg bar,runeLen_of_ascii hc,
      stringOfByte_of_ascii hc,List.drop_one,List.tail_cons,ih ha]
    simp

theorem splitLoop_nil (rounds : ℕ) (curr : Str) (result : List Str) :
    splitLoop rounds [] curr result = result++[curr] := by
  cases rounds <;> rfl

theorem splitLoop_joined (group : List Str) : ∀ (a : Str) (result : List Str),
    (∀ x ∈ a::group, Plain x) →
      splitLoop (joined (a::group)).length (joined (a::group)) [] result = result++a::group := by
  induction group with
  | nil =>
    intro a result h
    have := splitLoop_plain 0 [] result (h a List.mem_cons_self) []
    simpa [joined,splitLoop_nil] using this
  | cons b group ih =>
    intro a result h
    have count : (joined (a::b::group)).length = a.length+((joined (b::group)).length+1) := by
      simp [joined]
    have bar : runeLen (124::joined (b::group)) = 1 := runeLen_of_ascii (by decide) _
    rw [count,joined,splitLoop_plain _ _ _ (h a List.mem_cons_self),splitLoop_cons,if_pos rfl,bar,
      List.drop_one,List.tail_cons,ih b _ fun x hx => h x (List.mem_cons_of_mem a hx)]
    simp

theorem splitByPipe_joined {group : List Str} (ne : group ≠ []) (h : ∀ a ∈ group, Plain a) :
    splitByPipe (joined group) = group := by
  cases group with
  | nil => exact absurd rfl ne
  | cons a group => simpa [splitByPipe_eq] using splitLoop_joined group a [] h

theorem splitByPipe_plain {a : Str} (h : Plain a) : splitByPipe a = [a] :=
  splitByPipe_joined (List.cons_ne_nil a []) (by simpa using h)

/-- A text without brackets is passed over by the scan. -/
theorem closing_bare {inner : Str} (ho : 40 ∉ inner) (hc : 41 ∉ inner) (after : Str) :
    closing (inner++41::after) 1 = some inner.length := by
  induction inner with
  | nil => rfl
  | cons c inner ih =>
    simp only [List.mem_cons,not_or] at ho hc
    simp [closing,Ne.symm ho.1,Ne.symm hc.1,ih ho.2 hc.2]

theorem not_mem_joined {c : UInt8} (bar : c ≠ 124) {group : List Str} (h : ∀ a ∈ group, c ∉ a) :
    c ∉ joined group := by
  fun_induction joined group with
  | case1 => simp
  | case2 a => exact h a List.mem_cons_self
  | case3 a b group ih =>
    simp only [List.mem_append,List.mem_cons,not_or]
    exact ⟨h a List.mem_cons_self,bar,ih fun x hx => h x (List.mem_cons_of_mem a hx)⟩

theorem flatMap_range_getD {α β : Type} (xs : List α) (d : α) (f : α → List β) :
    (List.range xs.length).flatMap (fun i => f (xs.getD i d)) = xs.flatMap f := by
  have places : (List.range xs.length).map (fun i => xs.getD i d) = xs := by
    apply List.ext_getElem
    · simp
    · intro i h₁ h₂
      simp [List.getElem?_eq_getElem h₂]
  rw [← List.flatMap_map,places]

theorem expandUpTo_written (gs : List Segment) : ∀ (rounds : ℕ) (first : Str), Plain first →
    gs.length ≤ rounds →
      expandUpTo rounds (written first gs) = (choices gs).map (chosen first gs) := by
  induction gs with
  | nil =>
    intro rounds first h _
    rw [written,expandUpTo_of_no_group h.2.1,splitByPipe_plain h]
    rfl
  | cons g gs ih =>
    intro rounds first h len
    cases rounds with
    | zero => simp at len
    | succ rounds =>
      have scan : closing (joined g.group++41::written g.literal gs) 1 =
          some (joined g.group).length :=
        closing_bare (not_mem_joined (by decide) fun a ha => (g.group_plain a ha).2.1)
          (not_mem_joined (by decide) fun a ha => (g.group_plain a ha).2.2.1) _
      rw [written,expandUpTo_group h.2.1 scan,splitByPipe_joined g.group_ne_nil g.group_plain,
        ih rounds g.literal g.literal_plain (Nat.le_of_succ_le_succ len),
        ← flatMap_range_getD g.group [],choices,List.map_flatMap]
      simp [chosen,Function.comp_def]

theorem length_le_written (gs : List Segment) : ∀ first, gs.length ≤ (written first gs).length := by
  induction gs with
  | nil => simp
  | cons g gs ih =>
    intro first
    have := ih g.literal
    simp only [written,List.length_append,List.length_cons]
    omega

/-- The expansions of a pattern are the texts of its choices, each choice once and in
lexicographic order. -/
theorem expandPattern_product (p : Pattern) :
    (∃ places : List (List ℕ), (∀ c, c ∈ places ↔ IsChoice c p.segments) ∧
      places.Pairwise (· < ·) ∧
      expandPattern p.text = places.map (chosen p.first p.segments)) ∧
    (p.segments = [] → expandPattern p.text = [p.first]) := by
  have product : expandPattern p.text = (choices p.segments).map (chosen p.first p.segments) :=
    expandUpTo_written p.segments _ p.first p.first_plain (length_le_written _ _)
  constructor
  · exact ⟨choices p.segments,fun c => mem_choices c p.segments,choices_sorted _,product⟩
  · intro none
    rw [product,none]
    rfl

end Product

end LoadConfig
end Enimul
