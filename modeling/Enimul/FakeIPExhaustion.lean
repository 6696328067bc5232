import Enimul.FakeIPLog

/-! Exhaustion of a store.
The search for an address starts at the cursor and gives up when it is back there. It has then
been at every address of the prefix but the first, also when the cursor stood behind the last
one. -/
namespace Enimul
namespace FakeIP

open GoSlice GoText NetIP FakeIPStore

/-- Place `k` is ahead of a cursor at `i` that stops before `j`. Behind the last place the cursor
goes on with the first. -/
def Ahead (size i j k : ℕ) : Prop :=
  1 ≤ k ∧ k < size ∧
    if (if i < size then i else 1) < j then (if i < size then i else 1) ≤ k ∧ k < j
    else (if i < size then i else 1) ≤ k ∨ k < j

theorem ahead_turn {size j k : ℕ} (hk : 1 ≤ k ∧ k < size) :
    Ahead size j j k := by
  unfold Ahead
  refine ⟨hk.1,hk.2,?_⟩
  split_ifs <;> omega

/-- One round takes the place at the cursor off what is ahead. -/
theorem ahead_step {size i j k c : ℕ} (hc : c = if i < size then i else 1)
    (h : Ahead size i j k) (hne : k ≠ c) : Ahead size (c+1) j k ∧ c+1 ≠ j := by
  unfold Ahead at h ⊢
  rw [← hc] at h
  obtain ⟨hpos,hlt,h⟩ := h
  refine ⟨⟨hpos,hlt,?_⟩,?_⟩
  · split_ifs at h ⊢ <;> omega
  · split_ifs at h <;> omega

section Search

variable {domain : Str} {now expiresAt : ℤ} {st : FakeIPStore}
variable (hm : st.cidr.masked = st.cidr.addr) (hsize : 2 ≤ st.cidr.size)
include hm hsize

/-- A search that gives up has found a live entry at every place ahead of its cursor. -/
theorem search_exhausted {j : ℕ} (hj : 2 ≤ j ∧ j ≤ st.cidr.size) (rounds : ℕ) :
    ∀ {i : ℕ} {err : String} {st' : FakeIPStore}, 1 ≤ i ∧ i ≤ st.cidr.size →
      search domain now expiresAt (st.cidr.addrAt j) rounds (st.cidr.addrAt i) st =
        .ok (.error err,st') →
      ∀ k, Ahead st.cidr.size i j k →
        ∃ e, st.ipToEntry (st.cidr.addrAt k).string = some e ∧ now < e.expiresAt := by
  induction rounds with
  | zero =>
    intro i err st' _ h
    cases h
  | succ rounds ih =>
    intro i err st' hi h k hk
    have hlt : (if i < st.cidr.size then i else 1) < st.cidr.size := by split <;> omega
    have hpos : 1 ≤ if i < st.cidr.size then i else 1 := by split <;> omega
    rw [search,candidate_eq hm hsize hi.2] at h
    generalize hc : (if i < st.cidr.size then i else 1) = c at hlt hpos h
    cases hl : st.ipToEntry (st.cidr.addrAt c).string with
    | none =>
      rw [hl] at h
      simp [takeCandidate] at h
    | some e =>
      rw [hl] at h
      dsimp only at h
      by_cases hlive : now < e.expiresAt
      · by_cases hkc : k = c
        · exact ⟨e,hkc ▸ hl,hlive⟩
        · obtain ⟨hahead,hne⟩ := ahead_step hc.symm hk hkc
          have hnext : st.cidr.addrAt (c+1) ≠ st.cidr.addrAt j := fun heq =>
            hne (Prefix.addrAt_inj hm (Prefix.addr_ne_invalid hsize) (by omega) hj.2 heq)
          rw [if_pos hlive,Prefix.next_addrAt hm hlt,if_neg hnext] at h
          exact ih ⟨by omega,by omega⟩ h k hahead
      · rw [if_neg hlive] at h
        simp [takeCandidate] at h

end Search

section Exhaustion

variable {p : Prefix} {st : FakeIPStore} {now : ℤ}

/-- Every address of the prefix but its own has a live entry. -/
def AllHeld (p : Prefix) (now : ℤ) (st : FakeIPStore) : Prop :=
  ∀ a, p.contains a = true → a ≠ p.addr →
    ∃ e, st.ipToEntry a.string = some e ∧ now < e.expiresAt

theorem allHeld_iff (hm : p.masked = p.addr) (hsize : 2 ≤ p.size) :
    AllHeld p now st ↔ ∀ k, 1 ≤ k → k < p.size →
      ∃ e, st.ipToEntry (p.addrAt k).string = some e ∧ now < e.expiresAt := by
  constructor
  · intro h k hpos hk
    exact h _ ((Prefix.contains_addrAt hm (Prefix.addr_ne_invalid hsize)).mpr hk)
      (Prefix.addrAt_ne_addr hm hpos hk)
  · intro h a ha hne
    obtain ⟨k,hk,rfl⟩ := Prefix.exists_addrAt hm ha
    apply h k _ hk
    apply Nat.pos_of_ne_zero
    rintro rfl
    exact hne p.addrAt_zero

section Cleanup

variable (h : Consistent p st)
include h

theorem FakeIPStore.Consistent.cleanup_ip (now : ℤ) (b : Str) (e : FakeIPEntry) :
    (st.cleanupExpiredLocked now).ipToEntry b = some e ↔
      st.ipToEntry b = some e ∧ now < e.expiresAt := by
  have hk := h.linked.sweep fun entry => ¬ now < entry.expiresAt
  change (TwoWay.sweep _ _ _ st.entries).byRight.lookup b = some e ↔ _
  rw [hk.lookup_right,Option.filter_eq_some_iff]
  simp [ipToEntry]

theorem FakeIPStore.Consistent.cleanup_domain (now : ℤ) (d : Str) (e : FakeIPEntry) :
    (st.cleanupExpiredLocked now).domainToEntry d = some e ↔
      st.domainToEntry d = some e ∧ now < e.expiresAt := by
  have hk := h.linked.sweep fun entry => ¬ now < entry.expiresAt
  change (TwoWay.sweep _ _ _ st.entries).byLeft.lookup d = some e ↔ _
  rw [hk.lookup_left,Option.filter_eq_some_iff]
  simp [domainToEntry]

theorem FakeIPStore.Consistent.allHeld_cleanup (now : ℤ) :
    AllHeld p now (st.cleanupExpiredLocked now) ↔ AllHeld p now st := by
  unfold AllHeld
  simp only [h.cleanup_ip now,and_assoc,and_self]

end Cleanup

/-- An allocation for a name without an entry, among live entries. -/
theorem allocateLocked_exhausted (h : Consistent p st) (hm : p.masked = p.addr)
    (hsize : 2 ≤ p.size) (hlive : ∀ b e, st.ipToEntry b = some e → now < e.expiresAt)
    {domain : Str} (hd : st.domainToEntry domain = none) (expiresAt : ℤ) :
    ∃ r st', allocateLocked domain now expiresAt st = .ok (r,st') ∧
      (r = .error "fake ip pool exhausted" ↔ AllHeld p now st) ∧
      ((∃ ip, r = .ok ip) ∨ r = .error "fake ip pool exhausted" ∧ st' = st) := by
  obtain ⟨r,hr,hf⟩ := allocateLocked_found h hm hsize hlive hd expiresAt
  rw [allHeld_iff hm hsize]
  have hcidr := h.cidr
  subst hcidr
  cases hf with
  | @free i hpos hi hfree =>
    refine ⟨_,_,hr,?_,.inl ⟨_,rfl⟩⟩
    constructor
    · intro herr
      cases herr
    · intro hall
      obtain ⟨e,he,-⟩ := hall i hpos hi
      rw [hfree] at he
      cases he
  | exhausted =>
    refine ⟨_,_,hr,⟨fun _ => ?_,fun _ => rfl⟩,.inr ⟨rfl,rfl⟩⟩
    obtain ⟨j,hpos,hj,hnext,hfirst⟩ := h.cursor
    rw [allocateLocked,hd,hnext] at hr
    intro k hkpos hk
    by_cases hone : j = 1
    · -- nothing is filed, so the first round would have found an address
      obtain ⟨n,hn⟩ : ∃ n, st.cidr.size = n+1 := ⟨st.cidr.size-1,by omega⟩
      rw [hn,search,hfirst hone] at hr
      simp [takeCandidate] at hr
    · exact search_exhausted hm hsize ⟨by omega,hj⟩ _ ⟨hpos,hj⟩ hr k (ahead_turn ⟨hkpos,hk⟩)

theorem toLower_ne_nil {mapLower : Str → Str} (hlower : ∀ s, s ≠ [] → mapLower s ≠ [])
    {domain : Str} (h : domain ≠ []) : toLower mapLower domain ≠ [] := by
  unfold toLower
  split
  · simpa using h
  · exact hlower domain h

/-- In every state of a store an allocation for a name without a live entry returns. It fails
exactly when all addresses have live entries, and then it changes neither these nor the cursor. -/
theorem allocate_exhausted_iff (mapLower : Str → Str) (hlower : ∀ s, s ≠ [] → mapLower s ≠ [])
    (hm : p.masked = p.addr) (hsize : 2 ≤ p.size) (calls : List (ℤ × Call)) (domain : Str)
    (hdomain : domain ≠ []) (lifetime now : ℤ) :
    ∃ log st, runCalls mapLower calls [] (newFakeIPStore p) = .ok (log,st) ∧
      ((∀ e, st.domainToEntry (toLower mapLower domain) = some e → ¬ now < e.expiresAt) →
        ∃ r st', st.allocate mapLower domain lifetime now = .ok (r,st') ∧
          (r = .error "fake ip pool exhausted" ↔ AllHeld p now st) ∧
          ((∃ ip, r = .ok ip) ∨ r = .error "fake ip pool exhausted" ∧ st'.next = st.next ∧
            ∀ e, now < e.expiresAt →
              (∀ d, st'.domainToEntry d = some e ↔ st.domainToEntry d = some e) ∧
              ∀ ip, st'.ipToEntry ip = some e ↔ st.ipToEntry ip = some e)) := by
  have hnone : AllUsable p [] (newFakeIPStore p) := by
    refine ⟨fun a ha => by simp at ha,fun ip e he => ?_⟩
    simp [newFakeIPStore,ipToEntry,TwoWay.empty] at he
  obtain ⟨⟨log,st⟩,hrun,hinv,-⟩ := runCalls_usable mapLower hm hsize calls
    (newFakeIPStore_consistent hm hsize) hnone
  refine ⟨log,st,hrun,?_⟩
  intro hdead
  have hfree : (st.cleanupExpiredLocked now).domainToEntry (toLower mapLower domain) = none := by
    rw [Option.eq_none_iff_forall_ne_some]
    intro e he
    obtain ⟨hentry,hlive⟩ := (hinv.cleanup_domain now _ e).mp he
    exact hdead e hentry hlive
  obtain ⟨hclean,-,hlive⟩ := hinv.cleanupExpiredLocked now
  obtain ⟨r,st',hr,hiff,hresult⟩ := allocateLocked_exhausted hclean hm hsize hlive hfree
    (now+effectiveLifetime lifetime)
  rw [hinv.allHeld_cleanup now] at hiff
  refine ⟨r,st',?_,hiff,?_⟩
  · rw [allocate,if_neg (toLower_ne_nil hlower hdomain),hr]
  · rcases hresult with hok | ⟨herr,rfl⟩
    · exact .inl hok
    · refine .inr ⟨herr,rfl,?_⟩
      intro e he
      constructor
      · intro d
        rw [hinv.cleanup_domain now,and_iff_left he]
      · intro ip
        rw [hinv.cleanup_ip now,and_iff_left he]

/-- The last two addresses there are. -/
def lastPair : Prefix := ⟨.v4 0xFFFFFFFE,31,by decide,rfl⟩

theorem allocate_exhausted_iff_last :
    ∃ log st, runCalls id [(0,.allocate (str "a.com") second)] [] (newFakeIPStore lastPair) =
        .ok (log,st) ∧
      ∃ r st', st.allocate id (str "b.com") second 0 = .ok (r,st') ∧
        (r = .error "fake ip pool exhausted" ↔ AllHeld lastPair 0 st) := by
  obtain ⟨log,st,hrun,h⟩ := allocate_exhausted_iff (p := lastPair) id (fun _ hs => hs)
    (by decide) (by decide) [(0,.allocate (str "a.com") second)] (str "b.com") (by decide) second 0
  have hnone : st.domainToEntry (str "b.com") = none := by
    have hsnd := congrArg (Except.map fun r => r.2.domainToEntry (str "b.com")) hrun
    exact (Except.ok.inj hsnd).symm
  obtain ⟨r,st',hr,hiff,-⟩ := h (by
    intro e he
    change st.domainToEntry (str "b.com") = some e at he
    rw [hnone] at he
    cases he)
  exact ⟨log,st,hrun,r,st',hr,hiff⟩

end Exhaustion

end FakeIP
end Enimul
