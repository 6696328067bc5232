import Enimul.DoHDial
import Enimul.MostSpecific

/-! Texts of a host with a port, and of a host without one.
`net.JoinHostPort` puts brackets around a host with colons, and `net.SplitHostPort` reads the host
and the port back. It takes no IP address by itself for such a text: one of version 4 has no
colon, and one of version 6 has several and no brackets. -/
namespace Enimul
namespace HostPort

open GoSlice GoText NetIP DoHDial
open DomainMatcher (lastIndexByte_append lastIndexByte_of_notMem)


theorem contains_eq_false {s : Str} {c : UInt8} : contains s c = false ↔ c ∉ s := by
  simp only [contains,List.any_eq_false,decide_eq_true_eq]
  exact ⟨fun h hc => h c hc rfl,fun h b hb heq => h (heq ▸ hb)⟩

theorem notMem_port {port : Str} (hport : ∀ c ∈ port, isDigit c = true) {c : UInt8}
    (hc : isDigit c = false) : c ∉ port := by
  intro hmem
  simp [hport c hmem] at hc

theorem split_plain {host port : Str} (hhost : 91 ∉ host ∧ 93 ∉ host) (hcolon : 58 ∉ host)
    (hport : ∀ c ∈ port, isDigit c = true) : splitHostPort (host++58::port) = some (host,port) := by
  have hlast := lastIndexByte_append (notMem_port hport (c := 58) (by decide)) host
  have hno : ∀ c, c ∉ host → c ≠ 58 → isDigit c = false → contains (host++58::port) c = false := by
    intro c hc hne hdigit
    rw [contains_eq_false]
    simp [hc,hne,notMem_port hport hdigit]
  have hhead : (host++58::port).head? ≠ some 91 := by
    cases host with
    | nil => simp
    | cons b host =>
      rintro heq
      cases heq
      simp at hhost
  rw [splitHostPort,hlast]
  simp only [hhead,if_false,List.take_left,contains_eq_false.mpr hcolon,
    hno 91 hhost.1 (by decide) (by decide),hno 93 hhost.2 (by decide) (by decide),
    Bool.false_eq_true,or_self]
  rw [← List.drop_drop,List.drop_left]
  rfl

theorem findIdx_append {s : Str} {c : UInt8} (h : c ∉ s) (rest : Str) :
    (s++c::rest).findIdx? (fun b => b = c) = some s.length := by
  induction s with
  | nil => simp [List.findIdx?_cons]
  | cons b s ih =>
    obtain ⟨hb,hs⟩ := not_or.mp (mt List.mem_cons.mpr h)
    simp [List.findIdx?_cons,Ne.symm hb,ih hs]

theorem split_bracketed {host port : Str} (hhost : 91 ∉ host ∧ 93 ∉ host)
    (hport : ∀ c ∈ port, isDigit c = true) :
    splitHostPort ([91]++host++[93,58]++port) = some (host,port) := by
  have hlast := lastIndexByte_append (notMem_port hport (c := 58) (by decide))
    ([91]++host++[93])
  have hfind : ([91]++host++[93]++58::port).findIdx? (fun c => c = 93) = some (host.length+1) := by
    have h := findIdx_append (s := 91::host) (c := 93) (by simp [hhost.2]) (58::port)
    simpa using h
  have hno : ∀ c, c ∉ host → c ≠ 93 → c ≠ 58 → isDigit c = false →
      contains (host++[93]++58::port) c = false := by
    intro c hc hne hne' hdigit
    rw [contains_eq_false]
    simp [hc,hne,hne',notMem_port hport hdigit]
  have hbehind : contains (58::port) 93 = false := by
    rw [contains_eq_false]
    simp [notMem_port hport (c := 93) (by decide)]
  have htext : [91]++host++[93,58]++port = [91]++host++[93]++58::port := by simp
  have hlen : ([91]++host++[93] : Str).length = host.length+2 := by simp
  have hhead : ([91]++host++[93]++58::port).head? = some 91 := rfl
  have hdrop : ([91]++host++[93]++58::port).drop 1 = host++[93]++58::port := rfl
  have hstop : ([91]++host++[93]++58::port).drop (host.length+1+1) = 58::port :=
    List.drop_left' hlen
  have htake : (([91]++host++[93]++58::port).take (host.length+1)).drop 1 = host := by simp
  have hend : ([91]++host++[93]++58::port).drop (host.length+2+1) = port := by
    rw [← List.drop_drop,hstop]
    rfl
  rw [htext,splitHostPort,hlast,hlen]
  simp only [hhead,hfind,hdrop,hstop,htake,hend,hbehind,if_true,Bool.false_eq_true,
    hno 91 hhost.1 (by decide) (by decide) (by decide),not_false_eq_true,and_self]

/-- A host without brackets and a port of digits are read back from the text that joins them. -/
theorem splitHostPort_joinHostPort {host port : Str} (hhost : 91 ∉ host ∧ 93 ∉ host)
    (hport : ∀ c ∈ port, isDigit c = true) :
    splitHostPort (joinHostPort host port) = some (host,port) := by
  rw [joinHostPort]
  cases hcolon : contains host 58 with
  | true => exact split_bracketed hhost hport
  | false =>
    simp only [Bool.false_eq_true,if_false,List.append_assoc]
    exact split_plain hhost (contains_eq_false.mp hcolon) hport

/-! ### A host without a port -/

theorem parseOctets_chars {s : Str} {val n : ℕ} {fields out : List ℕ}
    (h : parseOctets s val n fields = some out) : ∀ c ∈ s, isDigit c = true ∨ c = 46 := by
  induction s generalizing val n fields with
  | nil => simp
  | cons c rest ih =>
    simp only [parseOctets] at h
    intro b hb
    rcases List.mem_cons.mp hb with rfl | hb
    · by_cases hdigit : isDigit b = true
      · exact .inl hdigit
      · by_cases hdot : b = 46
        · exact .inr hdot
        · simp [hdigit,hdot] at h
    · split_ifs at h <;> exact ih h b hb

theorem parseOctets_length {s : Str} {val n : ℕ} {fields out : List ℕ} (hf : fields.length ≤ 3)
    (h : parseOctets s val n fields = some out) : out.length = 4 := by
  induction s generalizing val n fields with
  | nil =>
    simp only [parseOctets] at h
    split at h
    · cases h
    · cases h
      rw [List.length_append,List.length_singleton]
      omega
  | cons c rest ih =>
    simp only [parseOctets] at h
    split_ifs at h with hdigit hzero hbig hdot hend hfull
    · exact ih hf h
    · exact ih (by rw [List.length_append,List.length_singleton]; omega) h

/-- The colons of a text stand behind its leading hexadecimal digits. -/
theorem count_colon_drop (s : Str) :
    s.count 58 = (s.drop (s.takeWhile isHex).length).count 58 := by
  have hsplit := List.takeWhile_append_dropWhile (p := isHex) (l := s)
  have hdigits : (s.takeWhile isHex).count 58 = 0 := by
    rw [List.count_eq_zero]
    exact fun hmem => absurd (List.mem_takeWhile_imp hmem) (by decide)
  have hdrop : (s.takeWhile isHex++s.dropWhile isHex).drop (s.takeWhile isHex).length =
      s.dropWhile isHex := List.drop_left' rfl
  rw [hsplit] at hdrop
  have hcount : (s.takeWhile isHex++s.dropWhile isHex).count 58 = (s.dropWhile isHex).count 58 := by
    rw [List.count_append,hdigits,Nat.zero_add]
  rw [hsplit] at hcount
  rw [hdrop,hcount]

/-- An address of version 6 without an ellipsis has as many colons as it needs for its bytes, and
one with an ellipsis has two. -/
theorem parseGroups_colons {rounds : ℕ} {s rest : Str} {ip out : List ℕ} {ellipsis : Option ℕ}
    (h : parseGroups rounds s ip none = some (rest,out,ellipsis)) :
    2 ≤ s.count 58 ∨ (ellipsis = none ∧ out.length ≤ ip.length+2*s.count 58+4) := by
  induction rounds generalizing s ip with
  | zero =>
    cases h
    exact .inr ⟨rfl,by omega⟩
  | succ rounds ih =>
    rw [count_colon_drop s]
    simp only [parseGroups] at h
    split at h
    · cases h
    · split at h
      · cases h
        refine .inr ⟨rfl,?_⟩
        simp only [List.length_append,List.length_cons,List.length_nil]
        omega
      · rename_i c behind hdrop
        rw [hdrop]
        by_cases hdot : c = 46
        · rw [if_pos hdot] at h
          split at h
          · cases h
          · obtain ⟨fields,hfields,heq⟩ := Option.map_eq_some_iff.mp h
            cases heq
            have hlen := parseOctets_length (by simp) hfields
            exact .inr ⟨rfl,by rw [List.length_append,hlen]; omega⟩
        · rw [if_neg hdot] at h
          by_cases hcolon : c = 58
          · subst hcolon
            rw [if_neg (by simp)] at h
            cases behind with
            | nil => cases h
            | cons d more =>
              by_cases hd : d = 58
              · exact .inl (by simp [hd])
              · simp only [if_neg hd] at h
                rw [List.count_cons_self]
                rcases ih h with htwo | ⟨hnone,hle⟩
                · exact .inl (by omega)
                · simp only [List.length_append,List.length_cons,List.length_nil] at hle
                  exact .inr ⟨hnone,by omega⟩
          · rw [if_pos hcolon] at h
            cases h

theorem head_of_parseGroups {rounds : ℕ} {s : Str} {ip : List ℕ} {ellipsis : Option ℕ} {out : Groups}
    (h : parseGroups (rounds+1) s ip ellipsis = some out) : s.head? ≠ some 91 := by
  cases s with
  | nil => simp
  | cons c rest =>
    rintro hhead
    cases hhead
    have hdigits : (91::rest).takeWhile isHex = [] := by
      rw [List.takeWhile_cons_of_neg (by decide)]
    simp [parseGroups,hdigits] at h

theorem two_colons_of_expand {s : Str} {ip : List ℕ}
    (h : (parseGroups 8 s [] none).bind expandGroups = some ip) : 2 ≤ s.count 58 := by
  obtain ⟨⟨rest,out,ellipsis⟩,hgroups,hexpand⟩ := Option.bind_eq_some_iff.mp h
  rcases parseGroups_colons hgroups with htwo | ⟨rfl,hle⟩
  · exact htwo
  · simp only [expandGroups] at hexpand
    split_ifs at hexpand with hrest hshort
    · cases hexpand
    · simp only [List.length_nil] at hle
      omega

theorem no_zone_of_parseIPv6 {s : Str} {a : Addr} (h : parseIPv6 s = some a) (hz : a.zone = []) :
    ∀ c ∈ s, c ≠ 37 := by
  rintro c hc rfl
  have hcontains : contains s 37 = true := by
    rw [← Bool.not_eq_false,contains_eq_false,not_not]
    exact hc
  rw [parseIPv6] at h
  simp only [hcontains,true_and] at h
  split_ifs at h with hzone hprefix hrest
  · cases h
    exact hzone hz
  · obtain ⟨ip,-,rfl⟩ := Option.map_eq_some_iff.mp h
    exact hzone hz
  · obtain ⟨ip,-,rfl⟩ := Option.map_eq_some_iff.mp h
    exact hzone hz

theorem colons_of_parseIPv6 {s : Str} {a : Addr} (h : parseIPv6 s = some a) (hz : a.zone = []) :
    2 ≤ s.count 58 ∧ s.head? ≠ some 91 := by
  rw [parseIPv6_of_no_zone (no_zone_of_parseIPv6 h hz)] at h
  split at h
  · rename_i hprefix
    obtain ⟨rest,rfl⟩ := List.isPrefixOf_iff_prefix.mp hprefix
    exact ⟨by simp [str],by simp [str]⟩
  · obtain ⟨ip,hexpand,-⟩ := Option.map_eq_some_iff.mp h
    obtain ⟨out,hgroups,-⟩ := Option.bind_eq_some_iff.mp hexpand
    exact ⟨two_colons_of_expand hexpand,head_of_parseGroups hgroups⟩

theorem notMem_of_lastIndexByte {s : Str} {c : UInt8} (h : lastIndexByte s c = none) : c ∉ s := by
  induction s with
  | nil => simp
  | cons b bs ih =>
    simp only [lastIndexByte] at h
    cases hlast : lastIndexByte bs c with
    | some j => simp [hlast] at h
    | none =>
      have hb : b ≠ c := by simpa [hlast] using h
      simp [ih hlast,Ne.symm hb]

/-- The last colon is not among the colons before it. -/
theorem count_take_lastIndexByte {s : Str} {c : UInt8} {i : ℕ} (h : lastIndexByte s c = some i) :
    (s.take i).count c+1 = s.count c := by
  induction s generalizing i with
  | nil => cases h
  | cons b bs ih =>
    simp only [lastIndexByte] at h
    cases hlast : lastIndexByte bs c with
    | some j =>
      rw [hlast] at h
      cases h
      rw [List.take_succ_cons,List.count_cons,List.count_cons,← ih hlast]
      omega
    | none =>
      have hrest := List.count_eq_zero.mpr (notMem_of_lastIndexByte hlast)
      obtain ⟨rfl,rfl⟩ : b = c ∧ 0 = i := by simpa [hlast] using h
      rw [List.take_zero,List.count_nil,List.count_cons_self,hrest]

theorem splitHostPort_colons {s : Str} (hcolons : 2 ≤ s.count 58) (hhead : s.head? ≠ some 91) :
    splitHostPort s = none := by
  rw [splitHostPort]
  cases hlast : lastIndexByte s 58 with
  | none => rfl
  | some i =>
    have hcount := count_take_lastIndexByte hlast
    have hmem : contains (s.take i) 58 = true := by
      rw [← Bool.not_eq_false,contains_eq_false,not_not,← List.count_pos_iff]
      omega
    simp only [hhead,if_false,hmem,true_or,if_true]

/-- An IP address, or a name without colons, has no port in it. -/
theorem splitHostPort_host {host : Str} (h : isIPLiteral host = true ∨ 58 ∉ host) :
    splitHostPort host = none := by
  have hnone : 58 ∉ host → splitHostPort host = none := by
    intro hcolon
    rw [splitHostPort,lastIndexByte_of_notMem hcolon]
  rcases h with hliteral | hcolon
  · rw [isIPLiteral] at hliteral
    split at hliteral
    · rename_i a haddr
      have hz : a.zone = [] := of_decide_eq_true hliteral
      rw [parseAddr] at haddr
      split at haddr
      · obtain ⟨fields,hfields,-⟩ := Option.map_eq_some_iff.mp haddr
        refine hnone fun hmem => ?_
        rcases parseOctets_chars hfields 58 hmem with hdigit | hdot
        · exact absurd hdigit (by decide)
        · exact absurd hdot (by decide)
      · obtain ⟨hcolons,hhead⟩ := colons_of_parseIPv6 haddr hz
        exact splitHostPort_colons hcolons hhead
      · cases haddr
    · cases hliteral
  · exact hnone hcolon

end HostPort
end Enimul
