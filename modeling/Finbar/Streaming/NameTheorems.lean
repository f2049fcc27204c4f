/-
Finbar.Streaming.NameTheorems — which names the factory builds states for,
and which of them share a family.

A name with a hand-written state is classified as streaming and belongs to no
other route (`factoryBuild_streaming`, `factoryBuild_not_causal`,
`factoryBuild_not_vpRoot`). Outside the Bollinger family, names of one family
have one state (`factoryBuild_of_family`); inside it the state depends on the
name's period (`factoryBuild_bollinger`).

No `sorry`, no `axiom`.
-/
import Finbar.Lib.OrderedDict
import Finbar.Streaming.Names

namespace Finbar.Streaming

open Lib Lib.Python

variable {name other : String} {state : HandState}

/-! ## §1 Starts of names -/

theorem startsWith_iff (name start : String) :
    startsWith name start = true ↔ start.toList <+: name.toList :=
  List.isPrefixOf_iff_prefix

/-- A start of a start of a name is a start of it. -/
theorem startsWith_trans {start outer : String} (h : startsWith outer start = true)
    (hname : startsWith name outer = true) : startsWith name start = true := by
  rw [startsWith_iff] at h hname ⊢
  exact h.trans hname

/-- Of two starts of one name, one starts the other. -/
theorem startsWith_total {s t : String} (hs : startsWith name s = true)
    (ht : startsWith name t = true) : startsWith t s = true ∨ startsWith s t = true := by
  rw [startsWith_iff] at hs ht
  rw [startsWith_iff, startsWith_iff]
  exact List.prefix_or_prefix_of_prefix hs ht

/-- A name has at most one of the dynamic starts. -/
theorem dynamicStart_unique {s t : String} (hs : s ∈ dynamicStarts) (ht : t ∈ dynamicStarts)
    (hname : startsWith name s = true) (hname' : startsWith name t = true) : s = t := by
  have hfree : ∀ s ∈ dynamicStarts, ∀ t ∈ dynamicStarts, startsWith t s = true → s = t := by
    decide +kernel
  rcases startsWith_total hname hname' with h | h
  · exact hfree s hs t ht h
  · exact (hfree t ht s hs h).symm

/-- The first dynamic start that fits a name is any that fits it. -/
theorem find_dynamicStart {start : String} (hstart : start ∈ dynamicStarts)
    (hname : startsWith name start = true) :
    dynamicStarts.find? (startsWith name) = some start := by
  cases hfind : dynamicStarts.find? (startsWith name) with
  | none =>
      rw [List.find?_eq_none] at hfind
      exact absurd hname (hfind start hstart)
  | some found =>
      have hfound := List.find?_some hfind
      have hmem := List.mem_of_find?_eq_some hfind
      rw [dynamicStart_unique hmem hstart hfound hname]

/-! ## §2 What the factory builds -/

/-- The starts with a registered state are the dynamic ones. -/
theorem prefixedStates_starts : prefixedStates.map Prod.fst = dynamicStarts := rfl

/-- A state comes from an exact name or from a start and a period. -/
theorem factoryBuild_cases (h : factoryBuild name = some state) :
    exactStates.lookup name = some state ∨
      exactStates.lookup name = none ∧
      ∃ start build period, (start, build) ∈ prefixedStates ∧
        startsWith name start = true ∧ periodAfter name start = some period ∧
        state = build period := by
  unfold factoryBuild at h
  cases hexact : exactStates.lookup name with
  | some found =>
      rw [hexact] at h
      exact .inl h
  | none =>
      rw [hexact] at h
      obtain ⟨⟨start, build⟩, hmem, hentry⟩ := List.exists_of_findSome?_eq_some h
      by_cases hstart : startsWith name start = true
      · rw [if_pos hstart, Option.map_eq_some_iff] at hentry
        obtain ⟨period, hperiod, hstate⟩ := hentry
        exact .inr ⟨rfl, start, build, period, hmem, hstart, hperiod, hstate.symm⟩
      · rw [if_neg hstart] at hentry
        cases hentry

/-- **Names with a state are classified as streaming.** -/
theorem factoryBuild_streaming (registry : HandlerRegistry)
    (h : factoryBuild name = some state) :
    classifyIndicator registry name = .ok .streaming := by
  unfold classifyIndicator
  rcases factoryBuild_cases h with hexact | ⟨-, start, build, period, hmem, hstart, hperiod, -⟩
  · have hlisted : ∀ entry ∈ exactStates.map Prod.fst, handStreaming.contains entry = true := by
      decide +kernel
    have hname := hlisted name (List.mem_map_of_mem (mem_of_lookup hexact))
    rw [if_pos hname]
  · have hmem' : start ∈ dynamicStarts := by
      rw [← prefixedStates_starts]
      exact List.mem_map_of_mem hmem
    have hdynamic : isDynamic name = true := by
      unfold isDynamic
      rw [find_dynamicStart hmem' hstart]
      simp only
      rw [hperiod]
      rfl
    by_cases hhand : handStreaming.contains name = true
    · rw [if_pos hhand]
    · rw [if_neg hhand, if_pos hdynamic]

/-- A name with a state is not in a table of names without one. -/
theorem not_contains_of_built {table : List String}
    (htable : ∀ n ∈ table, (factoryBuild n).isNone = true) (h : factoryBuild name = some state) :
    table.contains name = false := by
  rw [← Bool.not_eq_true, List.contains_iff_mem]
  intro hmem
  have hnone := htable name hmem
  rw [h] at hnone
  cases hnone

theorem factoryBuild_not_causal (h : factoryBuild name = some state) :
    causalNames.contains name = false :=
  not_contains_of_built (by decide +kernel) h

theorem factoryBuild_not_vpRoot (h : factoryBuild name = some state) :
    vpRootNames.contains name = false :=
  not_contains_of_built (by decide +kernel) h

/-! ## §3 Families -/

/-- A family is that of the MACD names, that of the Bollinger names, or has
one name. -/
theorem canonicalFamily_cases (name : String) :
    (name ∈ macdNames ∧ canonicalFamily name = "macd") ∨
      ((name ∈ bbNames ∨ ∃ start ∈ bbStarts, startsWith name start = true) ∧
        canonicalFamily name = "bb") ∨
      canonicalFamily name = name := by
  unfold canonicalFamily
  by_cases hmacd : macdNames.contains name = true
  · rw [if_pos hmacd]
    exact .inl ⟨List.contains_iff_mem.mp hmacd, rfl⟩
  · rw [if_neg hmacd]
    by_cases hbb : bbNames.contains name = true
    · rw [if_pos hbb]
      exact .inr (.inl ⟨.inl (List.contains_iff_mem.mp hbb), rfl⟩)
    · rw [if_neg hbb]
      by_cases hstart : bbStarts.any (startsWith name) = true
      · rw [if_pos hstart]
        exact .inr (.inl ⟨.inr (List.any_eq_true.mp hstart), rfl⟩)
      · rw [if_neg hstart]
        exact .inr (.inr rfl)

/-- All MACD names have one state. -/
theorem factoryBuild_macd (h : name ∈ macdNames) :
    factoryBuild name = some (.macd MacdState.init) := by
  unfold macdNames at h
  simp only [List.mem_cons, List.not_mem_nil, or_false] at h
  rcases h with rfl | rfl | rfl
  · rfl
  · rfl
  · rfl

/-- **Outside the Bollinger family** names of one family have one state. -/
theorem factoryBuild_of_family (hfamily : canonicalFamily other = canonicalFamily name)
    (hbb : canonicalFamily name ≠ "bb") : factoryBuild other = factoryBuild name := by
  have hself : ∀ n : String, canonicalFamily n = n → canonicalFamily n = "macd" →
      n ∈ macdNames := by
    intro n hn hmacd
    rw [← hn, hmacd]
    decide
  rcases canonicalFamily_cases name with ⟨hname, hmacd⟩ | ⟨-, hcontra⟩ | hname
  · rw [hmacd] at hfamily
    rcases canonicalFamily_cases other with ⟨hother, -⟩ | ⟨-, hcontra⟩ | hother
    · rw [factoryBuild_macd hother, factoryBuild_macd hname]
    · rw [hfamily] at hcontra
      exact absurd hcontra (by decide)
    · rw [factoryBuild_macd (hself other hother hfamily), factoryBuild_macd hname]
  · exact absurd hcontra hbb
  · rcases canonicalFamily_cases other with ⟨hother, hmacd⟩ | ⟨-, hcontra⟩ | hother
    · rw [hmacd] at hfamily
      rw [factoryBuild_macd hother, factoryBuild_macd (hself name hname hfamily.symm)]
    · rw [hfamily] at hcontra
      exact absurd hcontra hbb
    · rw [← hother, hfamily, hname]

theorem bbStarts_subset {start : String} (h : start ∈ bbStarts) : start ∈ dynamicStarts := by
  have hsubset : ∀ start ∈ bbStarts, start ∈ dynamicStarts := by decide
  exact hsubset start h

/-- The exact states of the Bollinger family. -/
theorem exactStates_bollinger {entry : String × HandState} (hmem : entry ∈ exactStates)
    (hfamily : canonicalFamily entry.1 = "bb") : entry.2 = .bb (BbState.init 20) := by
  unfold exactStates at hmem
  simp only [List.mem_cons, List.not_mem_nil, or_false] at hmem
  rcases hmem with rfl | rfl | rfl | rfl | rfl | rfl | rfl | rfl | rfl | rfl | rfl | rfl | rfl
  all_goals first
    | rfl
    | exact absurd hfamily (by decide)

/-- The states with a Bollinger start. -/
theorem prefixedStates_bollinger {start : String} {build : ℕ → HandState}
    (hmem : (start, build) ∈ prefixedStates) (hstart : start ∈ bbStarts) (period : ℕ) :
    build period = .bb (BbState.init period) := by
  unfold prefixedStates at hmem
  simp only [List.mem_cons, List.not_mem_nil, or_false, Prod.mk.injEq] at hmem
  rcases hmem with ⟨rfl, rfl⟩ | ⟨rfl, rfl⟩ | ⟨rfl, rfl⟩ | ⟨rfl, rfl⟩ | ⟨rfl, rfl⟩ |
    ⟨rfl, rfl⟩ | ⟨rfl, rfl⟩ | ⟨rfl, rfl⟩
  all_goals first
    | rfl
    | exact absurd hstart (by decide)

theorem two_le_period {start : String} {period : ℕ} (h : periodAfter name start = some period) :
    2 ≤ period := by
  unfold periodAfter at h
  rw [Option.filter_eq_some_iff] at h
  exact of_decide_eq_true h.2

/-- The Bollinger names with a state. -/
theorem bollinger_name (hfamily : canonicalFamily name = "bb")
    (hstate : factoryBuild name = some state) :
    name ∈ bbNames ∨ ∃ start ∈ bbStarts, startsWith name start = true := by
  rcases canonicalFamily_cases name with ⟨-, hmacd⟩ | ⟨hname, -⟩ | hself
  · rw [hfamily] at hmacd
    exact absurd hmacd (by decide)
  · exact hname
  · rw [hfamily] at hself
    have hnone : factoryBuild "bb" = none := by decide +kernel
    rw [← hself, hnone] at hstate
    cases hstate

/-- A Bollinger name that is not exact has one of the Bollinger starts. -/
theorem bollinger_start (hfamily : canonicalFamily name = "bb")
    (hstate : factoryBuild name = some state) (hexact : exactStates.lookup name = none) :
    ∃ start ∈ bbStarts, startsWith name start = true := by
  rcases bollinger_name hfamily hstate with hname | hstart
  · have hlisted : ∀ n ∈ bbNames, (exactStates.lookup n).isSome = true := by decide
    have hcontra := hlisted name hname
    rw [hexact] at hcontra
    cases hcontra
  · exact hstart

/-- **Inside the Bollinger family** the state is that of the name's period. -/
theorem factoryBuild_bollinger (hfamily : canonicalFamily name = "bb")
    (hstate : factoryBuild name = some state) :
    ∃ period, state = .bb (BbState.init period) ∧ 2 ≤ period := by
  rcases factoryBuild_cases hstate with
    hexact | ⟨hexact, start, build, period, hmem, hstart, hperiod, rfl⟩
  · exact ⟨20, exactStates_bollinger (mem_of_lookup hexact) hfamily, by decide⟩
  · obtain ⟨bbStart, hbbMem, hbbStart⟩ := bollinger_start hfamily hstate hexact
    have hstartMem : start ∈ dynamicStarts := by
      rw [← prefixedStates_starts]
      exact List.mem_map_of_mem hmem
    obtain rfl := dynamicStart_unique hstartMem (bbStarts_subset hbbMem) hstart hbbStart
    exact ⟨period, prefixedStates_bollinger hmem hbbMem period, two_le_period hperiod⟩

theorem bollingerPeriod_eq {period : ℕ}
    (hstate : factoryBuild name = some (.bb (BbState.init period))) (hperiod : 2 ≤ period) :
    bollingerPeriod name = some period := by
  unfold bollingerPeriod
  rw [hstate]
  simp only [BbState.init]
  rw [max_eq_right hperiod]

/-- A Bollinger name with a period has the state of that period. -/
theorem factoryBuild_of_bollingerPeriod {period : ℕ} (hfamily : canonicalFamily name = "bb")
    (hperiod : bollingerPeriod name = some period) :
    factoryBuild name = some (.bb (BbState.init period)) ∧ 2 ≤ period := by
  cases hstate : factoryBuild name with
  | none =>
      unfold bollingerPeriod at hperiod
      rw [hstate] at hperiod
      cases hperiod
  | some state =>
      obtain ⟨built, rfl, hbuilt⟩ := factoryBuild_bollinger hfamily hstate
      rw [bollingerPeriod_eq hstate hbuilt] at hperiod
      obtain rfl := Option.some.inj hperiod
      exact ⟨rfl, hbuilt⟩

end Finbar.Streaming
