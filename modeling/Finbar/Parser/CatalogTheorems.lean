/-
Finbar.Parser.CatalogTheorems — what the catalog accepts, and what the runtime computes.

`Supported` spells out the names that conditions may use: the fixed names, the rolling
profiles, the types with a number, and any of these with timeframe suffixes
(`supportsLowered_iff`). A column that the catalog resolves is one that the runtime
classifies (`resolve_computed`). A name that is merely supported need not be: a number below
two is a period to the one and no period to the other (`supported_computed`).

No `sorry`, no `axiom`.
-/
import Finbar.Lib.Entries
import Finbar.Parser.IndicatorCatalog
import Finbar.Parser.ParseTheorems
import Finbar.Streaming.NameTheorems

namespace Finbar.Parser

open Lib Lib.Python Finbar.Streaming StrategyIndicatorCatalog

variable {name stem start suffix : String} {digits : List Char}

/-! ## §1 Patterns -/

theorem restAfter_append (start : String) (digits : List Char) :
    restAfter (start ++ String.ofList digits) start = digits := by
  simp [restAfter, String.toList_append]

theorem startsWith_append (start rest : String) : startsWith (start ++ rest) start = true := by
  rw [startsWith_iff, String.toList_append]
  exact List.prefix_append _ _

theorem eq_of_startsWith (h : startsWith name start = true) :
    name = start ++ String.ofList (restAfter name start) := by
  obtain ⟨rest, hrest⟩ := (startsWith_iff name start).mp h
  refine String.toList_injective ?_
  rw [String.toList_append, String.toList_ofList, restAfter, ← hrest, List.drop_left]

theorem periodStarts_eq : periodStarts = dynamicStarts := by
  simp [periodStarts, PERIOD_RANGES, OPTIONAL_PERIOD_RANGES, dynamicStarts]

theorem multiDayStarts_eq : dayBases.map (· ++ "_") = multiDayStarts := by
  simp [dayBases, multiDayStarts]

theorem rvpStarts_eq : RVP_BASE.map (· ++ "_") = rvpStarts := by simp [RVP_BASE, rvpStarts]

/-- A multi-day name has one start only. -/
theorem parseDays_eq_some {days : ℕ} : parseDays name = some days ↔
    ∃ start ∈ multiDayStarts, startsWith name start = true ∧ name.toList.getLast? = some 'd' ∧
      digitsValue (restAfter name start).dropLast = some days := by
  have hfree : ∀ s ∈ multiDayStarts, ∀ t ∈ multiDayStarts, startsWith t s = true → s = t := by
    simp [multiDayStarts, startsWith]
  constructor
  · intro h
    obtain ⟨start, hstart, hdays⟩ := List.exists_of_findSome?_eq_some h
    split at hdays
    · next hmatch => exact ⟨start, hstart, hmatch.1, hmatch.2, hdays⟩
    · cases hdays
  · rintro ⟨start, hstart, hname, hlast, hdays⟩
    have hothers : ∀ other ∈ multiDayStarts, startsWith name other = true → other = start := by
      intro other hother hname'
      rcases startsWith_total hname hname' with h | h
      · exact (hfree start hstart other hother h).symm
      · exact hfree other hother start hstart h
    cases hfound : parseDays name with
    | none =>
        have hnone := List.findSome?_eq_none_iff.mp hfound start hstart
        rw [if_pos ⟨hname, hlast⟩, hdays] at hnone
        cases hnone
    | some found =>
        obtain ⟨other, hother, hvalue⟩ := List.exists_of_findSome?_eq_some hfound
        split at hvalue
        · next hmatch =>
            rw [hothers other hother hmatch.1, hdays] at hvalue
            exact hvalue.symm
        · cases hvalue

theorem positiveDigits_iff {inner : List Char} :
    positiveDigits inner = true ↔ ∃ n, digitsValue inner = some n ∧ 1 ≤ n := by
  rw [positiveDigits, Option.isSome_iff_exists]
  simp [Option.filter_eq_some_iff]

theorem isRollingVp_iff : isRollingVp name = true ↔
    (∃ start ∈ multiDayStarts, startsWith name start = true ∧ name.toList.getLast? = some 'd' ∧
        positiveDigits (restAfter name start).dropLast = true) ∨
      ∃ start ∈ rvpStarts, startsWith name start = true ∧
        positiveDigits (restAfter name start) = true := by
  have hdays : ((parseDays name).filter fun days => 1 ≤ days).isSome = true ↔
      ∃ start ∈ multiDayStarts, startsWith name start = true ∧ name.toList.getLast? = some 'd' ∧
        positiveDigits (restAfter name start).dropLast = true := by
    simp only [Option.isSome_iff_exists, Option.filter_eq_some_iff, decide_eq_true_eq,
      parseDays_eq_some, positiveDigits_iff]
    constructor
    · rintro ⟨days, ⟨start, hstart, hname, hlast, hvalue⟩, hpos⟩
      exact ⟨start, hstart, hname, hlast, days, hvalue, hpos⟩
    · rintro ⟨start, hstart, hname, hlast, days, hvalue, hpos⟩
      exact ⟨days, ⟨start, hstart, hname, hlast, hvalue⟩, hpos⟩
  have hwindow : (parseWindowBars name).isSome = true ↔ ∃ start ∈ rvpStarts,
      startsWith name start = true ∧ positiveDigits (restAfter name start) = true := by
    unfold parseWindowBars positiveDigits
    rw [List.findSome?_isSome_iff]
    refine exists_congr fun start => and_congr_right fun _ => ?_
    split
    · next hname => exact (and_iff_right hname).symm
    · next hname => exact iff_of_false Bool.false_ne_true fun h => hname h.1
  rw [isRollingVp, Bool.or_eq_true, hdays, hwindow, or_comm]

/-- **The two patterns of a rolling profile agree**: that of the parser and that of the
dispatch. -/
theorem matchRollingVp_eq (name : String) :
    matchRollingVp name = if isRollingVp name then some name else none := by
  have hdays : (dayBases.any fun base => startsWith name (base ++ "_") &&
      decide (name.toList.getLast? = some 'd') &&
        positiveDigits (restAfter name (base ++ "_")).dropLast) = true ↔
      ∃ start ∈ multiDayStarts, startsWith name start = true ∧ name.toList.getLast? = some 'd' ∧
        positiveDigits (restAfter name start).dropLast = true := by
    rw [← multiDayStarts_eq]
    simp [and_assoc]
  have hwindow : (RVP_BASE.any fun base => startsWith name (base ++ "_") &&
      positiveDigits (restAfter name (base ++ "_"))) = true ↔ ∃ start ∈ rvpStarts,
        startsWith name start = true ∧ positiveDigits (restAfter name start) = true := by
    rw [← rvpStarts_eq]
    simp
  unfold matchRollingVp
  by_cases hd : ∃ start ∈ multiDayStarts, startsWith name start = true ∧
      name.toList.getLast? = some 'd' ∧ positiveDigits (restAfter name start).dropLast = true
  · rw [if_pos (hdays.mpr hd), if_pos (isRollingVp_iff.mpr (.inl hd))]
  · rw [if_neg (hdays.not.mpr hd)]
    by_cases hw : ∃ start ∈ rvpStarts, startsWith name start = true ∧
        positiveDigits (restAfter name start) = true
    · rw [if_pos (hwindow.mpr hw), if_pos (isRollingVp_iff.mpr (.inr hw))]
    · rw [if_neg (hwindow.not.mpr hw), if_neg]
      rw [isRollingVp_iff]
      exact not_or.mpr ⟨hd, hw⟩

/-! ## §2 The supported names -/

/-- The names that the strategy catalog supports. -/
inductive Supported : String → Prop where
  | fixed {name : String} (mem : name ∈ FIXED) : Supported name
  | rolling {name : String} (pattern : isRollingVp name = true) : Supported name
  | period {start : String} {digits : List Char} (mem : start ∈ periodStarts)
      (some_digits : digits ≠ []) (all_digits : digits.all Char.isDigit = true) :
      Supported (start ++ String.ofList digits)
  | timeframe {stem suffix : String} (supported : Supported stem)
      (mem : suffix ∈ timeframeSuffixes) : Supported (stem ++ suffix)

theorem endsWith_iff (name suffix : String) :
    endsWith name suffix = true ↔ suffix.toList <:+ name.toList :=
  List.isSuffixOf_iff_suffix

theorem endsWith_append (stem suffix : String) : endsWith (stem ++ suffix) suffix = true := by
  rw [endsWith_iff, String.toList_append]
  exact List.suffix_append _ _

theorem removeSuffix_append (stem suffix : String) : removeSuffix (stem ++ suffix) suffix = stem := by
  refine String.toList_injective ?_
  simp [removeSuffix, String.toList_append]

theorem append_removeSuffix (h : endsWith name suffix = true) :
    removeSuffix name suffix ++ suffix = name := by
  obtain ⟨rest, hrest⟩ := (endsWith_iff name suffix).mp h
  refine String.toList_injective ?_
  rw [String.toList_append, removeSuffix, String.toList_ofList, ← hrest, List.length_append,
    Nat.add_sub_cancel, List.take_left]

/-- A name has one timeframe suffix only. -/
theorem find_timeframeSuffix (hmem : suffix ∈ timeframeSuffixes)
    (hends : endsWith name suffix = true) :
    timeframeSuffixes.find? (endsWith name) = some suffix := by
  have hfree : ∀ s ∈ timeframeSuffixes, ∀ t ∈ timeframeSuffixes, endsWith t s = true → s = t := by
    decide
  cases hfind : timeframeSuffixes.find? (endsWith name) with
  | none =>
      rw [List.find?_eq_none] at hfind
      exact absurd hends (hfind suffix hmem)
  | some found =>
      have hfound : endsWith name found = true := List.find?_some hfind
      have hmem' := List.mem_of_find?_eq_some hfind
      rw [endsWith_iff] at hends hfound
      rcases List.suffix_or_suffix_of_suffix hends hfound with h | h
      · rw [hfree suffix hmem found hmem' ((endsWith_iff found suffix).mpr h)]
      · rw [hfree found hmem' suffix hmem ((endsWith_iff suffix found).mpr h)]

/-- A name that ends in a digit has no timeframe suffix. -/
theorem find_timeframeSuffix_digits (hne : digits ≠ []) (hall : digits.all Char.isDigit = true)
    (start : String) :
    timeframeSuffixes.find? (endsWith (start ++ String.ofList digits)) = none := by
  have hletters : ∀ s ∈ timeframeSuffixes, s.toList.getLast?.map Char.isDigit = some false := by
    decide
  rw [List.find?_eq_none]
  intro suffix hmem hends
  obtain ⟨c, hc, hletter⟩ := Option.map_eq_some_iff.mp (hletters suffix hmem)
  obtain ⟨rest, hrest⟩ := (endsWith_iff _ suffix).mp hends
  rw [String.toList_append, String.toList_ofList] at hrest
  have hlast := congrArg List.getLast? hrest
  rw [List.getLast?_append, hc, List.getLast?_append, List.getLast?_eq_some_getLast hne] at hlast
  have hdigit := List.all_eq_true.mp hall _ (List.getLast_mem hne)
  rw [← Option.some.inj hlast, hletter] at hdigit
  cases hdigit

theorem hasPeriod_iff : hasPeriod name = true ↔ ∃ start ∈ periodStarts, ∃ digits : List Char,
    digits ≠ [] ∧ digits.all Char.isDigit = true ∧ name = start ++ String.ofList digits := by
  unfold hasPeriod
  rw [List.any_eq_true]
  refine exists_congr fun start => and_congr_right fun _ => ?_
  rw [Bool.and_eq_true]
  constructor
  · rintro ⟨hname, hdigits⟩
    unfold digitsValue at hdigits
    split at hdigits
    · next h => exact ⟨_, h.1, h.2, eq_of_startsWith hname⟩
    · cases hdigits
  · rintro ⟨digits, hne, hall, rfl⟩
    refine ⟨startsWith_append _ _, ?_⟩
    rw [restAfter_append, digitsValue, if_pos ⟨hne, hall⟩]
    rfl

/-- **The language of the strategy catalog.** -/
theorem supportsLowered_iff : supportsLowered name = true ↔ Supported name := by
  constructor
  · intro h
    fun_induction supportsLowered name with
    | case1 name hfixed => exact .fixed hfixed
    | case2 name hfixed hrolling =>
        rw [matchRollingVp_eq] at hrolling
        refine .rolling ?_
        by_contra hnone
        rw [if_neg hnone] at hrolling
        cases hrolling
    | case3 name hfixed hrolling suffix hfind ih =>
        have hends : endsWith name suffix = true := List.find?_some hfind
        rw [← append_removeSuffix hends]
        exact .timeframe (ih h) (List.mem_of_find?_eq_some hfind)
    | case4 name hfixed hrolling hfind =>
        obtain ⟨start, hstart, digits, hne, hall, rfl⟩ := hasPeriod_iff.mp h
        exact .period hstart hne hall
  · intro h
    induction h with
    | fixed hmem => rw [supportsLowered, if_pos hmem]
    | rolling hpattern =>
        rw [supportsLowered, matchRollingVp_eq, if_pos hpattern, Option.isSome_some, if_pos rfl]
        exact ite_self true
    | period hmem hne hall =>
        rw [supportsLowered]
        split
        · rfl
        · split
          · rfl
          · split
            · next suffix hfind =>
                rw [find_timeframeSuffix_digits hne hall] at hfind
                cases hfind
            · exact hasPeriod_iff.mpr ⟨_, hmem, _, hne, hall, rfl⟩
    | @timeframe stem suffix _ hmem ih =>
        rw [supportsLowered]
        split
        · rfl
        · split
          · rfl
          · split
            · next other hfind =>
                rw [find_timeframeSuffix hmem (endsWith_append stem suffix)] at hfind
                obtain rfl := Option.some.inj hfind
                rw [removeSuffix_append, ih]
            · next hfind =>
                rw [find_timeframeSuffix hmem (endsWith_append stem suffix)] at hfind
                cases hfind

/-! ## §3 What the runtime computes -/

/-- The runtime classifies the name, in place of raising that it is unknown. -/
def Computed (handlers : HandlerRegistry) (name : String) : Prop :=
  ∃ kind, classifyIndicator handlers name = .ok kind

variable {handlers : HandlerRegistry}

theorem computed_iff : Computed handlers name ↔ handStreaming.contains name = true ∨
    isDynamic name = true ∨ isRollingVp name = true ∨
      name ∈ handlers.requires.map Prod.fst := by
  have hlookup : (handlers.requires.lookup name).isSome = true ↔
      name ∈ handlers.requires.map Prod.fst := by
    rw [← not_iff_not, Bool.not_eq_true, Option.isSome_eq_false_iff, Option.isNone_iff_eq_none,
      List.lookup_eq_none_iff]
    simp only [bne_iff_ne, ne_eq, List.mem_map, Prod.exists, exists_and_right, exists_eq_right,
      not_exists, Prod.forall]
    exact ⟨fun h value hmem => h name value hmem rfl, fun h key value hmem heq =>
      h value (heq ▸ hmem)⟩
  unfold Computed classifyIndicator
  rw [← hlookup]
  constructor
  · rintro ⟨kind, hkind⟩
    split at hkind
    · next h => exact .inl h
    · split at hkind
      · next h => exact .inr (.inl h)
      · split at hkind
        · next h => exact .inr (.inr (.inl h))
        · split at hkind
          · next h => exact .inr (.inr (.inr h))
          · cases hkind
  · intro h
    split
    · exact ⟨_, rfl⟩
    · next hhand =>
        split
        · exact ⟨_, rfl⟩
        · next hdynamic =>
            split
            · exact ⟨_, rfl⟩
            · next hrolling =>
                rw [if_pos (((h.resolve_left hhand).resolve_left hdynamic).resolve_left hrolling)]
                exact ⟨_, rfl⟩

/-- A type with a number is dynamic from two on. -/
theorem isDynamic_append (hstart : start ∈ dynamicStarts) (hne : digits ≠ [])
    (hall : digits.all Char.isDigit = true) :
    isDynamic (start ++ String.ofList digits) = true ↔ 2 ≤ FloatText.natOf digits := by
  unfold isDynamic
  rw [find_dynamicStart hstart (startsWith_append _ _)]
  simp only [periodAfter, restAfter_append, digitsValue, if_pos (And.intro hne hall)]
  rw [Option.isSome_filter, Option.any_some, decide_eq_true_iff]

/-- No name is both a type with a number and a rolling profile. -/
theorem isRollingVp_append (hstart : start ∈ dynamicStarts) (rest : String) :
    isRollingVp (start ++ rest) = false := by
  have hfree : ∀ s ∈ dynamicStarts, ∀ t ∈ multiDayStarts ++ rvpStarts,
      startsWith t s = false ∧ startsWith s t = false := by
    simp [dynamicStarts, multiDayStarts, rvpStarts, startsWith, List.isPrefixOf]
  have hnone : ∀ t ∈ multiDayStarts ++ rvpStarts, startsWith (start ++ rest) t ≠ true := by
    intro t ht hname
    obtain ⟨h, h'⟩ := hfree start hstart t ht
    rcases startsWith_total (startsWith_append start rest) hname with hs | hs
    · rw [h] at hs
      cases hs
    · rw [h'] at hs
      cases hs
  rw [← Bool.not_eq_true, isRollingVp_iff]
  rintro (⟨t, ht, hname, -⟩ | ⟨t, ht, hname, -⟩)
  · exact hnone t (List.mem_append_left _ ht) hname
  · exact hnone t (List.mem_append_right _ ht) hname

/-- A type with a number below two, which no handler knows under that name. -/
def TooShort (handlers : HandlerRegistry) (name : String) : Prop :=
  ∃ start ∈ dynamicStarts, ∃ digits : List Char, digits ≠ [] ∧ digits.all Char.isDigit = true ∧
    name = start ++ String.ofList digits ∧ FloatText.natOf digits < 2 ∧
      name ∉ handlers.requires.map Prod.fst

/-- No hand-written state has a number below two. -/
theorem not_computed_of_tooShort (h : TooShort handlers name) : ¬Computed handlers name := by
  obtain ⟨start, hstart, digits, hne, hall, rfl, hsmall, hunknown⟩ := h
  have hdynamic : ¬isDynamic (start ++ String.ofList digits) = true := by
    rw [isDynamic_append hstart hne hall]
    omega
  -- each of them is dynamic, or has no dynamic start
  have hhands : ∀ hand ∈ handStreaming, isDynamic hand = true ∨
      ∀ s ∈ dynamicStarts, startsWith hand s = false := by
    decide
  rw [computed_iff]
  rintro (hhand | hyes | hrolling | hknown)
  · rcases hhands _ (List.contains_iff_mem.mp hhand) with hyes | hfree
    · exact hdynamic hyes
    · have hnot := hfree start hstart
      rw [startsWith_append] at hnot
      cases hnot
  · exact hdynamic hyes
  · rw [isRollingVp_append hstart] at hrolling
    cases hrolling
  · exact hunknown hknown

theorem computed_or_tooShort_of_period (hstart : start ∈ periodStarts) (hne : digits ≠ [])
    (hall : digits.all Char.isDigit = true) :
    Computed handlers (start ++ String.ofList digits) ∨
      TooShort handlers (start ++ String.ofList digits) := by
  rw [periodStarts_eq] at hstart
  by_cases hsmall : FloatText.natOf digits < 2
  · by_cases hknown : start ++ String.ofList digits ∈ handlers.requires.map Prod.fst
    · exact .inl (computed_iff.mpr (.inr (.inr (.inr hknown))))
    · exact .inr ⟨start, hstart, digits, hne, hall, rfl, hsmall, hknown⟩
  · exact .inl (computed_iff.mpr (.inr (.inl
      ((isDynamic_append hstart hne hall).mpr (not_lt.mp hsmall)))))

/-! ## §4 The columns that are resolved -/

variable {L : Lowering} (c : UnifiedMetricCatalog L) {period : Json} {column : String}

/-- The digits of a number. -/
theorem natOf_toDigits (n : ℕ) : FloatText.natOf (Nat.toDigits 10 n) = n :=
  Nat.ofDigitChars_toDigits (by decide) (by decide)

theorem all_isDigit_toDigits (n : ℕ) : (Nat.toDigits 10 n).all Char.isDigit = true := by
  rw [List.all_eq_true]
  exact fun c hc => Nat.isDigit_of_mem_toDigits (by decide) (by decide) hc

/-- A number in a range comes after a dynamic start. -/
theorem withPeriod_eq_some {range : ℤ × ℤ} (h : withPeriod name range period = some column) :
    ∃ n : ℤ, period = .int n ∧ range.1 ≤ n ∧
      column = name ++ "_" ++ String.ofList (Nat.toDigits 10 n.toNat) := by
  cases period with
  | int n =>
      obtain ⟨hrange, hcolumn⟩ := Option.ite_none_right_eq_some.mp h
      refine ⟨n, rfl, hrange.1, ?_⟩
      rw [← Option.some.inj hcolumn, Nat.toString_eq_ofList_toDigits]
  | _ => cases h

/-- How a column comes about: a type with a period, a fixed name or a rolling profile. The
last two do not need the period, and are resolved to themselves. -/
theorem resolveLowered_cases (h : resolveLowered name period = some column) :
    (∃ start ∈ dynamicStarts, ∃ n : ℤ, period = .int n ∧ 2 ≤ n ∧
      column = start ++ String.ofList (Nat.toDigits 10 n.toNat)) ∨
    (column = name ∧ resolveLowered name .null = some name ∧
      (name ∈ FIXED ∨ isRollingVp name = true)) := by
  have hranges : ∀ entry ∈ PERIOD_RANGES ++ OPTIONAL_PERIOD_RANGES,
      entry.1 ++ "_" ∈ dynamicStarts ∧ entry.2.1 = 2 := by
    simp [PERIOD_RANGES, OPTIONAL_PERIOD_RANGES, dynamicStarts]
  have hdynamic : ∀ {entry : String × ℤ × ℤ}, entry ∈ PERIOD_RANGES ++ OPTIONAL_PERIOD_RANGES →
      entry.1 = name → withPeriod name entry.2 period = some column →
      ∃ start ∈ dynamicStarts, ∃ n : ℤ, period = .int n ∧ 2 ≤ n ∧
        column = start ++ String.ofList (Nat.toDigits 10 n.toNat) := by
    rintro entry hentry rfl hcolumn
    obtain ⟨n, hn, hle, rfl⟩ := withPeriod_eq_some hcolumn
    obtain ⟨hstart, htwo⟩ := hranges entry hentry
    rw [htwo] at hle
    exact ⟨_, hstart, n, hn, hle, rfl⟩
  unfold resolveLowered at h ⊢
  cases hperiods : PERIOD_RANGES.lookup name with
  | some range =>
      rw [hperiods] at h
      exact .inl (hdynamic (List.mem_append_left _ (mem_of_lookup hperiods)) rfl h)
  | none =>
      rw [hperiods] at h
      cases hoptional : OPTIONAL_PERIOD_RANGES.lookup name with
      | some range =>
          simp only [hoptional] at h
          split at h
          · obtain ⟨hfixed, hcolumn⟩ := Option.ite_none_right_eq_some.mp h
            exact .inr ⟨(Option.some.inj hcolumn).symm, if_pos hfixed, .inl hfixed⟩
          · exact .inl
              (hdynamic (List.mem_append_right _ (mem_of_lookup hoptional)) rfl h)
      | none =>
          simp only [hoptional] at h
          rw [matchRollingVp_eq, fixed] at h ⊢
          by_cases hrolling : isRollingVp name = true
          · rw [if_pos hrolling] at h ⊢
            exact .inr ⟨(Option.some.inj h).symm, rfl, .inr hrolling⟩
          · rw [if_neg hrolling, Option.none_or] at h ⊢
            obtain ⟨hfixed, hcolumn⟩ := Option.ite_none_right_eq_some.mp h
            exact .inr ⟨(Option.some.inj hcolumn).symm, if_pos hfixed, .inl hfixed⟩

/-! ## §5 The unified catalog -/

/-- A type with a number is plain. -/
theorem lower_dynamic (L : Lowering) (hstart : start ∈ dynamicStarts)
    (hall : digits.all Char.isDigit = true) :
    L.lower (start ++ String.ofList digits) = start ++ String.ofList digits := by
  have hplain : (dynamicStarts.all fun start =>
      start.toList.all fun c => c.isLower || c.isDigit || c == '_') = true := by decide
  simp only [List.all_eq_true, Bool.or_eq_true, beq_iff_eq, or_assoc] at hplain
  refine L.lower_plain _ fun c hc => ?_
  rw [String.toList_append, String.toList_ofList, List.mem_append] at hc
  rcases hc with hc | hc
  · exact hplain start hstart c hc
  · exact .inr (.inl (List.all_eq_true.mp hall c hc))

namespace UnifiedMetricCatalog

theorem mem_usable (hlower : ∀ handled ∈ c.handledNames, L.lower handled = handled) :
    name ∈ c.usable L ↔ (∃ metric ∈ c.byName, L.lower metric = name) ∧ name ∈ c.handledNames := by
  have hhandled : c.handledNames.map L.lower = c.handledNames := by
    rw [List.map_congr_left hlower, List.map_id']
  rw [MetricRegistry.usable, hhandled, List.mem_filter, List.mem_map, decide_eq_true_iff]

/-- A metric of the registry is handled if its name is resolved, or if it is supported. -/
theorem consistent_of_mem (hlower : ∀ handled ∈ c.handledNames, L.lower handled = handled)
    {metric : String} (h : metric ∈ c.byName) :
    ((c.resolve L metric .null).isSome = true ↔ L.lower metric ∈ c.handledNames) ∧
      (c.supportsConcrete L metric = true ↔ L.lower metric ∈ c.handledNames) := by
  have hhandled : c.handledNames.map L.lower = c.handledNames := by
    rw [List.map_congr_left hlower, List.map_id']
  have hall := List.all_eq_true.mp c.consistent metric h
  rw [hhandled] at hall
  simp only [Bool.and_eq_true, beq_iff_eq] at hall
  rw [hall.1.2, hall.2, decide_eq_true_iff]
  exact ⟨Iff.rfl, Iff.rfl⟩

theorem supportsConcrete_of_not_mem (h : L.lower name ∉ c.byName) :
    c.supportsConcrete L name = true ↔ Supported (L.lower name) := by
  rw [MetricRegistry.supportsConcrete, if_neg h, L.lower_lower, supportsLowered_iff]

theorem supportsConcrete_of_mem (hlower : ∀ handled ∈ c.handledNames, L.lower handled = handled)
    (h : L.lower name ∈ c.byName) :
    c.supportsConcrete L name = true ↔ L.lower name ∈ c.handledNames := by
  have hsame : c.supportsConcrete L name = c.supportsConcrete L (L.lower name) := by
    simp only [MetricRegistry.supportsConcrete, L.lower_lower]
  rw [hsame, (c.consistent_of_mem hlower h).2, L.lower_lower]

/-- A column that is resolved is computed, and conditions may name it, but for a type with a
number that is registered as a metric and has no handler. -/
theorem computed_of_resolve (L : Lowering) (c : UnifiedMetricCatalog L)
    (hlower : ∀ handled ∈ c.handledNames, L.lower handled = handled)
    (hfixed : ∀ name ∈ FIXED, Computed c.handlers name)
    {indicatorType : String} {period : Json} {column : String}
    (h : c.resolve L indicatorType period = some column) :
    Computed c.handlers column ∧
      (c.supportsConcrete L column = true ↔
        ¬((∃ n, period = .int n) ∧ column ∈ c.byName ∧ column ∉ c.handledNames)) := by
  rcases Option.or_eq_some_iff.mp h with husable | ⟨-, hlegacy⟩
  · -- a registered metric with a handler
    obtain ⟨-, husable⟩ := Option.ite_none_right_eq_some.mp husable
    obtain ⟨hmem, hcolumn⟩ := Option.ite_none_right_eq_some.mp husable
    rw [Option.some.inj hcolumn, c.mem_usable hlower] at hmem
    obtain ⟨⟨metric, hmetric, hname⟩, hhandled⟩ := hmem
    refine ⟨computed_iff.mpr (.inr (.inr (.inr hhandled))), iff_of_true ?_ fun hnot =>
      hnot.2.2 hhandled⟩
    have hsame : c.supportsConcrete L column = c.supportsConcrete L metric := by
      simp only [MetricRegistry.supportsConcrete, ← hname, L.lower_lower]
    rw [hsame, (c.consistent_of_mem hlower hmetric).2, hname]
    exact hhandled
  · rcases resolveLowered_cases hlegacy with ⟨start, hstart, n, rfl, hn, rfl⟩ | ⟨rfl, hnull, hname⟩
    · -- a type with a period
      have hall := all_isDigit_toDigits n.toNat
      have hne : Nat.toDigits 10 n.toNat ≠ [] := Nat.toDigits_ne_nil
      have hlow := lower_dynamic L hstart hall
      refine ⟨computed_iff.mpr (.inr (.inl ((isDynamic_append hstart hne hall).mpr ?_))), ?_⟩
      · rw [natOf_toDigits]
        omega
      · by_cases hmem : start ++ String.ofList (Nat.toDigits 10 n.toNat) ∈ c.byName
        · rw [c.supportsConcrete_of_mem hlower (by rwa [hlow]), hlow]
          simp [hmem]
        · rw [c.supportsConcrete_of_not_mem (by rwa [hlow]), hlow]
          refine iff_of_true (.period ?_ hne hall) fun hnot => hmem hnot.2.1
          rwa [periodStarts_eq]
    · -- a fixed name or a rolling profile, which does not need a period
      have hlow := L.lower_lower indicatorType
      refine ⟨hname.elim (hfixed _) fun hrolling =>
        computed_iff.mpr (.inr (.inr (.inl hrolling))), ?_⟩
      by_cases hmem : L.lower indicatorType ∈ c.byName
      · have hhandled : L.lower indicatorType ∈ c.handledNames := by
          have hresolved := (c.consistent_of_mem hlower hmem).1
          rw [hlow] at hresolved
          rw [← hresolved, MetricRegistry.resolve, hlow, hnull, Option.isSome_or]
          exact Bool.or_true _
        rw [c.supportsConcrete_of_mem hlower (by rwa [hlow]), hlow]
        exact iff_of_true hhandled fun hnot => hnot.2.2 hhandled
      · rw [c.supportsConcrete_of_not_mem (by rwa [hlow]), hlow]
        exact iff_of_true (hname.elim .fixed .rolling) fun hnot => hmem hnot.2.1

/-- **What the catalog resolves, the runtime computes.** In a catalog that could be built, with
handlers for the fixed names: every column that a type and a period are resolved to is
classified by the runtime, and conditions may name it, but for a type with a number that is
registered as a metric and has no handler. So is the column of every indicator, the fallbacks
apart, of a document that a parser with this catalog accepts. -/
theorem resolve_computed (L : Lowering) (c : UnifiedMetricCatalog L)
    (hlower : ∀ handled ∈ c.handledNames, L.lower handled = handled)
    (hfixed : ∀ name ∈ FIXED, Computed c.handlers name) :
    (∀ indicatorType period column, c.resolve L indicatorType period = some column →
      Computed c.handlers column ∧
        (c.supportsConcrete L column = true ↔
          ¬((∃ n, period = .int n) ∧ column ∈ c.byName ∧ column ∉ c.handledNames))) ∧
    ∀ strOf data overrides accepted,
      parse { catalog := c.provider, strOf := strOf } data overrides = .ok (.valid accepted) →
      ∀ item ∈ accepted.definition.indicators, item.type ≠ "fallback" →
        Computed c.handlers item.concreteName := by
  refine ⟨fun _ _ _ => computed_of_resolve L c hlower hfixed, ?_⟩
  intro strOf data overrides accepted haccepted item hitem htype
  exact (computed_of_resolve L c hlower hfixed (accepted_indicator haccepted hitem htype)).1

/-- A supported name without its timeframe suffixes. -/
theorem exists_stem (handlers : HandlerRegistry)
    (hfixed : ∀ name ∈ FIXED, Computed handlers name) (h : Supported name) :
    ∃ stem suffixes, name = stem ++ String.join suffixes ∧
      (∀ suffix ∈ suffixes, suffix ∈ timeframeSuffixes) ∧
        (Computed handlers stem ∨ TooShort handlers stem) := by
  induction h with
  | @fixed name hmem => exact ⟨name, [], by simp, by simp, .inl (hfixed name hmem)⟩
  | @rolling name hpattern =>
      exact ⟨name, [], by simp, by simp, .inl (computed_iff.mpr (.inr (.inr (.inl hpattern))))⟩
  | period hmem hne hall =>
      exact ⟨_, [], by simp, by simp, computed_or_tooShort_of_period hmem hne hall⟩
  | @timeframe stem suffix _ hmem ih =>
      obtain ⟨stem, suffixes, rfl, hsuffixes, hstem⟩ := ih
      refine ⟨stem, suffixes ++ [suffix], ?_, ?_, hstem⟩
      · simp [String.join_append, String.append_assoc]
      intro other hother
      rcases List.mem_append.mp hother with hother | hother
      · exact hsuffixes other hother
      · rwa [List.mem_singleton.mp hother]

/-- **What conditions may name**, lowered. A registered metric with a handler, or a name of the
strategy catalog's language. Without its timeframe suffixes it is a name that the runtime
computes, or a type with a number below two that no handler knows: those pass the parser, and
no runtime computes them. -/
theorem supported_computed (L : Lowering) (c : UnifiedMetricCatalog L)
    (hlower : ∀ handled ∈ c.handledNames, L.lower handled = handled)
    (hfixed : ∀ name ∈ FIXED, Computed c.handlers name) (name : String) :
    (c.supportsConcrete L name = true ↔
      if L.lower name ∈ c.byName then L.lower name ∈ c.handledNames
      else Supported (L.lower name)) ∧
    (c.supportsConcrete L name = true →
      ∃ stem suffixes, L.lower name = stem ++ String.join suffixes ∧
        (∀ suffix ∈ suffixes, suffix ∈ timeframeSuffixes) ∧
          (Computed c.handlers stem ↔ ¬TooShort c.handlers stem)) := by
  have hdecided : ∀ stem, Computed c.handlers stem ∨ TooShort c.handlers stem →
      (Computed c.handlers stem ↔ ¬TooShort c.handlers stem) := fun stem hstem =>
    ⟨fun hcomputed hshort => not_computed_of_tooShort hshort hcomputed, hstem.resolve_right⟩
  by_cases hmem : L.lower name ∈ c.byName
  · rw [if_pos hmem]
    refine ⟨c.supportsConcrete_of_mem hlower hmem, fun h => ?_⟩
    rw [c.supportsConcrete_of_mem hlower hmem] at h
    exact ⟨L.lower name, [], by simp, by simp,
      hdecided _ (.inl (computed_iff.mpr (.inr (.inr (.inr h)))))⟩
  · rw [if_neg hmem]
    refine ⟨c.supportsConcrete_of_not_mem hmem, fun h => ?_⟩
    rw [c.supportsConcrete_of_not_mem hmem] at h
    obtain ⟨stem, suffixes, hname, hsuffixes, hstem⟩ := exists_stem c.handlers hfixed h
    exact ⟨stem, suffixes, hname, hsuffixes, hdecided stem hstem⟩

end UnifiedMetricCatalog

/-! ## §6 A small catalog -/

/-- `str.lower` on names without capital letters. -/
def plainLowering : Lowering where
  lower := id
  lower_lower := fun _ => rfl
  lower_plain := fun _ _ => rfl

/-- A metric without a handler, and handlers for the fixed names only. -/
def fixedRegistry : MetricRegistry where
  byName := ["volatility"]
  handlers :=
    { requires := FIXED.map fun name => (name, [])
      bb_free := by decide }

theorem handledNames_fixedRegistry : fixedRegistry.handledNames = FIXED := by
  simp [MetricRegistry.handledNames, fixedRegistry, List.map_map, Function.comp_def]

theorem computed_fixedRegistry : ∀ name ∈ FIXED, Computed fixedRegistry.handlers name := by
  intro name h
  refine computed_iff.mpr (.inr (.inr (.inr ?_)))
  show name ∈ fixedRegistry.handledNames
  rwa [handledNames_fixedRegistry]

def fixedCatalog : UnifiedMetricCatalog plainLowering :=
  { fixedRegistry with consistent := by decide }

namespace UnifiedMetricCatalog

/-- `sma` with the period 20. -/
theorem resolve_computed_sma : Computed fixedCatalog.handlers "sma_20" ∧
    fixedCatalog.supportsConcrete plainLowering "sma_20" = true := by
  obtain ⟨hcomputed, hsupported⟩ := (resolve_computed plainLowering fixedCatalog
    (fun _ _ => rfl) computed_fixedRegistry).1 "sma" (.int 20) "sma_20" (by decide)
  refine ⟨hcomputed, hsupported.mpr ?_⟩
  rintro ⟨-, hmem, -⟩
  exact absurd hmem (by decide)

/-- `sma_1` is supported. -/
theorem supported_computed_short :
    fixedCatalog.supportsConcrete plainLowering "sma_1" = true := by
  rw [(supported_computed plainLowering fixedCatalog (fun _ _ => rfl) computed_fixedRegistry
    "sma_1").1]
  have hname : plainLowering.lower "sma_1" = "sma_" ++ String.ofList ['1'] := by decide
  have hfree : "sma_" ++ String.ofList ['1'] ∉ fixedCatalog.byName := by decide
  rw [hname, if_neg hfree]
  exact .period (by decide) (by decide) (by decide)

end UnifiedMetricCatalog

end Finbar.Parser
