/-
Finbar.Enrichment.CursorTheorems — the incremental cursor answers as the
stateless as-of lookup does.

`Behind t cursor` is the invariant: everything the pointer has passed was
visible at `t`. An append keeps it, since it adds rows at the end only; a
query at `t` or later establishes it for its own time. A row that arrives
after the pointer has passed its time is appended beyond the pointer, so the
next query still finds it.

No `sorry`, no `axiom`.
-/
import Finbar.Enrichment.Cursor
import Finbar.Lib.Run

namespace Finbar.Enrichment

open Lib.Python Lib.AsOf Lib.Run

variable {Row : Type}

namespace AsOfInformativeCursor

/-! ## §1 One call -/

/-- Every row before the pointer is visible at `t`. -/
def Behind (t : Timestamp) (cursor : AsOfInformativeCursor Row) : Prop :=
  ∀ e ∈ cursor.entries.take cursor.visible, e.1 ≤ t

theorem Behind.mono {t t' : Timestamp} {cursor : AsOfInformativeCursor Row}
    (h : cursor.Behind t) (ht : t ≤ t') : cursor.Behind t' :=
  fun e he => (h e he).trans ht

/-- A query finds what the stateless lookup finds, and leaves the rows as
they are. -/
theorem latestVisibleAt_spec {t : Timestamp} {cursor : AsOfInformativeCursor Row}
    (h : cursor.Behind t) :
    (cursor.latestVisibleAt t).2 = (asOf cursor.entries t).map Prod.snd ∧
      (cursor.latestVisibleAt t).1.Behind t ∧
      (cursor.latestVisibleAt t).1.entries = cursor.entries ∧
      (cursor.latestVisibleAt t).1.offset = cursor.offset := by
  have hseen : cursor.advanced t = seen cursor.entries t :=
    seen_of_pointer h cursor.visible_le
  refine ⟨?_, ?_, rfl, rfl⟩
  · have hfound : (cursor.latestVisibleAt t).2 = if cursor.advanced t = 0 then none
        else (cursor.entries[cursor.advanced t - 1]?).map Prod.snd := rfl
    rw [hfound, asOf_eq_getElem cursor.sorted, hseen]
    split
    · rfl
    · rfl
  · intro e he
    have he' : e ∈ cursor.entries.take (cursor.advanced t) := he
    rw [hseen] at he'
    exact le_of_mem_take_seen he'

/-- An append that is not too early returns, and adds its row at the end. -/
theorem append_spec {cursor : AsOfInformativeCursor Row} {openTs : Timestamp}
    (h : cursor.Accepts (openTs + cursor.offset)) (row : Row) :
    ∃ cursor', cursor.append openTs row = .ok cursor' ∧
      cursor'.entries = cursor.entries ++ [(openTs + cursor.offset, row)] ∧
      cursor'.offset = cursor.offset ∧ cursor'.visible = cursor.visible ∧
      ∀ t, cursor.Behind t → cursor'.Behind t := by
  unfold append
  rw [dif_pos h]
  refine ⟨_, rfl, rfl, rfl, rfl, fun t hbehind e he => ?_⟩
  simp only at he
  rw [List.take_append_of_le_length cursor.visible_le] at he
  exact hbehind e he

end AsOfInformativeCursor

/-! ## §2 Interleaved calls -/

/-- A call of the cursor. -/
inductive CursorCall (Row : Type) where
  | append (openTs : Timestamp) (row : Row)
  | latestVisibleAt (primaryOpen : Timestamp)
  deriving Repr

/-- Make one call; the answers given so far are collected. -/
def makeCall (state : AsOfInformativeCursor Row × List (Option Row)) :
    CursorCall Row → Except PyError (AsOfInformativeCursor Row × List (Option Row))
  | .append openTs row => do
      let cursor ← state.1.append openTs row
      return (cursor, state.2)
  | .latestVisibleAt primaryOpen =>
      let (cursor, row) := state.1.latestVisibleAt primaryOpen
      .ok (cursor, state.2 ++ [row])

/-- The calls, in order, on a new cursor. -/
def runCalls (offset : ℤ) (calls : List (CursorCall Row)) :
    Except PyError (AsOfInformativeCursor Row × List (Option Row)) :=
  calls.foldlM makeCall ({ offset := offset }, [])

/-- The rows that the calls append, with their availability. -/
def appended (offset : ℤ) (calls : List (CursorCall Row)) : List (Timestamp × Row) :=
  calls.filterMap fun
    | .append openTs row => some (openTs + offset, row)
    | .latestVisibleAt _ => none

/-- The timestamps that the calls query. -/
def queried (calls : List (CursorCall Row)) : List Timestamp :=
  calls.filterMap fun
    | .append _ _ => none
    | .latestVisibleAt primaryOpen => some primaryOpen

/-- The answers of the stateless lookup: each query sees the rows appended
before it, `history` being those of earlier calls. -/
def asOfAnswers (offset : ℤ) : List (Timestamp × Row) → List (CursorCall Row) →
    List (Option Row)
  | _, [] => []
  | history, .append openTs row :: calls =>
      asOfAnswers offset (history ++ [(openTs + offset, row)]) calls
  | history, .latestVisibleAt primaryOpen :: calls =>
      (asOf history primaryOpen).map Prod.snd :: asOfAnswers offset history calls

/-- The cursor in the middle of the calls: it holds the rows appended so
far, and its pointer is behind every query to come. -/
structure Reached (offset : ℤ) (history : List (Timestamp × Row)) (queries : List Timestamp)
    (cursor : AsOfInformativeCursor Row) : Prop where
  offset_eq : cursor.offset = offset
  entries_eq : cursor.entries = history
  behind : ∀ t ∈ queries, cursor.Behind t

/-- The rest of the calls, from the middle. -/
theorem foldlM_makeCall {offset : ℤ} (calls : List (CursorCall Row))
    (history : List (Timestamp × Row)) (cursor : AsOfInformativeCursor Row)
    (answers : List (Option Row))
    (happended : Sorted (history ++ appended offset calls))
    (hqueried : (queried calls).Pairwise (· ≤ ·))
    (h : Reached offset history (queried calls) cursor) :
    Ensures (calls.foldlM makeCall (cursor, answers))
      (fun result => result.2 = answers ++ asOfAnswers offset history calls) := by
  induction calls generalizing history cursor answers with
  | nil => exact Ensures.pure (List.append_nil answers).symm
  | cons call calls ih =>
      rw [List.foldlM_cons]
      cases call with
      | append openTs row =>
          have hsplit : history ++ appended offset (.append openTs row :: calls)
              = history ++ [(openTs + offset, row)] ++ appended offset calls := by
            rw [List.append_assoc]
            rfl
          rw [hsplit] at happended
          have haccepts : cursor.Accepts (openTs + cursor.offset) := by
            intro last hlast
            have hmem : last ∈ history := by
              rw [h.entries_eq] at hlast
              exact List.mem_of_getLast? hlast
            rw [h.offset_eq]
            exact (List.pairwise_append.mp (List.pairwise_append.mp happended).1).2.2 last hmem
              _ (List.mem_singleton.mpr rfl)
          obtain ⟨cursor', hcursor', hentries, hoffset, -, hbehind⟩ :=
            AsOfInformativeCursor.append_spec haccepts row
          refine Ensures.bind (P := fun state => state = (cursor', answers)) ?_ ?_
          · refine ⟨(cursor', answers), ?_, rfl⟩
            simp only [makeCall, hcursor']
            rfl
          · rintro state rfl
            refine ih _ cursor' answers happended hqueried ⟨?_, ?_, fun t ht => ?_⟩
            · exact hoffset.trans h.offset_eq
            · rw [hentries, h.entries_eq, h.offset_eq]
            · exact hbehind t (h.behind t ht)
      | latestVisibleAt primaryOpen =>
          obtain ⟨hlater, hrest⟩ := List.pairwise_cons.mp hqueried
          obtain ⟨hanswer, hbehind, hentries, hoffset⟩ :=
            AsOfInformativeCursor.latestVisibleAt_spec
              (h.behind primaryOpen List.mem_cons_self)
          have hstep : makeCall (cursor, answers) (.latestVisibleAt primaryOpen)
              = .ok ((cursor.latestVisibleAt primaryOpen).1,
                  answers ++ [(cursor.latestVisibleAt primaryOpen).2]) := rfl
          refine Ensures.bind ⟨_, hstep, rfl⟩ ?_
          rintro state rfl
          have hreached : Reached offset history (queried calls)
              (cursor.latestVisibleAt primaryOpen).1 :=
            ⟨hoffset.trans h.offset_eq, hentries.trans h.entries_eq,
              fun t ht => hbehind.mono (hlater t ht)⟩
          refine (ih history _ _ happended hrest hreached).mono ?_
          intro result hresult
          rw [hresult, hanswer, h.entries_eq, List.append_assoc]
          rfl

/-- The last answer is the lookup among the rows appended before it. -/
theorem asOfAnswers_getLast (offset : ℤ) (before : List (CursorCall Row))
    (history : List (Timestamp × Row)) (t : Timestamp) :
    (asOfAnswers offset history (before ++ [.latestVisibleAt t])).getLast?
      = some ((asOf (history ++ appended offset before) t).map Prod.snd) := by
  induction before generalizing history with
  | nil =>
      have hnil : appended offset ([] : List (CursorCall Row)) = [] := rfl
      rw [hnil, List.append_nil]
      rfl
  | cons call before ih =>
      cases call with
      | append openTs row =>
          have happend : history ++ appended offset (.append openTs row :: before)
              = history ++ [(openTs + offset, row)] ++ appended offset before := by
            rw [List.append_assoc]
            rfl
          rw [happend]
          exact ih (history ++ [(openTs + offset, row)])
      | latestVisibleAt primaryOpen =>
          have hcons : asOfAnswers offset history
              (.latestVisibleAt primaryOpen :: before ++ [.latestVisibleAt t])
              = (asOf history primaryOpen).map Prod.snd
                :: asOfAnswers offset history (before ++ [.latestVisibleAt t]) := rfl
          have hsame : appended offset (.latestVisibleAt primaryOpen :: before)
              = appended offset before := rfl
          rw [hcons, hsame, List.getLast?_cons, ih history]
          rfl

/-- **The cursor refines the as-of lookup.** For every interleaving of
appends whose availability does not decrease with queries whose timestamps
do not decrease: no call raises; each query answers with the last row
appended so far whose availability is at most its timestamp, `none` when
there is none; so no row is returned before it is available, and no later
row that is available is skipped. -/
theorem cursor_refines_asOf (offset : ℤ) (calls : List (CursorCall Row))
    (happended : Sorted (appended offset calls))
    (hqueried : (queried calls).Pairwise (· ≤ ·)) :
    Ensures (runCalls offset calls)
        (fun result => result.2 = asOfAnswers offset [] calls) ∧
      ∀ before t, before ++ [.latestVisibleAt t] <+: calls →
        Ensures (runCalls offset (before ++ [.latestVisibleAt t])) fun result =>
          (result.2.getLast? = some none ∧ ∀ e ∈ appended offset before, t < e.1) ∨
            ∃ earlier e later, appended offset before = earlier ++ e :: later ∧
              result.2.getLast? = some (some e.2) ∧ e.1 ≤ t ∧ ∀ f ∈ later, t < f.1 := by
  have hrun : ∀ calls : List (CursorCall Row), Sorted (appended offset calls) →
      (queried calls).Pairwise (· ≤ ·) →
      Ensures (runCalls offset calls)
        (fun result => result.2 = asOfAnswers offset [] calls) := by
    intro calls happended hqueried
    refine foldlM_makeCall calls [] { offset := offset } [] happended hqueried ?_
    exact ⟨rfl, rfl, fun t _ e he => nomatch he⟩
  refine ⟨hrun calls happended hqueried, ?_⟩
  rintro before t ⟨after, rfl⟩
  have happendedSplit : appended offset (before ++ [.latestVisibleAt t] ++ after)
      = appended offset (before ++ [.latestVisibleAt t]) ++ appended offset after :=
    List.filterMap_append
  have hqueriedSplit : queried (before ++ [.latestVisibleAt t] ++ after)
      = queried (before ++ [.latestVisibleAt t]) ++ queried after :=
    List.filterMap_append
  rw [happendedSplit] at happended
  rw [hqueriedSplit] at hqueried
  refine (hrun _ (List.pairwise_append.mp happended).1
    (List.pairwise_append.mp hqueried).1).mono ?_
  intro result hresult
  have hlast := asOfAnswers_getLast offset before [] t
  rw [List.nil_append] at hlast
  rw [hresult, hlast]
  rcases asOf_cases (appended offset before) t with
    ⟨hnone, hall⟩ | ⟨earlier, e, later, hsplit, hsome, hle, hlater⟩
  · rw [hnone]
    exact .inl ⟨rfl, hall⟩
  · rw [hsome]
    exact .inr ⟨earlier, e, later, hsplit, rfl, hle, hlater⟩

/-- A row that arrives after a query has passed its time, and a tie on
availability. -/
def lateRow : List (CursorCall String) :=
  [.append 10 "a", .latestVisibleAt 30, .append 20 "b", .append 20 "c", .latestVisibleAt 30]

/-- The cursor on these calls. -/
theorem cursor_refines_asOf_lateRow :
    Ensures (runCalls 5 lateRow) (fun result => result.2 = [some "a", some "c"]) :=
  (cursor_refines_asOf 5 lateRow (by unfold Sorted; decide) (by decide)).1.mono
    (fun _ hresult => hresult.trans (by decide +kernel))

end Finbar.Enrichment
