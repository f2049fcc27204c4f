/-
Finbar.Enrichment.DueTheorems — what the sequential mode raises.

Between two primary bars the sequential mode has fed every alias the bars
that opened by then, so what an alias raises is decided by its own bars: its
due bars, fed to its engine and cursor as they were created, and the
timestamp of the bar after them (`dueOutcome`). `sequentialRows_alike` says
that the mode raises what the first primary bar raises whose timestamp, due
bars or own row fail, in this order.

No `sorry`, no `axiom`.
-/
import Finbar.Enrichment.MergeTheorems

namespace Finbar.Enrichment

open Lib Lib.Python Lib.AsOf Lib.Run Finbar.Streaming

variable {env : Environment} {settings : EnricherSettings}

/-! ## §1 The bars that are due -/

/-- The bar opens at `t` or before. -/
def opensBy (env : Environment) (t : Timestamp) (bar : StreamBar) : Bool :=
  match barOpenTs env bar with
  | .ok openTs => decide (openTs ≤ t)
  | .error _ => false

/-- The bars that are due at `t`. -/
def dueAt (env : Environment) (t : Timestamp) (bars : List StreamBar) : List StreamBar :=
  bars.takeWhile (opensBy env t)

/-- The bars that are left when those due at `t` have been fed. -/
def leftAt (env : Environment) (t : Timestamp) (bars : List StreamBar) : List StreamBar :=
  bars.dropWhile (opensBy env t)

theorem opensBy_of_open {bar : StreamBar} {openTs : Timestamp}
    (h : barOpenTs env bar = .ok openTs) (t : Timestamp) :
    opensBy env t bar = decide (openTs ≤ t) := by
  unfold opensBy
  rw [h]

theorem opensBy_mono {t t' : Timestamp} (h : t ≤ t') {bar : StreamBar}
    (hbar : opensBy env t bar = true) : opensBy env t' bar = true := by
  unfold opensBy at hbar ⊢
  split at hbar
  · exact decide_eq_true ((of_decide_eq_true hbar).trans h)
  · cases hbar

/-- What is due at `t` is due later too, with what has become due since. -/
theorem dueAt_of_le {t t' : Timestamp} (h : t ≤ t') (bars : List StreamBar) :
    dueAt env t' bars = dueAt env t bars ++ dueAt env t' (leftAt env t bars) ∧
      leftAt env t' bars = leftAt env t' (leftAt env t bars) := by
  unfold dueAt leftAt
  induction bars with
  | nil => exact ⟨rfl, rfl⟩
  | cons bar bars ih =>
      by_cases hdue : opensBy env t bar = true
      · have hdue' := opensBy_mono h hdue
        rw [List.takeWhile_cons_of_pos hdue, List.takeWhile_cons_of_pos hdue',
          List.dropWhile_cons_of_pos hdue, List.dropWhile_cons_of_pos hdue', List.cons_append]
        exact ⟨congrArg _ ih.1, ih.2⟩
      · rw [List.takeWhile_cons_of_neg hdue, List.dropWhile_cons_of_neg hdue]
        exact ⟨rfl, rfl⟩

/-- Nothing that was left is due at an earlier time. -/
theorem leftAt_of_ge {t t' : Timestamp} (h : t ≤ t') (bars : List StreamBar) :
    dueAt env t (leftAt env t' bars) = [] ∧
      leftAt env t (leftAt env t' bars) = leftAt env t' bars := by
  unfold dueAt leftAt
  induction bars with
  | nil => exact ⟨rfl, rfl⟩
  | cons bar bars ih =>
      by_cases hdue : opensBy env t' bar = true
      · rw [List.dropWhile_cons_of_pos hdue]
        exact ih
      · have hdue' := fun hearlier => hdue (opensBy_mono h hearlier)
        rw [List.dropWhile_cons_of_neg hdue, List.takeWhile_cons_of_neg hdue',
          List.dropWhile_cons_of_neg hdue']
        exact ⟨rfl, rfl⟩

theorem leftAt_idem (t : Timestamp) (bars : List StreamBar) :
    leftAt env t (leftAt env t bars) = leftAt env t bars :=
  (leftAt_of_ge le_rfl bars).2

/-- The timestamp of the next bar, which the loop looks at. -/
def nextOpens (env : Environment) : List StreamBar → Except PyError Unit
  | [] => .ok ()
  | bar :: _ => (barOpenTs env bar).map fun _ => ()

/-! ## §2 One alias -/

/-- Feed bars to an alias: to its state, or to none. -/
def feedAlias (env : Environment) (settings : EnricherSettings) (aliasName : String)
    (state : Option InfoState) (bars : List StreamBar) : Except PyError (Option InfoState) :=
  match state with
  | none => if bars = [] then .ok none else .error (.keyError aliasName)
  | some state =>
      (bars.foldlM (fun state bar =>
        InfoState.ingest env state (settings.indicatorsOf aliasName) bar) state).map some

theorem feedAlias_nil (aliasName : String) (state : Option InfoState) :
    feedAlias env settings aliasName state [] = .ok state := by
  cases state with
  | none => rfl
  | some state => rfl

theorem feedAlias_append (aliasName : String) (state : Option InfoState)
    (front back : List StreamBar) :
    feedAlias env settings aliasName state (front ++ back)
      = feedAlias env settings aliasName state front >>= fun state =>
          feedAlias env settings aliasName state back := by
  cases state with
  | none =>
      cases front with
      | nil => rfl
      | cons bar front => rfl
  | some state =>
      unfold feedAlias
      simp only
      rw [List.foldlM_append]
      cases front.foldlM (fun state bar =>
        InfoState.ingest env state (settings.indicatorsOf aliasName) bar) state with
      | error e => rfl
      | ok next => rfl

/-- What the bars of an alias that are due at `t` raise, the states being as they were
created, and what looking at the bar after them raises. -/
def dueOutcome (env : Environment) (settings : EnricherSettings)
    (info : OrderedDict String InfoState) (t : Timestamp) (entry : String × List StreamBar) :
    Except PyError Unit := do
  let _ ← feedAlias env settings entry.1 (info.get entry.1) (dueAt env t entry.2)
  nextOpens env (leftAt env t entry.2)

/-- The states take in bars alike: they differ in the rows that lookups have passed. -/
def FeedsAlike : Option InfoState → Option InfoState → Prop
  | none, none => True
  | some s, some s' => s.engine = s'.engine ∧ s.cursor.entries = s'.cursor.entries ∧
      s.cursor.offset = s'.cursor.offset
  | _, _ => False

theorem FeedsAlike.refl (s : Option InfoState) : FeedsAlike s s := by
  cases s with
  | none => trivial
  | some s => exact ⟨rfl, rfl, rfl⟩

theorem FeedsAlike.trans {s s' s'' : Option InfoState} (h : FeedsAlike s s')
    (h' : FeedsAlike s' s'') : FeedsAlike s s'' := by
  cases s <;> cases s' <;> cases s'' <;> simp_all [FeedsAlike]

theorem append_alike {c c' : AsOfInformativeCursor Row} (hentries : c.entries = c'.entries)
    (hoffset : c.offset = c'.offset) (openTs : Timestamp) (row : Row) :
    Alike (c.append openTs row) (c'.append openTs row) fun d d' =>
      d.entries = d'.entries ∧ d.offset = d'.offset := by
  have haccepts : c.Accepts (openTs + c.offset) ↔ c'.Accepts (openTs + c'.offset) := by
    unfold AsOfInformativeCursor.Accepts
    rw [hentries, hoffset]
  unfold AsOfInformativeCursor.append
  by_cases h : c.Accepts (openTs + c.offset)
  · rw [dif_pos h, dif_pos (haccepts.mp h)]
    refine .returns rfl rfl ⟨?_, hoffset⟩
    show c.entries ++ _ = c'.entries ++ _
    rw [hentries, hoffset]
  · rw [dif_neg h, dif_neg (haccepts.not.mp h)]
    exact .raises rfl rfl

theorem ingest_alike {s s' : InfoState} (h : FeedsAlike (some s) (some s'))
    (indicators : List String) (bar : StreamBar) :
    Alike (s.ingest env indicators bar) (s'.ingest env indicators bar) fun r r' =>
      FeedsAlike (some r) (some r') := by
  obtain ⟨hengine, hentries, hoffset⟩ := h
  unfold InfoState.ingest
  rw [hengine]
  refine (Alike.refl (enrichBar env s'.engine indicators bar)).bind ?_
  rintro ⟨engine, row, isReady⟩ _ rfl
  refine (Alike.refl (barOpenTs env bar)).bind ?_
  rintro openTs _ rfl
  refine (append_alike hentries hoffset openTs row).bind ?_
  rintro d d' ⟨hentries', hoffset'⟩
  exact .pure ⟨rfl, hentries', hoffset'⟩

theorem feedAlias_alike {s s' : Option InfoState} (h : FeedsAlike s s') (aliasName : String)
    (bars : List StreamBar) :
    Alike (feedAlias env settings aliasName s bars) (feedAlias env settings aliasName s' bars)
      FeedsAlike := by
  cases s with
  | none =>
      cases s' with
      | none =>
          refine (Alike.refl _).mono ?_
          rintro r _ rfl
          exact FeedsAlike.refl r
      | some s' => cases h
  | some s =>
      cases s' with
      | none => cases h
      | some s' =>
          have hrun : Alike
              (bars.foldlM (fun s => InfoState.ingest env s (settings.indicatorsOf aliasName)) s)
              (bars.foldlM (fun s => InfoState.ingest env s (settings.indicatorsOf aliasName)) s')
              fun s s' => FeedsAlike (some s) (some s') :=
            Alike.foldlM (fun _ _ bar _ hst =>
              @ingest_alike env _ _ hst (settings.indicatorsOf aliasName) bar) h
          unfold feedAlias
          cases hrun with
          | raises hs hs' =>
              simp only [hs, hs']
              exact .raises rfl rfl
          | returns hs hs' halike =>
              simp only [hs, hs']
              exact .returns rfl rfl halike

/-- **The loop over one alias** raises what feeding the due bars raises, or looking at the
next one. -/
theorem feedDue_alike (t : Timestamp) (aliasName : String) (bars : List StreamBar)
    (enricher : Enricher) :
    Alike (feedDue env settings t aliasName enricher bars)
      (do
        let state ← feedAlias env settings aliasName (enricher.info.get aliasName)
          (dueAt env t bars)
        nextOpens env (leftAt env t bars)
        return state)
      fun r state => r.2 = leftAt env t bars ∧ r.1.primaryEngine = enricher.primaryEngine ∧
        r.1.info.get aliasName = state ∧
        ∀ other, aliasName ≠ other → r.1.info.get other = enricher.info.get other := by
  induction bars generalizing enricher with
  | nil =>
      rw [dueAt, List.takeWhile_nil, feedAlias_nil]
      exact .returns rfl rfl ⟨rfl, rfl, rfl, fun _ _ => rfl⟩
  | cons bar bars ih =>
      unfold feedDue
      cases hopen : barOpenTs env bar with
      | error e =>
          have hnot : ¬ opensBy env t bar = true := by
            unfold opensBy
            rw [hopen]
            exact Bool.false_ne_true
          rw [dueAt, leftAt, List.takeWhile_cons_of_neg hnot, List.dropWhile_cons_of_neg hnot,
            feedAlias_nil]
          refine .raises rfl ?_
          simp only [bind, Except.bind, nextOpens, hopen, Except.map]
      | ok openTs =>
          have hdue := opensBy_of_open hopen t
          by_cases hle : openTs ≤ t
          · rw [decide_eq_true hle] at hdue
            rw [dueAt, leftAt, List.takeWhile_cons_of_pos hdue, List.dropWhile_cons_of_pos hdue]
            show Alike (if openTs ≤ t then _ else _) _ _
            rw [if_pos hle]
            cases hget : enricher.info.get aliasName with
            | none =>
                refine .raises (e := .keyError aliasName) ?_ rfl
                unfold Enricher.updateInformative
                rw [hget]
                rfl
            | some state =>
                unfold Enricher.updateInformative feedAlias
                rw [hget]
                simp only [List.foldlM_cons]
                cases hingest : state.ingest env (settings.indicatorsOf aliasName) bar with
                | error e => exact .raises rfl rfl
                | ok next =>
                    have hself : (enricher.info.assign aliasName next).get aliasName = some next :=
                      OrderedDict.get_assign_self _ _ _
                    have hrest := ih { enricher with info := enricher.info.assign aliasName next }
                    rw [hself] at hrest
                    refine hrest.mono ?_
                    rintro r after ⟨hleft, hprimary, hstate, hothers⟩
                    refine ⟨hleft, hprimary, hstate, fun other hother => ?_⟩
                    rw [hothers other hother]
                    exact OrderedDict.get_assign_of_ne _ hother next
          · have hnot : ¬ opensBy env t bar = true := by
              rw [hdue]
              simpa using hle
            rw [dueAt, leftAt, List.takeWhile_cons_of_neg hnot, List.dropWhile_cons_of_neg hnot,
              feedAlias_nil]
            refine .returns (s := (enricher, bar :: bars)) (if_neg hle) ?_
              ⟨rfl, rfl, rfl, fun _ _ => rfl⟩
            simp only [bind, Except.bind, nextOpens, hopen, Except.map]
            rfl

/-- What an alias has been fed, and what is left of it, when the latest primary bar so far
opened at `latest`. -/
inductive FedBy (env : Environment) (bars : List StreamBar) :
    Option Timestamp → List StreamBar → List StreamBar → Prop
  | start : FedBy env bars none [] bars
  | upTo (t : Timestamp) (hnext : nextOpens env (leftAt env t bars) = .ok ()) :
      FedBy env bars (some t) (dueAt env t bars) (leftAt env t bars)

/-- The later of the two; there may be no first one. -/
def later : Option Timestamp → Timestamp → Timestamp
  | none, t => t
  | some latest, t => max latest t

/-- An alias between two primary bars has been fed what was due, from the state that it was
created with. -/
def Fed (env : Environment) (settings : EnricherSettings) (info : OrderedDict String InfoState)
    (latest : Option Timestamp) (entry : String × List StreamBar) (enricher : Enricher)
    (left : List StreamBar) : Prop :=
  ∃ fed state, FedBy env entry.2 latest fed left ∧
    feedAlias env settings entry.1 (info.get entry.1) fed = .ok state ∧
      FeedsAlike state (enricher.info.get entry.1)

theorem nextOpens_of_le {t t' : Timestamp} (h : t ≤ t') {bars : List StreamBar}
    (hnext : nextOpens env (leftAt env t' bars) = .ok ()) :
    nextOpens env (leftAt env t bars) = .ok () := by
  rw [(dueAt_of_le h bars).2] at hnext
  cases hleft : leftAt env t bars with
  | nil => rfl
  | cons bar rest =>
      rw [hleft] at hnext
      by_cases hdue : opensBy env t' bar = true
      · unfold opensBy at hdue
        cases hopen : barOpenTs env bar with
        | error e => rw [hopen] at hdue; cases hdue
        | ok openTs => simp only [nextOpens, hopen, Except.map]
      · rw [leftAt, List.dropWhile_cons_of_neg hdue] at hnext
        exact hnext

variable {info : OrderedDict String InfoState} {latest : Option Timestamp}
  {entry : String × List StreamBar} {enricher : Enricher} {left : List StreamBar}

/-- What is due at `t`, from what has been fed so far: all of it at a time that is not behind,
and otherwise none. -/
theorem FedBy.advance {bars fed : List StreamBar} (h : FedBy env bars latest fed left)
    (t : Timestamp) :
    (later latest t = t ∧ dueAt env t bars = fed ++ dueAt env t left ∧
        leftAt env t bars = leftAt env t left) ∨
      ∃ m, t ≤ m ∧ latest = some m ∧ later latest t = m ∧ fed = dueAt env m bars ∧
        left = leftAt env m bars ∧ nextOpens env left = .ok () := by
  cases h with
  | start => exact .inl ⟨rfl, rfl, rfl⟩
  | upTo m hnext =>
      rcases le_total t m with hle | hle
      · exact .inr ⟨m, hle, rfl, max_eq_left hle, rfl, rfl, hnext⟩
      · exact .inl ⟨max_eq_right hle, dueAt_of_le hle bars⟩

/-- **One alias at one primary bar** raises what its due bars raise from the start. -/
theorem feedDue_outcome (h : Fed env settings info latest entry enricher left) (t : Timestamp) :
    Alike (feedDue env settings t entry.1 enricher left) (dueOutcome env settings info t entry)
      fun r _ => r.1.primaryEngine = enricher.primaryEngine ∧
        Fed env settings info (some (later latest t)) entry r.1 r.2 ∧
        ∀ other, entry.1 ≠ other → r.1.info.get other = enricher.info.get other := by
  obtain ⟨fed, state, hfed, hstate, halike⟩ := h
  have hloop := @feedDue_alike env settings t entry.1 left enricher
  rcases hfed.advance t with ⟨hlater, hdue, hleft⟩ | ⟨m, hle, rfl, hlater, rfl, rfl, hnext⟩
  · have houtcome : dueOutcome env settings info t entry
        = feedAlias env settings entry.1 state (dueAt env t left) >>= fun _ =>
            nextOpens env (leftAt env t left) := by
      unfold dueOutcome
      rw [hdue, hleft, feedAlias_append, hstate]
      rfl
    rw [houtcome]
    have hfrom : feedAlias env settings entry.1 (info.get entry.1) (dueAt env t entry.2)
        = feedAlias env settings entry.1 state (dueAt env t left) := by
      rw [hdue, feedAlias_append, hstate]
      rfl
    cases @feedAlias_alike env settings _ _ halike entry.1
        (dueAt env t left) with
    | raises hx hy =>
        rw [hy] at hloop
        rw [hx]
        exact .raises (hloop.error_iff.mpr rfl) rfl
    | @returns next next' hx hy hnext =>
        rw [hy] at hloop
        rw [hx]
        cases hopens : nextOpens env (leftAt env t left) with
        | error e =>
            rw [hopens] at hloop
            exact .raises (hloop.error_iff.mpr rfl) rfl
        | ok u =>
            rw [hopens] at hloop
            cases hloop with
            | raises _ hraises => cases hraises
            | returns hr hstate' hprops =>
                obtain ⟨hrest, hprimary, hfound, hothers⟩ := hprops
                obtain rfl := Except.ok.inj hstate'
                refine .returns hr rfl ⟨hprimary, ?_, hothers⟩
                rw [hrest, hlater, ← hleft]
                rw [← hleft] at hopens
                refine ⟨_, next, .upTo t hopens, hfrom.trans hx, ?_⟩
                rw [hfound]
                exact hnext
  · obtain ⟨hnothing, hstays⟩ := @leftAt_of_ge env _ _ hle entry.2
    rw [hnothing, hstays, feedAlias_nil, hnext] at hloop
    have houtcome : dueOutcome env settings info t entry = .ok () := by
      obtain ⟨hsplit, -⟩ := @dueAt_of_le env _ _ hle entry.2
      rw [hsplit, feedAlias_append] at hstate
      obtain ⟨earlier, hearlier, -⟩ := bind_eq_ok.mp hstate
      unfold dueOutcome
      rw [hearlier, nextOpens_of_le hle hnext]
      rfl
    cases hloop with
    | raises _ hraises => cases hraises
    | returns hr hstate' hprops =>
        obtain ⟨hrest, hprimary, hfound, hothers⟩ := hprops
        obtain rfl := Except.ok.inj hstate'
        refine .returns hr houtcome ⟨hprimary, ?_, hothers⟩
        rw [hrest, hlater]
        refine ⟨_, state, .upTo m hnext, hstate, ?_⟩
        rw [hfound]
        exact halike

/-- Every alias between two primary bars. -/
def AllFed (env : Environment) (settings : EnricherSettings) (info : OrderedDict String InfoState)
    (latest : Option Timestamp) (items : List (String × List StreamBar)) (enricher : Enricher)
    (pending : List (String × List StreamBar)) : Prop :=
  List.Forall₂ (fun entry next => next.1 = entry.1 ∧
    Fed env settings info latest entry enricher next.2) items pending

theorem Fed.congr {enricher' : Enricher}
    (h : Fed env settings info latest entry enricher left)
    (hsame : enricher'.info.get entry.1 = enricher.info.get entry.1) :
    Fed env settings info latest entry enricher' left := by
  obtain ⟨fed, state, hfed, hstate, halike⟩ := h
  exact ⟨fed, state, hfed, hstate, hsame ▸ halike⟩

theorem AllFed.congr {enricher' : Enricher} {items pending : List (String × List StreamBar)}
    (h : AllFed env settings info latest items enricher pending)
    (hsame : ∀ entry ∈ items, enricher'.info.get entry.1 = enricher.info.get entry.1) :
    AllFed env settings info latest items enricher' pending := by
  induction h with
  | nil => exact .nil
  | @cons entry next items pending hentry _ ih =>
      refine .cons ⟨hentry.1, hentry.2.congr (hsame entry List.mem_cons_self)⟩ ?_
      exact ih fun other hother => hsame other (List.mem_cons_of_mem entry hother)

theorem AllFed.feedsAlike {enricher' : Enricher} {items pending : List (String × List StreamBar)}
    (h : AllFed env settings info latest items enricher pending)
    (halike : ∀ aliasName,
      FeedsAlike (enricher.info.get aliasName) (enricher'.info.get aliasName)) :
    AllFed env settings info latest items enricher' pending := by
  refine List.Forall₂.imp (fun entry next hentry => ⟨hentry.1, ?_⟩) h
  obtain ⟨fed, state, hfed, hstate, hsame⟩ := hentry.2
  exact ⟨fed, state, hfed, hstate, hsame.trans (halike entry.1)⟩

/-- **The loop over the aliases** raises what the first of them raises. -/
theorem feedAllDue_outcome {items pending : List (String × List StreamBar)}
    (hnodup : (items.map Prod.fst).Nodup)
    (h : AllFed env settings info latest items enricher pending) (t : Timestamp) :
    Alike (feedAllDue env settings t enricher pending)
      (items.forM (dueOutcome env settings info t)) fun r _ =>
        r.1.primaryEngine = enricher.primaryEngine ∧
        AllFed env settings info (some (later latest t)) items r.1 r.2 ∧
        ∀ other, other ∉ items.map Prod.fst → r.1.info.get other = enricher.info.get other := by
  induction items generalizing enricher pending with
  | nil =>
      cases h
      exact .returns rfl rfl ⟨rfl, .nil, fun _ _ => rfl⟩
  | cons entry items ih =>
      cases h with
      | @cons _ next _ pending hentry hrest =>
          obtain ⟨aliasName, left⟩ := next
          obtain ⟨rfl, hfed⟩ : aliasName = entry.1 ∧ _ := hentry
          rw [List.map_cons, List.nodup_cons] at hnodup
          unfold feedAllDue
          show Alike _ (dueOutcome env settings info t entry >>= fun _ =>
            items.forM (dueOutcome env settings info t)) _
          refine (feedDue_outcome hfed t).bind ?_
          rintro ⟨first, left'⟩ u ⟨hprimary, hfed', hothers⟩
          -- The other aliases have not changed.
          have hkept : AllFed env settings info latest items first pending :=
            AllFed.congr hrest fun other hother => hothers other.1 fun heq =>
              hnodup.1 (List.mem_map.mpr ⟨other, hother, heq.symm⟩)
          have hall := ih hnodup.2 hkept
          cases hall with
          | raises hx hy =>
              refine .raises ?_ hy
              simp only [hx, bind, Except.bind]
          | @returns r v hx hy hprops =>
              obtain ⟨hprimary', hfed'', hothers'⟩ := hprops
              refine .returns (s := (r.1, (entry.1, left') :: r.2)) ?_ hy
                ⟨hprimary'.trans hprimary, .cons ⟨rfl, ?_⟩ hfed'', fun other hother => ?_⟩
              · simp only [hx, bind, Except.bind]
                rfl
              · exact hfed'.congr (hothers' entry.1 hnodup.1)
              · rw [List.map_cons, List.mem_cons, not_or] at hother
                rw [hothers' other hother.2, hothers other (Ne.symm hother.1)]

/-! ## §4 The run -/

/-- What a primary bar of the sequential mode raises: its timestamp, the bars that are due by
then, its own row. Otherwise it leaves the primary engine. -/
def dueStep (env : Environment) (settings : EnricherSettings)
    (info : OrderedDict String InfoState) (items : List (String × List StreamBar))
    (engine : Engine) (bar : StreamBar) : Except PyError Engine := do
  let t ← barOpenTs env bar
  items.forM (dueOutcome env settings info t)
  let (engine, _, _) ← enrichBar env engine settings.primaryIndicators bar
  return engine

theorem foldl_mergeVisible_alike {t : Timestamp} (items : List (String × InfoState))
    {done : List (String × InfoState)} {acc : List (String × InfoState) × Row}
    (hacc : List.Forall₂ (fun e e' => e.1 = e'.1 ∧ FeedsAlike (some e.2) (some e'.2)) done acc.1) :
    List.Forall₂ (fun e e' => e.1 = e'.1 ∧ FeedsAlike (some e.2) (some e'.2)) (done ++ items)
      (items.foldl (mergeVisible t) acc).1 := by
  induction items generalizing done acc with
  | nil => rwa [List.append_nil]
  | cons entry items ih =>
      rw [List.foldl_cons, List.append_cons]
      exact ih (List.rel_append hacc (.cons ⟨rfl, rfl, rfl, rfl⟩ .nil))

/-- Lookups take nothing from what can be fed. -/
theorem mergeAllVisible_alike (info : OrderedDict String InfoState) (t : Timestamp) (row : Row)
    (aliasName : String) :
    FeedsAlike (info.get aliasName) ((mergeAllVisible info t row).1.get aliasName) := by
  have hitems := @foldl_mergeVisible_alike t info.items [] ([], row) .nil
  obtain ⟨hkeys, halike⟩ := OrderedDict.get_of_forall₂ (d := info)
    (R := fun _ s s' => FeedsAlike (some s) (some s'))
    (show List.Forall₂ _ _ (mergeAllVisible info t row).1.items from hitems)
  cases hs : info.get aliasName with
  | none =>
      cases hs' : (mergeAllVisible info t row).1.get aliasName with
      | none => trivial
      | some s' =>
          obtain ⟨s, hsome⟩ := OrderedDict.mem_keys.mp
            (hkeys ▸ OrderedDict.mem_keys.mpr ⟨s', hs'⟩ : aliasName ∈ info.keys)
          rw [hs] at hsome
          cases hsome
  | some s =>
      obtain ⟨s', hs'⟩ := OrderedDict.mem_keys.mp (hkeys ▸ OrderedDict.mem_keys.mpr ⟨s, hs⟩)
      rw [hs']
      exact halike aliasName s s' hs hs'

/-- The row of a primary bar: what its engine raises. -/
theorem updatePrimary_outcome (enricher : Enricher) {bar : StreamBar} {t : Timestamp}
    (hopen : barOpenTs env bar = .ok t) :
    Alike (enricher.updatePrimary env settings bar)
      (enrichBar env enricher.primaryEngine settings.primaryIndicators bar) fun r result =>
        r.1.primaryEngine = result.1 ∧
          ∀ aliasName, FeedsAlike (enricher.info.get aliasName) (r.1.info.get aliasName) := by
  unfold Enricher.updatePrimary
  cases enrichBar env enricher.primaryEngine settings.primaryIndicators bar with
  | error e => exact .raises rfl rfl
  | ok result =>
      rw [hopen]
      exact .returns rfl rfl ⟨rfl, mergeAllVisible_alike enricher.info t result.2.1⟩

/-- **The sequential mode** raises what its primary bars raise, each with the bars that are due
by then. -/
theorem sequentialRows_alike {items pending : List (String × List StreamBar)}
    (hnodup : (items.map Prod.fst).Nodup) (bars : List StreamBar)
    (h : AllFed env settings info latest items enricher pending) :
    Alike (sequentialRows env settings enricher pending bars)
      (bars.foldlM (dueStep env settings info items) enricher.primaryEngine)
      fun _ _ => True := by
  induction bars generalizing latest enricher pending with
  | nil => exact .returns rfl rfl trivial
  | cons bar bars ih =>
      unfold sequentialRows
      rw [List.foldlM_cons]
      cases hopen : barOpenTs env bar with
      | error e =>
          refine .raises rfl ?_
          simp only [dueStep, hopen, bind, Except.bind]
      | ok t =>
          cases feedAllDue_outcome hnodup h t with
          | @raises e hx hy =>
              refine .raises (e := e) (by simp only [hx, bind, Except.bind]) ?_
              simp only [dueStep, hopen, hy, bind, Except.bind]
          | @returns fed _ hx hy hprops =>
              obtain ⟨hprimary, hfed, -⟩ := hprops
              have hrow := @updatePrimary_outcome env settings fed.1 bar t hopen
              rw [hprimary] at hrow
              cases hrow with
              | @raises e hx' hy' =>
                  refine .raises (e := e) (by simp only [hx, hx', bind, Except.bind]) ?_
                  simp only [dueStep, hopen, hy, hy', bind, Except.bind]
              | @returns updated result hx' hy' hprops =>
                  obtain ⟨hengine, halike⟩ := hprops
                  have hrest := ih (hfed.feedsAlike halike)
                  rw [hengine] at hrest
                  simp only [dueStep, hopen, hx, hy, hx', hy', bind, Except.bind]
                  cases hrest with
                  | raises hx'' hy'' =>
                      rw [hx'']
                      exact .raises rfl hy''
                  | returns hx'' hy'' =>
                      rw [hx'']
                      exact .returns rfl hy'' trivial

/-- A new enricher has been fed nothing. -/
theorem allFed_start (enricher : Enricher) (items : List (String × List StreamBar)) :
    AllFed env settings enricher.info none items enricher items := by
  induction items with
  | nil => exact .nil
  | cons entry items ih =>
      exact .cons ⟨rfl, [], _, .start, feedAlias_nil _ _, FeedsAlike.refl _⟩ ih

/-- `e` is the first fault when bars are taken as they fall due: the constructor's, or that of
the first primary bar whose timestamp, due bars or own row fail. -/
def FirstDueFault (env : Environment) (settings : EnricherSettings)
    (primaryBars : List StreamBar) (items : List (String × List StreamBar)) (e : PyError) : Prop :=
  Enricher.create env settings = .error e ∨
    ∃ s before bar after engine, Enricher.create env settings = .ok s ∧
      primaryBars = before ++ bar :: after ∧
      before.foldlM (dueStep env settings s.info items) s.primaryEngine = .ok engine ∧
      dueStep env settings s.info items engine bar = .error e

variable {primaryBars : List StreamBar} {informativeBars : OrderedDict String (List StreamBar)}

theorem enrichSequentially_alike {s : Enricher} (hcreate : Enricher.create env settings = .ok s) :
    Alike (enrichSequentially env settings primaryBars informativeBars)
      (primaryBars.foldlM (dueStep env settings s.info informativeBars.items) s.primaryEngine)
      fun _ _ => True := by
  unfold enrichSequentially
  rw [hcreate]
  exact sequentialRows_alike informativeBars.nodup primaryBars
    (allFed_start s informativeBars.items)

/-- **The sequential mode raises the first fault** in the order in which bars fall due. -/
theorem enrichSequentially_error_iff {e : PyError} :
    enrichSequentially env settings primaryBars informativeBars = .error e ↔
      FirstDueFault env settings primaryBars informativeBars.items e := by
  unfold FirstDueFault
  cases hcreate : Enricher.create env settings with
  | error e' =>
      unfold enrichSequentially
      simp [hcreate, bind, Except.bind]
  | ok s =>
      rw [(enrichSequentially_alike hcreate).error_iff, foldlM_eq_error_iff]
      constructor
      · rintro ⟨before, bar, after, engine, hfault⟩
        exact .inr ⟨s, before, bar, after, engine, rfl, hfault⟩
      · rintro (hcreated | ⟨s', before, bar, after, engine, hcreated, hfault⟩)
        · cases hcreated
        · obtain rfl := Except.ok.inj hcreated
          exact ⟨before, bar, after, engine, hfault⟩

end Finbar.Enrichment
