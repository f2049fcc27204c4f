/-
Finbar.Lib.OrderedDict — dictionaries that can be iterated.

A Python `dict`: entries in insertion order, no key twice. Assigning to a key
that is there keeps its place. `get_assign` is the lookup after an
assignment, `mem_items` says that an entry is in the dictionary exactly when
looking its key up finds it. `get_erase` is the lookup after a `pop`.

No `sorry`, no `axiom`.
-/
import Finbar.Lib.Entries
import Mathlib.Data.List.Induction
import Mathlib.Data.List.Nodup

namespace Lib

/-- A dictionary with its entries in insertion order. -/
structure OrderedDict (κ β : Type) where
  items : List (κ × β) := []
  nodup : (items.map Prod.fst).Nodup := by exact List.nodup_nil

namespace OrderedDict

variable {κ β : Type} [DecidableEq κ]

/-! ## §1 Assignment -/

/-- `d[key] = value` on the entries. -/
def assignItems : List (κ × β) → κ → β → List (κ × β)
  | [], key, value => [(key, value)]
  | entry :: items, key, value =>
      if entry.1 = key then (key, value) :: items
      else entry :: assignItems items key value

theorem mem_keys_assignItems {items : List (κ × β)} {key key' : κ} {value : β} :
    key' ∈ (assignItems items key value).map Prod.fst
      ↔ key' = key ∨ key' ∈ items.map Prod.fst := by
  induction items with
  | nil =>
      unfold assignItems
      rw [List.map_singleton, List.mem_singleton, List.map_nil]
      simp
  | cons entry items ih =>
      unfold assignItems
      split
      · rename_i heq
        rw [List.map_cons, List.map_cons, List.mem_cons, List.mem_cons, heq]
        tauto
      · rw [List.map_cons, List.map_cons, List.mem_cons, List.mem_cons, ih]
        tauto

theorem nodup_assignItems {items : List (κ × β)} (h : (items.map Prod.fst).Nodup)
    (key : κ) (value : β) : ((assignItems items key value).map Prod.fst).Nodup := by
  induction items with
  | nil => exact List.nodup_singleton key
  | cons entry items ih =>
      rw [List.map_cons, List.nodup_cons] at h
      unfold assignItems
      split
      · rename_i heq
        rw [List.map_cons, List.nodup_cons, ← heq]
        exact h
      · rename_i hne
        rw [List.map_cons, List.nodup_cons, mem_keys_assignItems]
        refine ⟨?_, ih h.2⟩
        rintro (heq | hmem)
        · exact hne heq
        · exact h.1 hmem

/-- `d[key] = value`. -/
def assign (d : OrderedDict κ β) (key : κ) (value : β) : OrderedDict κ β where
  items := assignItems d.items key value
  nodup := nodup_assignItems d.nodup key value

/-- `d.update(items)`. -/
def assignAll (d : OrderedDict κ β) (items : List (κ × β)) : OrderedDict κ β :=
  items.foldl (fun d entry => d.assign entry.1 entry.2) d

/-! ## §2 Lookup -/

/-- `d.get(key)`. -/
def get (d : OrderedDict κ β) (key : κ) : Option β :=
  (d.items.find? (fun entry => decide (entry.1 = key))).map Prod.snd

/-- The keys, in order. -/
def keys (d : OrderedDict κ β) : List κ := d.items.map Prod.fst

theorem find?_assignItems (items : List (κ × β)) (key key' : κ) (value : β) :
    ((assignItems items key value).find? (fun entry => decide (entry.1 = key'))).map Prod.snd
      = if key = key' then some value
        else (items.find? (fun entry => decide (entry.1 = key'))).map Prod.snd := by
  induction items with
  | nil =>
      unfold assignItems
      rw [List.find?_cons, List.find?_nil]
      by_cases h : key = key'
      · simp [h]
      · simp [h]
  | cons entry items ih =>
      unfold assignItems
      by_cases hentry : entry.1 = key
      · rw [if_pos hentry, List.find?_cons, List.find?_cons]
        by_cases h : key = key'
        · simp [h]
        · simp [h, hentry]
      · rw [if_neg hentry, List.find?_cons, List.find?_cons]
        by_cases h : entry.1 = key'
        · have hne : ¬ key = key' := fun heq => hentry (h.trans heq.symm)
          simp [h, hne]
        · simp only [h, decide_false]
          exact ih

/-- Looking up after an assignment. -/
theorem get_assign (d : OrderedDict κ β) (key key' : κ) (value : β) :
    (d.assign key value).get key' = if key = key' then some value else d.get key' :=
  find?_assignItems d.items key key' value

@[simp] theorem get_assign_self (d : OrderedDict κ β) (key : κ) (value : β) :
    (d.assign key value).get key = some value := by
  rw [get_assign, if_pos rfl]

theorem get_assign_of_ne (d : OrderedDict κ β) {key key' : κ} (h : key ≠ key') (value : β) :
    (d.assign key value).get key' = d.get key' := by
  rw [get_assign, if_neg h]

/-- An entry of the dictionary is what looking its key up finds. -/
theorem get_of_mem {d : OrderedDict κ β} {key : κ} {value : β}
    (h : (key, value) ∈ d.items) : d.get key = some value := by
  obtain ⟨items, hnodup⟩ := d
  unfold get
  simp only at h ⊢
  induction items with
  | nil => cases h
  | cons entry items ih =>
      rw [List.map_cons, List.nodup_cons] at hnodup
      rw [List.find?_cons]
      rcases List.mem_cons.mp h with rfl | htail
      · simp
      · have hne : ¬ entry.1 = key := by
          rintro rfl
          exact hnodup.1 (List.mem_map.mpr ⟨(entry.1, value), htail, rfl⟩)
        simp only [hne, decide_false]
        exact ih hnodup.2 htail

theorem mem_of_get {d : OrderedDict κ β} {key : κ} {value : β}
    (h : d.get key = some value) : (key, value) ∈ d.items := by
  unfold get at h
  obtain ⟨entry, hfind, rfl⟩ := Option.map_eq_some_iff.mp h
  have hkey : entry.1 = key := by simpa using List.find?_some hfind
  rw [← hkey]
  exact List.mem_of_find?_eq_some hfind

theorem mem_items {d : OrderedDict κ β} {key : κ} {value : β} :
    (key, value) ∈ d.items ↔ d.get key = some value :=
  ⟨get_of_mem, mem_of_get⟩

/-! ## §3 Several assignments -/

/-- A key that none of the assignments has keeps its value. -/
theorem get_assignAll_of_not_mem {items : List (κ × β)} {key : κ}
    (h : key ∉ items.map Prod.fst) (d : OrderedDict κ β) :
    (d.assignAll items).get key = d.get key := by
  induction items generalizing d with
  | nil => rfl
  | cons entry items ih =>
      rw [List.map_cons, List.mem_cons, not_or] at h
      have hrest := ih h.2 (d.assign entry.1 entry.2)
      exact hrest.trans (get_assign_of_ne d (Ne.symm h.1) entry.2)

/-- Assignments to distinct keys are all found afterwards. -/
theorem get_assignAll_of_mem {items : List (κ × β)} (hnodup : (items.map Prod.fst).Nodup)
    {key : κ} {value : β} (h : (key, value) ∈ items) (d : OrderedDict κ β) :
    (d.assignAll items).get key = some value := by
  induction items generalizing d with
  | nil => cases h
  | cons entry items ih =>
      rw [List.map_cons, List.nodup_cons] at hnodup
      rcases List.mem_cons.mp h with rfl | htail
      · have hrest := get_assignAll_of_not_mem hnodup.1 (d.assign key value)
        exact hrest.trans (get_assign_self d key value)
      · exact ih hnodup.2 htail (d.assign entry.1 entry.2)

/-- … of values that are given by what the keys name. -/
theorem get_assignAll_map {ι : Type} {xs : List ι} {name : ι → κ} (value : ι → β)
    (hnodup : (xs.map name).Nodup) {x : ι} (h : x ∈ xs) (d : OrderedDict κ β) :
    (d.assignAll (xs.map fun x => (name x, value x))).get (name x) = some (value x) := by
  have hmem : (name x, value x) ∈ xs.map fun x => (name x, value x) :=
    List.mem_map.mpr ⟨x, h, rfl⟩
  refine get_assignAll_of_mem ?_ hmem d
  rwa [List.map_map]

/-- A key that one of the assignments has is there afterwards. -/
theorem get_assignAll_of_mem_keys {items : List (κ × β)} {key : κ}
    (h : key ∈ items.map Prod.fst) (d : OrderedDict κ β) :
    ∃ value, (d.assignAll items).get key = some value := by
  unfold assignAll
  induction items generalizing d with
  | nil => cases h
  | cons entry items ih =>
      rw [List.foldl_cons]
      by_cases hlater : key ∈ items.map Prod.fst
      · exact ih hlater (d.assign entry.1 entry.2)
      · have hkey : key = entry.1 := (List.mem_cons.mp h).resolve_right hlater
        refine ⟨entry.2, ?_⟩
        rw [hkey] at hlater ⊢
        have hkeep := get_assignAll_of_not_mem hlater (d.assign entry.1 entry.2)
        unfold assignAll at hkeep
        rw [hkeep, get_assign_self]

theorem filter_ne_eq_self {items : List (κ × β)} {key : κ}
    (h : key ∉ items.map Prod.fst) :
    items.filter (fun entry => decide (entry.1 ≠ key)) = items := by
  rw [List.filter_eq_self]
  intro other hother
  rw [decide_eq_true_iff]
  rintro rfl
  exact h (List.mem_map_of_mem hother)

/-- **What an assignment leaves**, up to order: the new entry and the
entries of the other keys. -/
theorem assign_perm (d : OrderedDict κ β) (key : κ) (value : β) :
    (d.assign key value).items.Perm
      ((key, value) :: d.items.filter fun entry => decide (entry.1 ≠ key)) := by
  obtain ⟨items, hnodup⟩ := d
  show (assignItems items key value).Perm _
  induction items with
  | nil => exact .refl _
  | cons entry items ih =>
      rw [List.map_cons, List.nodup_cons] at hnodup
      unfold assignItems
      by_cases heq : entry.1 = key
      · rw [if_pos heq, List.filter_cons_of_neg (by simpa using heq),
          filter_ne_eq_self (heq ▸ hnodup.1)]
      · rw [if_neg heq, List.filter_cons_of_pos (by simpa using heq)]
        exact ((ih hnodup.2).cons entry).trans (List.Perm.swap _ _ _)

/-! ## §4 Two dictionaries with the same keys -/

section Related

variable {γ : Type} {d : OrderedDict κ β} {d' : OrderedDict κ γ}

theorem mem_keys {key : κ} : key ∈ d.keys ↔ ∃ value, d.get key = some value := by
  unfold keys
  rw [List.mem_map]
  constructor
  · rintro ⟨entry, hentry, rfl⟩
    exact ⟨entry.2, get_of_mem hentry⟩
  · rintro ⟨value, hvalue⟩
    exact ⟨(key, value), mem_of_get hvalue, rfl⟩

/-- Assigning to a key that is there changes no key. -/
theorem keys_assign_of_get {key : κ} {old : β} (h : d.get key = some old) (value : β) :
    (d.assign key value).keys = d.keys := by
  have hitems : ∀ items : List (κ × β), key ∈ items.map Prod.fst →
      (assignItems items key value).map Prod.fst = items.map Prod.fst := by
    intro items
    induction items with
    | nil => intro hmem; cases hmem
    | cons entry items ih =>
        intro hmem
        unfold assignItems
        split
        · rename_i heq
          rw [List.map_cons, List.map_cons, heq]
        · rename_i hne
          rw [List.map_cons, List.map_cons, ih]
          exact (List.mem_cons.mp hmem).resolve_left (Ne.symm hne)
  exact hitems d.items (mem_keys.mpr ⟨old, h⟩)

/-- Dictionaries with the same keys, in the same order, are related entry by
entry when their lookups are. -/
theorem forall₂_items {R : κ → β → γ → Prop} (hkeys : d.keys = d'.keys)
    (h : ∀ key value value', d.get key = some value → d'.get key = some value' →
      R key value value') :
    List.Forall₂ (fun e e' => e.1 = e'.1 ∧ R e.1 e.2 e'.2) d.items d'.items := by
  have hitems : ∀ (items : List (κ × β)) (items' : List (κ × γ)),
      items.map Prod.fst = items'.map Prod.fst →
      (∀ e ∈ items, ∀ e' ∈ items', e.1 = e'.1 → R e.1 e.2 e'.2) →
      List.Forall₂ (fun e e' => e.1 = e'.1 ∧ R e.1 e.2 e'.2) items items' := by
    intro items
    induction items with
    | nil =>
        intro items' hmap _
        cases items' with
        | nil => exact .nil
        | cons e' items' => cases hmap
    | cons e items ih =>
        intro items' hmap hall
        cases items' with
        | nil => cases hmap
        | cons e' items' =>
            obtain ⟨hhead, htail⟩ := List.cons.inj hmap
            refine .cons ⟨hhead, hall e List.mem_cons_self e' List.mem_cons_self hhead⟩ ?_
            refine ih items' htail fun f hf f' hf' => ?_
            exact hall f (List.mem_cons_of_mem e hf) f' (List.mem_cons_of_mem e' hf')
  refine hitems d.items d'.items hkeys fun e he e' he' heq => ?_
  exact h e.1 e.2 e'.2 (get_of_mem he) (by rw [heq]; exact get_of_mem he')

/-- Entries related one by one give related lookups. -/
theorem get_of_forall₂ {R : κ → β → γ → Prop}
    (h : List.Forall₂ (fun e e' => e.1 = e'.1 ∧ R e.1 e.2 e'.2) d.items d'.items) :
    d.keys = d'.keys ∧ ∀ key value value', d.get key = some value →
      d'.get key = some value' → R key value value' := by
  have hkeys : ∀ (items : List (κ × β)) (items' : List (κ × γ)),
      List.Forall₂ (fun e e' => e.1 = e'.1 ∧ R e.1 e.2 e'.2) items items' →
      items.map Prod.fst = items'.map Prod.fst := by
    intro items items' h
    induction h with
    | nil => rfl
    | cons hhead _ ih => rw [List.map_cons, List.map_cons, hhead.1, ih]
  refine ⟨hkeys _ _ h, fun key value value' hget hget' => ?_⟩
  obtain ⟨i, hi⟩ := List.getElem?_of_mem (mem_of_get hget)
  obtain ⟨entry', hentry', hrel⟩ : ∃ e', d'.items[i]? = some e' ∧
      (key = e'.1 ∧ R key value e'.2) := by
    have hlength := h.length_eq
    have hlt : i < d'.items.length := by
      rw [← hlength]
      exact (List.getElem?_eq_some_iff.mp hi).1
    refine ⟨d'.items[i], List.getElem?_eq_getElem hlt, ?_⟩
    have hrel := h.get (i := i) (by rw [hlength]; exact hlt) hlt
    obtain ⟨hlt', hentry⟩ := List.getElem?_eq_some_iff.mp hi
    simp only [List.get_eq_getElem, hentry] at hrel
    exact hrel
  have hmem : (key, entry'.2) ∈ d'.items := by
    rw [hrel.1]
    exact List.mem_of_getElem? hentry'
  obtain rfl : entry'.2 = value' := Option.some.inj ((get_of_mem hmem).symm.trans hget')
  exact hrel.2

end Related

/-! ## §5 A property of all values -/

section Forall

variable {κ β : Type} [DecidableEq κ] {P : β → Prop}

/-- Every value has the property. -/
def Forall (P : β → Prop) (d : OrderedDict κ β) : Prop :=
  ∀ key value, d.get key = some value → P value

theorem forall_empty : Forall P ({} : OrderedDict κ β) := by
  intro key value h
  cases h

theorem Forall.assign {d : OrderedDict κ β} (hd : Forall P d) {value : β} (hvalue : P value)
    (key : κ) : Forall P (d.assign key value) := by
  intro key' value' h
  rw [get_assign] at h
  split_ifs at h
  · exact Option.some.inj h ▸ hvalue
  · exact hd key' value' h

theorem Forall.assignAll {items : List (κ × β)} (hitems : ∀ entry ∈ items, P entry.2) :
    ∀ {d : OrderedDict κ β}, Forall P d → Forall P (d.assignAll items) := by
  induction items with
  | nil => exact fun hd => hd
  | cons entry items ih =>
      intro d hd
      exact ih (fun other h => hitems other (by simp [h]))
        (hd.assign (hitems entry (by simp)) entry.1)

theorem Forall.of_mem {d : OrderedDict κ β} (hd : Forall P d) {entry : κ × β}
    (h : entry ∈ d.items) : P entry.2 :=
  hd entry.1 entry.2 (get_of_mem h)

end Forall

/-! ## §6 Other values under the same keys -/

section MapValues

variable {κ β γ : Type}

/-- `{key: f(value) for key, value in d.items()}`. -/
def mapValues (d : OrderedDict κ β) (f : β → γ) : OrderedDict κ γ where
  items := d.items.map fun entry => (entry.1, f entry.2)
  nodup := by
    rw [List.map_map]
    exact d.nodup

theorem ext_of_items {d e : OrderedDict κ β} (h : d.items = e.items) : d = e := by
  cases d
  cases e
  cases h
  rfl

@[simp] theorem mapValues_id (d : OrderedDict κ β) : (d.mapValues fun value => value) = d :=
  ext_of_items (List.map_id _)

variable [DecidableEq κ]

/-- A new key comes last. -/
theorem assignItems_of_not_mem {items : List (κ × β)} {key : κ}
    (h : key ∉ items.map Prod.fst) (value : β) :
    assignItems items key value = items ++ [(key, value)] := by
  induction items with
  | nil => rfl
  | cons entry items ih =>
      rw [List.map_cons, List.mem_cons, not_or] at h
      rw [assignItems, if_neg (Ne.symm h.1), ih h.2, List.cons_append]

/-- Assigning entries with distinct new keys appends them. -/
theorem items_assignAll {d : OrderedDict κ β} {items : List (κ × β)}
    (h : ((d.items ++ items).map Prod.fst).Nodup) :
    (d.assignAll items).items = d.items ++ items := by
  induction items generalizing d with
  | nil => exact (List.append_nil _).symm
  | cons entry items ih =>
      have hnew : entry.1 ∉ d.items.map Prod.fst := by
        rw [List.map_append, List.map_cons] at h
        intro hmem
        exact (List.disjoint_of_nodup_append h) hmem (by simp)
      have hitems : (d.assign entry.1 entry.2).items = d.items ++ [entry] :=
        assignItems_of_not_mem hnew entry.2
      have hrest := @ih (d.assign entry.1 entry.2) (by rw [hitems]; simpa using h)
      rw [hitems, List.append_assoc] at hrest
      exact hrest

/-- Assigning to distinct keys, one after the other. -/
theorem items_foldl_keys {keys : List κ} (h : keys.Nodup) (f : κ → β) :
    (keys.foldl (fun d key => d.assign key (f key)) ({} : OrderedDict κ β)).items =
      keys.map fun key => (key, f key) := by
  have hnodup : (((({} : OrderedDict κ β).items) ++ keys.map fun key => (key, f key)).map
      Prod.fst).Nodup := by
    rw [List.nil_append, List.map_map]
    exact (List.map_id keys).symm ▸ h
  have hitems := items_assignAll hnodup
  rw [assignAll, List.foldl_map] at hitems
  exact hitems

/-- Assigning keeps the keys where they are, and adds new ones behind them. -/
theorem keys_assignAll_take (d : OrderedDict κ β) (items : List (κ × β)) :
    (d.assignAll items).keys.take d.items.length = d.keys := by
  induction items generalizing d with
  | nil => exact List.take_of_length_le (Nat.le_of_eq (List.length_map Prod.fst))
  | cons entry items ih =>
      have hrest := ih (d.assign entry.1 entry.2)
      have hfirst : (d.assign entry.1 entry.2).keys.take d.items.length = d.keys := by
        cases hget : d.get entry.1 with
        | some old =>
            rw [keys_assign_of_get hget]
            exact List.take_of_length_le (Nat.le_of_eq (List.length_map Prod.fst))
        | none =>
            have hnew : entry.1 ∉ d.items.map Prod.fst := by
              intro hmem
              obtain ⟨value, hvalue⟩ := mem_keys.mp hmem
              exact Option.some_ne_none value (hvalue.symm.trans hget)
            show (List.map Prod.fst (assignItems d.items entry.1 entry.2)).take _ = _
            rw [assignItems_of_not_mem hnew, List.map_append]
            exact List.take_left' (List.length_map _)
      have hlength : d.items.length ≤ (d.assign entry.1 entry.2).items.length := by
        have htake := congrArg List.length hfirst
        rw [List.length_take, keys, keys, List.length_map, List.length_map] at htake
        omega
      calc (d.assignAll (entry :: items)).keys.take d.items.length
          = (((d.assign entry.1 entry.2).assignAll items).keys.take
              (d.assign entry.1 entry.2).items.length).take d.items.length := by
            rw [List.take_take, Nat.min_eq_left hlength]
            rfl
        _ = d.keys := by rw [hrest, hfirst]

/-- Assigning to keys that are there. -/
theorem keys_assignAll_of_mem {d : OrderedDict κ β} {items : List (κ × β)}
    (h : ∀ entry ∈ items, entry.1 ∈ d.keys) : (d.assignAll items).keys = d.keys := by
  induction items generalizing d with
  | nil => rfl
  | cons entry items ih =>
      obtain ⟨old, hold⟩ := mem_keys.mp (h entry List.mem_cons_self)
      have hkeys := keys_assign_of_get hold entry.2
      have hrest := ih (d := d.assign entry.1 entry.2) fun other hother => by
        rw [hkeys]
        exact h other (List.mem_cons_of_mem entry hother)
      exact hrest.trans hkeys

/-- An entry after assignments is an old one or one of those assigned. -/
theorem mem_items_assignAll {d : OrderedDict κ β} {items : List (κ × β)} {entry : κ × β}
    (h : entry ∈ (d.assignAll items).items) : entry ∈ d.items ∨ entry ∈ items := by
  induction items generalizing d with
  | nil => exact .inl h
  | cons first items ih =>
      rcases ih (d := d.assign first.1 first.2) h with hassign | hitems
      · obtain ⟨key, value⟩ := entry
        rw [mem_items, get_assign] at hassign
        split at hassign
        · next heq =>
            have hfirst : first = (key, value) := Prod.ext heq (Option.some.inj hassign)
            exact .inr (hfirst ▸ List.mem_cons_self)
        · exact .inl (mem_items.mpr hassign)
      · exact .inr (List.mem_cons_of_mem first hitems)

theorem assignAll_mapValues (d : OrderedDict κ β) (f : β → γ) :
    assignAll {} (d.items.map fun entry => (entry.1, f entry.2)) = d.mapValues f := by
  refine ext_of_items (items_assignAll ?_)
  exact (d.mapValues f).nodup

end MapValues

/-! ## §7 Values grouped by key -/

section Collect

variable {κ β : Type} [DecidableEq κ]

/-- `d.setdefault(key, []).append(value)`. -/
def append (d : OrderedDict κ (List β)) (key : κ) (value : β) : OrderedDict κ (List β) :=
  d.assign key ((d.get key).getD [] ++ [value])

/-- The values of each key, in their order. -/
def collect (pairs : List (κ × β)) : OrderedDict κ (List β) :=
  pairs.foldl (fun d pair => d.append pair.1 pair.2) {}

/-- **A key has all of its values.** -/
theorem get_collect (pairs : List (κ × β)) (key : κ) :
    ((collect pairs).get key).getD []
      = (pairs.filter fun pair => decide (pair.1 = key)).map Prod.snd := by
  unfold collect
  induction pairs using List.reverseRecOn with
  | nil => rfl
  | append_singleton pairs pair ih =>
      rw [List.foldl_append, List.foldl_cons, List.foldl_nil, append, get_assign,
        List.filter_append, List.map_append]
      by_cases hkey : pair.1 = key
      · subst hkey
        rw [if_pos rfl, ih, Option.getD_some]
        simp
      · rw [if_neg hkey, ih]
        simp [hkey]

/-- No key is without values. -/
theorem get_collect_ne_nil {pairs : List (κ × β)} {key : κ} {values : List β}
    (h : (collect pairs).get key = some values) : values ≠ [] := by
  unfold collect at h
  induction pairs using List.reverseRecOn with
  | nil => cases h
  | append_singleton pairs pair ih =>
      rw [List.foldl_append, List.foldl_cons, List.foldl_nil, append, get_assign] at h
      split at h
      · rw [← Option.some.inj h]
        exact List.concat_ne_nil _ _
      · exact ih h

/-- What a key has are its values. -/
theorem mem_of_mem_collect {pairs : List (κ × β)} {key : κ} {values : List β} {value : β}
    (h : (key, values) ∈ (collect pairs).items) (hvalue : value ∈ values) :
    (key, value) ∈ pairs := by
  have hget := get_collect pairs key
  rw [get_of_mem h, Option.getD_some] at hget
  rw [hget] at hvalue
  obtain ⟨pair, hpair, rfl⟩ := List.mem_map.mp hvalue
  obtain ⟨hmem, hkey⟩ := List.mem_filter.mp hpair
  rwa [← of_decide_eq_true hkey]

/-- A value is among those of its key. -/
theorem exists_mem_collect {pairs : List (κ × β)} {key : κ} {value : β}
    (h : (key, value) ∈ pairs) :
    ∃ values, (key, values) ∈ (collect pairs).items ∧ value ∈ values := by
  have hmem : value ∈ ((collect pairs).get key).getD [] := by
    rw [get_collect]
    exact List.mem_map.mpr ⟨(key, value), List.mem_filter.mpr ⟨h, decide_eq_true rfl⟩, rfl⟩
  cases hget : (collect pairs).get key with
  | none => simp [hget] at hmem
  | some values =>
      rw [hget] at hmem
      exact ⟨values, mem_of_get hget, hmem⟩

/-- The keys are those of the pairs. -/
theorem mem_keys_collect {pairs : List (κ × β)} {key : κ} :
    key ∈ (collect pairs).keys ↔ key ∈ pairs.map Prod.fst := by
  rw [mem_keys, List.mem_map]
  constructor
  · rintro ⟨values, hget⟩
    obtain ⟨value, hvalue⟩ := List.exists_mem_of_ne_nil values (get_collect_ne_nil hget)
    exact ⟨(key, value), mem_of_mem_collect (mem_of_get hget) hvalue, rfl⟩
  · rintro ⟨pair, hpair, rfl⟩
    obtain ⟨values, hmem, -⟩ := exists_mem_collect hpair
    exact ⟨values, get_of_mem hmem⟩

end Collect

/-! ## §8 Removal -/

section Erase

variable {κ β : Type} [DecidableEq κ] {d : OrderedDict κ β}

theorem mem_keys_assign {key key' : κ} {value : β} :
    key' ∈ (d.assign key value).keys ↔ key' = key ∨ key' ∈ d.keys :=
  mem_keys_assignItems

/-- `d.pop(key, None)`. -/
def erase (d : OrderedDict κ β) (key : κ) : OrderedDict κ β where
  items := d.items.filter fun entry => decide (entry.1 ≠ key)
  nodup := d.nodup.sublist (List.filter_sublist.map Prod.fst)

theorem get_erase (d : OrderedDict κ β) (key key' : κ) :
    (d.erase key).get key' = if key = key' then none else d.get key' := by
  unfold get erase
  rw [List.find?_filter]
  by_cases h : key = key'
  · subst h
    rw [if_pos rfl]
    simp
  · rw [if_neg h]
    congr 2
    funext entry
    by_cases hentry : entry.1 = key'
    · simp [hentry, Ne.symm h]
    · simp [hentry]

theorem mem_keys_erase {key key' : κ} :
    key' ∈ (d.erase key).keys ↔ key' ≠ key ∧ key' ∈ d.keys := by
  rw [mem_keys, mem_keys, get_erase]
  by_cases h : key = key'
  · simp [h]
  · simp [h, Ne.symm h]

/-- Popping a key that is there leaves one entry less. -/
theorem length_erase {key : κ} (h : key ∈ d.keys) :
    (d.erase key).items.length + 1 = d.items.length := by
  obtain ⟨items, hnodup⟩ := d
  unfold keys at h
  unfold erase
  simp only at h ⊢
  induction items with
  | nil => cases h
  | cons entry items ih =>
      rw [List.map_cons, List.nodup_cons] at hnodup
      by_cases heq : entry.1 = key
      · rw [List.filter_cons_of_neg (by simpa using heq), filter_ne_eq_self (heq ▸ hnodup.1),
          List.length_cons]
      · have hmem : key ∈ items.map Prod.fst :=
          (List.mem_cons.mp h).resolve_left (Ne.symm heq)
        rw [List.filter_cons_of_pos (by simpa using heq), List.length_cons, List.length_cons,
          ih hnodup.2 hmem]

/-- Several keys are popped, one after the other. -/
def eraseAll (d : OrderedDict κ β) (keys : List κ) : OrderedDict κ β :=
  keys.foldl erase d

theorem mem_keys_eraseAll {popped : List κ} {key : κ} :
    key ∈ (d.eraseAll popped).keys ↔ key ∉ popped ∧ key ∈ d.keys := by
  unfold eraseAll
  induction popped generalizing d with
  | nil => simp
  | cons first popped ih =>
      rw [List.foldl_cons, ih, mem_keys_erase, List.mem_cons, not_or]
      tauto

end Erase

end OrderedDict

end Lib
