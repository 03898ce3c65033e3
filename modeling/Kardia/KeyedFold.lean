import Mathlib

namespace KeyedFold

/-!
# Loops over the entries of a map

A loop over the entries of a map whose body changes the state only at the
entry's own key, as in "for k, v := range m { if test(v) { a[k] = x;
delete(b, k) } }", has a result known key by key: at a key of the map, the
body's update applied to the state before the loop; at any other key, the
state before the loop.  The keys are distinct, so the order in which the
entries are visited does not matter, and Go's unspecified map order is
covered by any one order.  Where the keys repeat and the body overwrites,
a key whose entries all carry one value ends with that value.

The rule is proved for list folds over entries with distinct keys and then
for Std.TreeMap.foldl, with the frame rule that what no call of the body
changes the loop leaves as it was.  Beside them stands the bound of a running maximum: a
loop whose body never lowers the accumulator and raises it to at least the
measure of every element that passes a test ends at or above each of them.
-/

variable {σ κ ν β α : Type _}

section Local

variable (step : σ → κ → ν → σ) (view : σ → κ → β) (update : β → ν → β)

/--
A loop body that is local to its key: it leaves the view at every other key
as it was and changes the view at its own key by the update alone.
-/
structure Local : Prop where
  frame : ∀ state key value other, other ≠ key →
    view (step state key value) other = view state other
  self : ∀ state key value, view (step state key value) key = update (view state key) value

variable {step view update}

/-- A key that no entry names keeps its view through the loop. -/
theorem foldl_view_of_not_mem
    (isLocal : Local step view update)
    {entries : List (κ × ν)}
    {key : κ}
    (absent : ∀ value, (key, value) ∉ entries)
    (start : σ) :
    view (entries.foldl (fun state entry => step state entry.1 entry.2) start) key =
      view start key := by
  induction entries generalizing start with
  | nil => rfl
  | cons entry rest inductionHypothesis =>
      have otherKey : key ≠ entry.1 := by
        intro same
        exact absent entry.2 (by simp [same])
      rw [List.foldl_cons, inductionHypothesis (fun value member => absent value (by simp [member]))]
      exact isLocal.frame start entry.1 entry.2 key otherKey

/-- The view at the key of an entry is the update of the view before the loop. -/
theorem foldl_view_of_mem
    (isLocal : Local step view update)
    {entries : List (κ × ν)}
    (distinct : (entries.map Prod.fst).Nodup)
    {key : κ}
    {value : ν}
    (member : (key, value) ∈ entries)
    (start : σ) :
    view (entries.foldl (fun state entry => step state entry.1 entry.2) start) key =
      update (view start key) value := by
  induction entries generalizing start with
  | nil => cases member
  | cons entry rest inductionHypothesis =>
      obtain ⟨firstKey, restDistinct⟩ := List.nodup_cons.mp distinct
      rw [List.foldl_cons]
      rcases List.mem_cons.mp member with isFirst | inRest
      · -- the entry is the first one, and no later entry names its key
        subst isFirst
        have absent : ∀ other, (key, other) ∉ rest := by
          intro other later
          exact firstKey (List.mem_map.mpr ⟨(key, other), later, rfl⟩)
        rw [foldl_view_of_not_mem isLocal absent]
        exact isLocal.self start key value
      · have otherKey : key ≠ entry.1 := by
          intro same
          exact firstKey (same ▸ List.mem_map.mpr ⟨(key, value), inRest, rfl⟩)
        rw [inductionHypothesis restDistinct inRest, isLocal.frame start entry.1 entry.2 key otherKey]

/--
Keys need not be distinct when the update overwrites: at a key whose entries
all carry one value, the view is that value's update of the view before the loop.
-/
theorem foldl_view_of_agree
    (isLocal : Local step view update)
    {entries : List (κ × ν)}
    {key : κ}
    {value : ν}
    (member : (key, value) ∈ entries)
    (agree : ∀ entry ∈ entries, entry.1 = key → entry.2 = value)
    (overwrites : ∀ old old', update old value = update old' value)
    (start : σ) :
    view (entries.foldl (fun state entry => step state entry.1 entry.2) start) key =
      update (view start key) value := by
  induction entries generalizing start with
  | nil => cases member
  | cons entry rest inductionHypothesis =>
      have restAgree : ∀ other ∈ rest, other.1 = key → other.2 = value :=
        fun other later => agree other (List.mem_cons_of_mem entry later)
      rw [List.foldl_cons]
      by_cases later : (key, value) ∈ rest
      · rw [inductionHypothesis later restAgree]
        exact overwrites _ _
      · -- the first entry is the only one that names the key
        obtain rfl : entry = (key, value) := by
          rcases List.mem_cons.mp member with isFirst | inRest
          · exact isFirst.symm
          · exact absurd inRest later
        have absent : ∀ other, (key, other) ∉ rest := by
          intro other inRest
          obtain rfl := restAgree (key, other) inRest rfl
          exact later inRest
        rw [foldl_view_of_not_mem isLocal absent]
        exact isLocal.self start key value

end Local

section TreeMap

variable {cmp : κ → κ → Ordering}
variable {step : σ → κ → ν → σ} {view : σ → κ → β} {update : β → ν → β}

/-- What no call of the body changes, the loop leaves as it was. -/
theorem treeMap_foldl_frame
    (field : σ → β)
    (kept : ∀ state key value, field (step state key value) = field state)
    (map : Std.TreeMap κ ν cmp)
    (start : σ) :
    field (map.foldl step start) = field start := by
  rw [Std.TreeMap.foldl_eq_foldl_toList]
  induction map.toList generalizing start with
  | nil => rfl
  | cons entry rest inductionHypothesis =>
      rw [List.foldl_cons, inductionHypothesis, kept]

variable [Std.TransCmp cmp] [Std.LawfulEqCmp cmp]

/--
A loop over a map with a body local to its key updates the view at the
keys of the map and leaves it at every other key.
-/
theorem treeMap_foldl_view
    (isLocal : Local step view update)
    (map : Std.TreeMap κ ν cmp)
    (start : σ)
    (key : κ) :
    view (map.foldl step start) key =
      match map[key]? with
      | some value => update (view start key) value
      | none => view start key := by
  rw [Std.TreeMap.foldl_eq_foldl_toList]
  have distinct : (map.toList.map Prod.fst).Nodup := by
    rw [Std.TreeMap.map_fst_toList_eq_keys]
    exact Std.TreeMap.nodup_keys
  cases found : map[key]? with
  | some value =>
      exact foldl_view_of_mem isLocal distinct
        (Std.TreeMap.mem_toList_iff_getElem?_eq_some.mpr found) start
  | none =>
      refine foldl_view_of_not_mem isLocal (fun value member => ?_) start
      rw [Std.TreeMap.mem_toList_iff_getElem?_eq_some, found] at member
      cases member

end TreeMap

section RunningMax

variable {γ : Type _} [Preorder γ] {body : β → α → β}

/-- A loop whose body never lowers the rank of the accumulator ends at or above its start. -/
theorem le_foldl
    (rank : β → γ)
    (grows : ∀ best item, rank best ≤ rank (body best item))
    (items : List α)
    (start : β) :
    rank start ≤ rank (items.foldl body start) := by
  induction items generalizing start with
  | nil => exact le_refl (rank start)
  | cons item rest inductionHypothesis =>
      exact le_trans (grows start item) (inductionHypothesis (body start item))

/--
A running maximum: a body that never lowers the rank of the accumulator and
raises it to at least the rank of the measure of an element that passes the
test ends at or above the measure of each such element.  The rank is the
order the maximum is taken in, such as the value of a machine integer.
-/
theorem measure_le_foldl
    (rank : β → γ)
    (test : α → Prop)
    (measure : α → β)
    (grows : ∀ best item, rank best ≤ rank (body best item))
    (bounds : ∀ best item, test item → rank (measure item) ≤ rank (body best item))
    {items : List α}
    {item : α}
    (member : item ∈ items)
    (passes : test item)
    (start : β) :
    rank (measure item) ≤ rank (items.foldl body start) := by
  induction items generalizing start with
  | nil => cases member
  | cons first rest inductionHypothesis =>
      rw [List.foldl_cons]
      rcases List.mem_cons.mp member with isFirst | inRest
      · subst isFirst
        exact le_trans (bounds start item passes) (le_foldl rank grows rest _)
      · exact inductionHypothesis inRest _

end RunningMax

end KeyedFold
