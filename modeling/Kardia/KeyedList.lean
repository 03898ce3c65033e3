import Mathlib

namespace KeyedList

/-!
# Lists of entries with distinct keys

A list whose entries carry distinct keys is a finite map: the entry at a key
is the one entry there.  This module reads such lists as maps and gives the
rules the proofs about them use: an entry is found at its key, a
permutation is the same map, a map over the entries that keeps their keys
maps the entry found, and the entries whose keys are not in a second list,
followed by the second list, make the override of the one map by the other.

For keys in a linear order, a list sorted by ascending keys without repeats
has distinct keys, and insertion sort on the keys sends two permutations of
a list with distinct keys to one list, sorted without repeats.
-/

variable {α κ : Type _} (key : α → κ)

section Find

variable [DecidableEq κ]

/-- The entry of a list at a key: the first entry there. -/
def find (entries : List α) (k : κ) : Option α :=
  entries.find? fun entry => key entry == k

/-- The list with an entry at its key: in place of the entry there, or appended. -/
def set (entries : List α) (entry : α) : List α :=
  if key entry ∈ entries.map key then entries.map fun e => if key e = key entry then entry else e
  else entries ++ [entry]

variable {key} {entries first second : List α} {entry : α} {k : κ}

/-- The entry found at a key is in the list and has the key. -/
theorem mem_of_find_eq_some (found : find key entries k = some entry) :
    entry ∈ entries ∧ key entry = k := by
  refine ⟨List.mem_of_find?_eq_some found, ?_⟩
  simpa using List.find?_some found

/-- No entry is found exactly at a key no entry has. -/
theorem find_eq_none_iff : find key entries k = none ↔ k ∉ entries.map key := by
  simp [find]

/-- With distinct keys, an entry is the one found at its key. -/
theorem find_key_of_mem
    (distinct : (entries.map key).Nodup)
    (member : entry ∈ entries) :
    find key entries (key entry) = some entry := by
  obtain ⟨found, foundEq⟩ : ∃ found, find key entries (key entry) = some found :=
    Option.isSome_iff_exists.mp (List.find?_isSome.mpr ⟨entry, member, by simp⟩)
  obtain ⟨foundMember, sameKey⟩ := mem_of_find_eq_some foundEq
  rw [foundEq, List.inj_on_of_nodup_map distinct foundMember member sameKey]

/-- With distinct keys, the entry found at a key is the member with that key. -/
theorem find_eq_some_iff (distinct : (entries.map key).Nodup) :
    find key entries k = some entry ↔ entry ∈ entries ∧ key entry = k := by
  constructor
  · exact mem_of_find_eq_some
  · rintro ⟨member, rfl⟩
    exact find_key_of_mem distinct member

/-- Two permutations of a list with distinct keys are the same map. -/
theorem find_perm (distinct : (first.map key).Nodup) (perm : first.Perm second) :
    find key first = find key second := by
  have distinctSecond : (second.map key).Nodup := (perm.map key).nodup_iff.mp distinct
  funext k
  apply Option.ext
  intro entry
  rw [find_eq_some_iff distinct, find_eq_some_iff distinctSecond, perm.mem_iff]

/-- A map over the entries that keeps every key maps the entry found at a key. -/
theorem find_map {f : α → α} (keeps : ∀ entry, key (f entry) = key entry) :
    find key (entries.map f) k = (find key entries k).map f := by
  unfold find
  rw [List.find?_map]
  simp only [Function.comp_def, keeps]

/--
The entries whose keys the second list does not have, followed by the second
list: the second map where it has the key, the first elsewhere.
-/
theorem find_filter_append :
    find key (first.filter (fun entry => key entry ∉ second.map key) ++ second) k =
      if k ∈ second.map key then find key second k else find key first k := by
  unfold find
  rw [List.find?_append, List.find?_filter]
  split_ifs with inSecond
  · -- no entry of the first list at the key survives the filter
    rw [List.find?_eq_none.mpr, Option.none_or]
    intro entry _ kept
    simp only [decide_eq_true_eq, beq_iff_eq] at kept
    exact kept.1 (kept.2 ▸ inSecond)
  · have absent : second.find? (fun entry => key entry == k) = none := by
      simpa [find] using inSecond
    rw [absent, Option.or_none]
    congr 1
    funext entry
    by_cases atKey : key entry = k
    · simp [atKey, inSecond]
    · simp [atKey]

/-- The entries whose keys are not in a list: nothing at those keys, the same map elsewhere. -/
theorem find_filter {keys : List κ} :
    find key (entries.filter fun entry => key entry ∉ keys) k =
      if k ∈ keys then none else find key entries k := by
  unfold find
  rw [List.find?_filter]
  split_ifs with removed
  · rw [List.find?_eq_none]
    intro entry _ kept
    simp only [decide_eq_true_eq, beq_iff_eq] at kept
    exact kept.1 (kept.2 ▸ removed)
  · congr 1
    funext entry
    by_cases atKey : key entry = k
    · simp [atKey, removed]
    · simp [atKey]

end Find

section Sorted

variable [LinearOrder κ] {key} {entries first second : List α}

/-- A list sorted by strictly ascending keys has distinct keys. -/
theorem nodup_of_pairwise_lt (sorted : entries.Pairwise fun a b => key a < key b) :
    (entries.map key).Nodup := by
  rw [List.Nodup, List.pairwise_map]
  exact sorted.imp ne_of_lt

/-- Insertion sort on the keys sorts by ascending keys. -/
theorem pairwise_insertionSort_le (entries : List α) :
    (entries.insertionSort fun a b => key a ≤ key b).Pairwise fun a b => key a ≤ key b := by
  have total : Std.Total fun a b : α => key a ≤ key b := ⟨fun a b => le_total (key a) (key b)⟩
  have transitive : IsTrans α fun a b => key a ≤ key b := ⟨fun _ _ _ => le_trans⟩
  exact List.pairwise_insertionSort _ entries

/-- Insertion sort on distinct keys sorts by strictly ascending keys. -/
theorem pairwise_insertionSort_lt (distinct : (entries.map key).Nodup) :
    (entries.insertionSort fun a b => key a ≤ key b).Pairwise fun a b => key a < key b := by
  have sortedDistinct : ((entries.insertionSort fun a b => key a ≤ key b).map key).Nodup :=
    ((List.perm_insertionSort _ entries).map key).nodup_iff.mpr distinct
  rw [List.Nodup, List.pairwise_map] at sortedDistinct
  exact (pairwise_insertionSort_le entries).imp₂ (fun _ _ => lt_of_le_of_ne) sortedDistinct

/-- Insertion sort on the keys sends two permutations of a list with distinct keys to one list. -/
theorem insertionSort_eq_of_perm (distinct : (first.map key).Nodup) (perm : first.Perm second) :
    (first.insertionSort fun a b => key a ≤ key b) = second.insertionSort fun a b => key a ≤ key b := by
  have sortedPerm :
      (first.insertionSort fun a b => key a ≤ key b).Perm
        (second.insertionSort fun a b => key a ≤ key b) :=
    (List.perm_insertionSort _ first).trans (perm.trans (List.perm_insertionSort _ second).symm)
  apply sortedPerm.eq_of_pairwise _ (pairwise_insertionSort_le first) (pairwise_insertionSort_le second)
  intro a b inFirst inSecond below above
  have aInFirst : a ∈ first := (List.mem_insertionSort _).mp inFirst
  have bInFirst : b ∈ first := perm.mem_iff.mpr ((List.mem_insertionSort _).mp inSecond)
  exact List.inj_on_of_nodup_map distinct aInFirst bInFirst (le_antisymm below above)

end Sorted

end KeyedList
