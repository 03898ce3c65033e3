import Kardia.TrieHash
import Kardia.Runs

namespace Kardia.Trie

/-!
# Tries in memory do not depend on their history

A trie made by NewEmpty and changed by Update, Delete and Hash holds the
key-to-value map the same operations leave (mapOf): each key's value sits
under the key's hex form and nothing else is in the trie, the root is in
canonical form or nil, and the hashes it caches are valid (Represents).
Two canonical tries that hold the same map are the same up to their flags,
so they have the same root hash: the trie, its lookups and Hash depend on
the map alone, not on the order of the operations or on when Hash ran.
-/

/-- The first byte of a key gives the first two nibbles of its hex form. -/
theorem keybytesToHex_cons_val (b : UInt8) (bs : List UInt8) :
    (keybytesToHex (b :: bs)).map Fin.val = b.toNat / 16 :: b.toNat % 16 :: (keybytesToHex bs).map Fin.val := by
  simp [keybytesToHex]

/-- Distinct keys have distinct hex forms: two nibbles per byte fix the byte. -/
theorem keybytesToHex_injective : Function.Injective keybytesToHex := by
  intro key other same
  induction key generalizing other with
  | nil =>
      cases other with
      | nil => rfl
      | cons c cs => simp [keybytesToHex] at same
  | cons b bs inductionHypothesis =>
      cases other with
      | nil => simp [keybytesToHex] at same
      | cons c cs =>
          have vals := congrArg (List.map Fin.val) same
          rw [keybytesToHex_cons_val, keybytesToHex_cons_val, List.cons.injEq, List.cons.injEq] at vals
          obtain ⟨high, low, rest⟩ := vals
          have sameByte : b = c := by
            apply UInt8.toNat_inj.mp
            rw [← Nat.div_add_mod b.toNat 16, ← Nat.div_add_mod c.toNat 16, high, low]
          rw [sameByte, inductionHypothesis (List.map_injective_iff.mpr Fin.val_injective rest)]

section Runs

variable (encode : Collapsed → List UInt8) (keccak : List UInt8 → List UInt8) (emptyRootHash : List UInt8)

/--
A root holds a key-to-value map: it is canonical or nil, its caches are
valid, each key's value is under the key's hex form, and nothing is under a
path that is not a key's hex form.
-/
structure Represents (entries : List UInt8 → Option (List UInt8)) (root : Node) : Prop where
  shape : CanonicalOrNil root
  caches : CacheValid encode keccak true root
  get_key : ∀ key, get root (keybytesToHex key) = entries key
  keyed : ∀ path, Terminated path → (get root path).isSome → ∃ key, path = keybytesToHex key

variable {encode keccak emptyRootHash} {entries : List UInt8 → Option (List UInt8)} {root : Node}

theorem represents_empty : Represents encode keccak (fun _ => none) .empty :=
  ⟨Or.inl rfl, trivial, fun _ => rfl, fun _ _ found => absurd found (by simp [get])⟩

/-- A root that holds one key's value changed, and every other key's as before, holds the updated map. -/
theorem Represents.overwrite (holds : Represents encode keccak entries root) {result : Node} (key : List UInt8)
    (found : Option (List UInt8)) (shape : CanonicalOrNil result) (caches : CacheValid encode keccak true result)
    (changed : ∀ path, Terminated path →
      get result path = if path = keybytesToHex key then found else get root path) :
    Represents encode keccak (Function.update entries key found) result := by
  refine ⟨shape, caches, fun other => ?_, fun path terminated present => ?_⟩
  · rw [changed _ (terminated_keybytesToHex other), Function.update_apply]
    simp only [keybytesToHex_injective.eq_iff, holds.get_key]
  · rw [changed path terminated] at present
    split_ifs at present with atKey
    · exact ⟨key, atKey⟩
    · exact holds.keyed path terminated present

/-- A root with the same keys and values below it and valid caches holds the same map. -/
theorem Represents.of_erase_eq (holds : Represents encode keccak entries root) {result : Node}
    (same : result.erase = root.erase) (caches : CacheValid encode keccak true result) :
    Represents encode keccak entries result := by
  have sameGet : ∀ path, get result path = get root path := fun path => by
    rw [← get_erase result, same, get_erase]
  refine ⟨?_, caches, fun key => ?_, fun path terminated present => ?_⟩
  · rw [← canonicalOrNil_erase, same, canonicalOrNil_erase]
    exact holds.shape
  · rw [sameGet, holds.get_key]
  · rw [sameGet] at present
    exact holds.keyed path terminated present

/-- Trie.update: insert for a nonempty value, delete for an empty one. -/
theorem Represents.update (holds : Represents encode keccak entries root) (key value : List UInt8) :
    Represents encode keccak (Function.update entries key (if value = [] then none else some value))
      (update root key value) := by
  unfold Kardia.Trie.update
  by_cases empty : value = []
  · -- an empty value deletes the key
    rw [if_pos empty, if_neg (not_not.mpr empty)]
    have deleted := delete_spec root _ holds.shape (terminated_keybytesToHex key)
    exact holds.overwrite key none deleted.shape (cacheValid_delete _ _ true holds.caches) deleted.get_eq
  · rw [if_neg empty, if_pos empty]
    have inserted := insert_spec root _ holds.shape (terminated_keybytesToHex key) empty
    exact holds.overwrite key _ (Or.inr inserted.canonical) (cacheValid_insert _ _ true holds.caches)
      inserted.get_eq

/-- One operation on a trie that holds a map leaves a trie that holds the map after the operation. -/
theorem Represents.apply (holds : Represents encode keccak entries root) (operation : Operation) :
    Represents encode keccak (applyToMap entries operation) (apply encode keccak emptyRootHash root operation) := by
  cases operation with
  | update key value => exact holds.update key value
  | delete key =>
      have deleted := delete_spec root _ holds.shape (terminated_keybytesToHex key)
      exact holds.overwrite key none deleted.shape (cacheValid_delete _ _ true holds.caches) deleted.get_eq
  | hash =>
      have hashed : (trieHash encode keccak emptyRootHash root).2.erase = root.erase ∧
          CacheValid encode keccak true (trieHash encode keccak emptyRootHash root).2 :=
        (trieHash_spec holds.caches).2
      exact holds.of_erase_eq hashed.1 hashed.2

/-- A trie made by NewEmpty holds, after any operations, the map they leave. -/
theorem represents_run (operations : List Operation) :
    Represents encode keccak (mapOf operations) (run encode keccak emptyRootHash operations) :=
  Runs.related_of_foldl (Represents encode keccak) (fun _ _ operation holds => holds.apply operation)
    represents_empty

/-- Two roots that hold the same map hold the same values under every key in hex form. -/
theorem Represents.sameEntries {root' : Node} (holds : Represents encode keccak entries root)
    (holds' : Represents encode keccak entries root') : SameEntries root root' := by
  intro path terminated
  by_cases keyed : ∃ key, path = keybytesToHex key
  · obtain ⟨key, rfl⟩ := keyed
    rw [holds.get_key, holds'.get_key]
  · -- a path that is no key's hex form holds nothing in either root
    have absent : ∀ {n}, Represents encode keccak entries n → get n path = none := by
      intro n holdsN
      cases found : get n path with
      | none => rfl
      | some _ => exact absurd (holdsN.keyed path terminated (by rw [found]; rfl)) keyed
    rw [absent holds, absent holds']

/-- A root that holds no key is nil. -/
theorem Represents.eq_empty_of_nothing (holds : Represents encode keccak (fun _ => none) root) : root = .empty := by
  rcases holds.shape with empty | canonical
  · exact Node.eq_empty_of_isEmpty empty
  · obtain ⟨path, terminated, found⟩ := canonical.exists_get
    obtain ⟨key, rfl⟩ := holds.keyed path terminated found
    rw [holds.get_key] at found
    cases found

/-- Two roots that hold the same map are the same up to their flags. -/
theorem Represents.erase_eq {root' : Node} (holds : Represents encode keccak entries root)
    (holds' : Represents encode keccak entries root') : root.erase = root'.erase := by
  have same := holds.sameEntries holds'
  rcases holds.shape with empty | canonical <;> rcases holds'.shape with empty' | canonical'
  · rw [Node.eq_empty_of_isEmpty empty, Node.eq_empty_of_isEmpty empty']
  · obtain ⟨path, terminated, found⟩ := canonical'.exists_get
    rw [← same path terminated, Node.eq_empty_of_isEmpty empty] at found
    cases found
  · obtain ⟨path, terminated, found⟩ := canonical.exists_get
    rw [same path terminated, Node.eq_empty_of_isEmpty empty'] at found
    cases found
  · exact erase_eq_of_sameEntries canonical canonical' same

/--
The root does not depend on history: two runs of operations from NewEmpty
that leave the same map give tries that return the map's values from Get,
are in canonical form or nil, are the same up to their flags, and have the
same root hash; for the empty map both roots are nil and hash to
EmptyRootHash.
-/
theorem run_history_independent (first second : List Operation) (sameMap : mapOf first = mapOf second) :
    (∀ key, trieGet (run encode keccak emptyRootHash first) key = mapOf first key) ∧
      (∀ key, trieGet (run encode keccak emptyRootHash second) key = mapOf first key) ∧
      (trieHash encode keccak emptyRootHash (run encode keccak emptyRootHash first)).1 =
        (trieHash encode keccak emptyRootHash (run encode keccak emptyRootHash second)).1 ∧
      CanonicalOrNil (run encode keccak emptyRootHash first) ∧
      CanonicalOrNil (run encode keccak emptyRootHash second) ∧
      (run encode keccak emptyRootHash first).erase = (run encode keccak emptyRootHash second).erase ∧
      (mapOf first = (fun _ => none) →
        run encode keccak emptyRootHash first = .empty ∧ run encode keccak emptyRootHash second = .empty ∧
          (trieHash encode keccak emptyRootHash (run encode keccak emptyRootHash first)).1 = emptyRootHash) := by
  have holds : Represents encode keccak (mapOf first) (run encode keccak emptyRootHash first) :=
    represents_run first
  have holds' : Represents encode keccak (mapOf first) (run encode keccak emptyRootHash second) :=
    sameMap ▸ represents_run second
  have erased := holds.erase_eq holds'
  refine ⟨holds.get_key, holds'.get_key, ?_, holds.shape, holds'.shape, erased, fun nothing => ?_⟩
  · rw [(trieHash_spec holds.caches).1, (trieHash_spec holds'.caches).1]
    exact rootHashOf_congr erased
  · rw [nothing] at holds holds'
    have emptyRoot := holds.eq_empty_of_nothing
    refine ⟨emptyRoot, holds'.eq_empty_of_nothing, ?_⟩
    rw [emptyRoot]
    rfl

end Runs

namespace ReorderedHistory

/-- Two keys written, with a Hash between the writes. -/
def first : List Operation :=
  [.update [1] [5], .hash, .update [2] [6], .delete [3]]

/-- The same keys written in the other order, the first key overwritten after a Hash. -/
def second : List Operation :=
  [.update [2] [6], .update [1] [7], .hash, .update [1] [5]]

theorem sameMap : mapOf first = mapOf second := by
  funext key
  by_cases atFirst : key = [1] <;> by_cases atSecond : key = [2] <;> by_cases atThird : key = [3] <;>
    simp_all [mapOf, applyToMap, first, second]

end ReorderedHistory

/-- Writes in another order, with Hash run at other points, give the same root hash. -/
theorem reordered_history_same_root :
    (trieHash (fun _ => []) id [] (run (fun _ => []) id [] ReorderedHistory.first)).1 =
      (trieHash (fun _ => []) id [] (run (fun _ => []) id [] ReorderedHistory.second)).1 :=
  (run_history_independent ReorderedHistory.first ReorderedHistory.second ReorderedHistory.sameMap).2.2.1

end Kardia.Trie
