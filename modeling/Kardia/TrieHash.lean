import Kardia.TrieUpdate

namespace Kardia.Trie

/-!
# The hasher and the hashes it caches

What the hasher computes for a node when every hash is computed afresh
(hashOf), and the invariant on the hashes a trie keeps (CacheValid): a hash
cached in a node is the hash of that node, the forced one at the root and the
one of a node embedded or hashed in its parent below it.  The hasher returns
hashOf for a node whose caches are valid, caches only such hashes, and
changes nothing else in the nodes (hash_spec); insert and delete build their
new nodes without a cached hash and keep the old ones only below them, so
they keep the caches valid (cacheValid_insert, cacheValid_delete).

A node's flags do not change its keys, its canonical form or its hash:
get, Canonical and hashOf read a node through Node.erase.
-/

section Erase

variable {n : Node}

@[simp] theorem Node.isEmpty_erase (n : Node) : n.erase.isEmpty = n.isEmpty := by
  cases n <;> rfl

@[simp] theorem Node.isFull_erase (n : Node) : n.erase.isFull = n.isFull := by
  cases n <;> rfl

@[simp] theorem Node.erase_eq_value (n : Node) (bytes : List UInt8) : n.erase = .value bytes ↔ n = .value bytes := by
  cases n <;> simp [Node.erase]

theorem get_erase : ∀ (n : Node) (path : List Nibble), get n.erase path = get n path
  | .short key val _, path => by
      simp only [Node.erase, get, get_erase val]
  | .full children _, i :: rest => by
      simp only [Node.erase, get, get_erase (children i)]
  | .full _ _, [] => rfl
  | .value _, _ => rfl
  | .empty, _ => rfl

theorem occupied_erase (children : Nibble → Node) : occupied (fun i => (children i).erase) = occupied children := by
  simp [occupied]

theorem canonical_erase : ∀ n : Node, Canonical n.erase ↔ Canonical n
  | .short key val _ => by
      simp only [Node.erase, Canonical, Node.erase_eq_value, Node.isFull_erase, canonical_erase val]
  | .full children _ => by
      simp only [Node.erase, Canonical, Node.isEmpty_erase, Node.erase_eq_value, occupied_erase,
        fun i => canonical_erase (children i)]
  | .value _ => Iff.rfl
  | .empty => Iff.rfl

theorem canonicalOrNil_erase (n : Node) : CanonicalOrNil n.erase ↔ CanonicalOrNil n := by
  simp only [CanonicalOrNil, Node.isEmpty_erase, canonical_erase]

end Erase


section Hasher

variable (encode : Collapsed → List UInt8) (keccak : List UInt8 → List UInt8)

/-- What the hasher returns for a node when no hash is cached in it or below it. -/
def hashOf : Node → Bool → Collapsed
  | .short key val _, force => toHash encode keccak (.short (hexToCompact key) (hashOf val false)) force
  | .full children _, force =>
      toHash encode keccak
        (.full fun i =>
          if i = terminator then leafCollapsed (children i)
          else if (children i).isEmpty then .value []
          else hashOf (children i) false)
        force
  | n, _ => leafCollapsed n

/--
The hashes cached in a node are its hashes: the hash a node caches is the one
the hasher computes for it afresh, forced at the root of the trie and not
forced below it.
-/
def CacheValid : Bool → Node → Prop
  | force, .short key val flags =>
      (∀ h, flags.hash = some h → hashOf encode keccak (.short key val flags) force = .hash h) ∧
        CacheValid false val
  | force, .full children flags =>
      (∀ h, flags.hash = some h → hashOf encode keccak (.full children flags) force = .hash h) ∧
        ∀ i, CacheValid false (children i)
  | _, _ => True

variable {encode keccak}

theorem hashOf_erase : ∀ (n : Node) (force : Bool), hashOf encode keccak n.erase force = hashOf encode keccak n force
  | .short key val _, force => by
      simp only [Node.erase, hashOf, hashOf_erase val]
  | .full children _, force => by
      simp only [Node.erase, hashOf, Node.isEmpty_erase, fun i => hashOf_erase (children i) false]
      congr 2
      funext i
      split_ifs
      · cases children i <;> rfl
      · rfl
      · rfl
  | .value _, _ => rfl
  | .empty, _ => rfl

/-- Nodes with the same keys and values below them hash alike. -/
theorem hashOf_congr {n n' : Node} (same : n.erase = n'.erase) (force : Bool) :
    hashOf encode keccak n force = hashOf encode keccak n' force := by
  rw [← hashOf_erase n, same, hashOf_erase]

@[simp] theorem cacheValid_newShort (force : Bool) (key : List Nibble) (val : Node) :
    CacheValid encode keccak force (.short key val newFlag) ↔ CacheValid encode keccak false val := by
  simp [CacheValid, newFlag]

@[simp] theorem cacheValid_newFull (force : Bool) (children : Nibble → Node) :
    CacheValid encode keccak force (.full children newFlag) ↔ ∀ i, CacheValid encode keccak false (children i) := by
  simp [CacheValid, newFlag]

@[simp] theorem cacheValid_value (force : Bool) (bytes : List UInt8) :
    CacheValid encode keccak force (.value bytes) := trivial

@[simp] theorem cacheValid_empty (force : Bool) : CacheValid encode keccak force .empty := trivial

/-- The flags the hasher leaves hold a hash only when the node was hashed, not embedded. -/
theorem cachedFlags_hash {flags : NodeFlag} {hashed : Collapsed} {h : List UInt8}
    (cached : (cachedFlags flags hashed).hash = some h) : hashed = .hash h := by
  cases hashed <;> simp_all [cachedFlags]

/-- The hasher on a node with a cached hash returns that hash and the node. -/
theorem hash_of_cache {n : Node} {h : List UInt8} (force : Bool) (cached : n.cache = some h) :
    hash encode keccak n force = (.hash h, n) := by
  cases n with
  | short _ _ flags => simp_all [hash, Node.cache]
  | full _ flags => simp_all [hash, Node.cache]
  | _ => cases cached

/-- The hasher on a short node with nothing cached: its value is hashed below it, or kept if it is a value. -/
theorem hash_short_uncached {key : List Nibble} {val : Node} {flags : NodeFlag} (force : Bool)
    (cached : flags.hash = none) :
    hash encode keccak (.short key val flags) force =
      (toHash encode keccak (.short (hexToCompact key) (hash encode keccak val false).1) force,
        .short key (hash encode keccak val false).2
          (cachedFlags flags (toHash encode keccak (.short (hexToCompact key) (hash encode keccak val false).1) force))) := by
  cases val <;> simp only [hash, cached]

/-- The hasher on a full node with nothing cached: slots 0 to 15 are hashed, nil ones as the empty value. -/
theorem hash_full_uncached {children : Nibble → Node} {flags : NodeFlag} (force : Bool)
    (cached : flags.hash = none) :
    hash encode keccak (.full children flags) force =
      (toHash encode keccak (.full fun i =>
          if i = terminator then leafCollapsed (children i)
          else if (children i).isEmpty then .value []
          else (hash encode keccak (children i) false).1) force,
        .full (fun i => if i = terminator ∨ (children i).isEmpty then children i
            else (hash encode keccak (children i) false).2)
          (cachedFlags flags (toHash encode keccak (.full fun i =>
            if i = terminator then leafCollapsed (children i)
            else if (children i).isEmpty then .value []
            else (hash encode keccak (children i) false).1) force))) := by
  simp only [hash, cached]

/--
The hasher on a node with valid caches: it returns the node's hash, leaves a
node that differs only in its flags, and caches only valid hashes.
-/
theorem hash_spec : ∀ (n : Node) (force : Bool), CacheValid encode keccak force n →
    (hash encode keccak n force).1 = hashOf encode keccak n force ∧
      (hash encode keccak n force).2.erase = n.erase ∧
      CacheValid encode keccak force (hash encode keccak n force).2
  | .short key val flags, force, valid => by
      rcases cached : flags.hash with _ | h
      · -- nothing cached: the value is hashed below
        obtain ⟨collapsedEq, erasedEq, validBelow⟩ := hash_spec val false valid.2
        rw [hash_short_uncached force cached]
        refine ⟨by rw [collapsedEq]; rfl, by simp only [Node.erase, erasedEq], ?_, validBelow⟩
        intro h cachedNow
        calc _ = hashOf encode keccak (.short key val flags) force :=
              hashOf_congr (by simp only [Node.erase, erasedEq]) force
          _ = _ := by rw [hashOf, ← collapsedEq]
          _ = .hash h := cachedFlags_hash cachedNow
      · rw [hash_of_cache force (show (Node.short key val flags).cache = some h from cached)]
        exact ⟨(valid.1 h cached).symm, rfl, valid⟩
  | .full children flags, force, valid => by
      rcases cached : flags.hash with _ | h
      · -- nothing cached: the children in slots 0 to 15 are hashed
        have below := fun i => hash_spec (children i) false (valid.2 i)
        have collapsedEq : (fun i =>
            if i = terminator then leafCollapsed (children i)
            else if (children i).isEmpty then .value []
            else (hash encode keccak (children i) false).1) = fun i =>
            if i = terminator then leafCollapsed (children i)
            else if (children i).isEmpty then .value []
            else hashOf encode keccak (children i) false := by
          funext i
          rw [(below i).1]
        have erasedEq : (fun i => (if i = terminator ∨ (children i).isEmpty then children i
            else (hash encode keccak (children i) false).2).erase) = fun i => (children i).erase := by
          funext i
          split_ifs
          · rfl
          · exact (below i).2.1
        rw [hash_full_uncached force cached]
        refine ⟨by rw [collapsedEq]; rfl, by simp only [Node.erase, erasedEq], ?_, fun i => ?_⟩
        · intro h cachedNow
          calc _ = hashOf encode keccak (.full children flags) force :=
                hashOf_congr (by simp only [Node.erase, erasedEq]) force
            _ = _ := by rw [hashOf, ← collapsedEq]
            _ = .hash h := cachedFlags_hash cachedNow
        · dsimp only
          split_ifs
          · exact valid.2 i
          · exact (below i).2.2
      · rw [hash_of_cache force (show (Node.full children flags).cache = some h from cached)]
        exact ⟨(valid.1 h cached).symm, rfl, valid⟩
  | .value _, _, valid => ⟨rfl, rfl, valid⟩
  | .empty, _, valid => ⟨rfl, rfl, valid⟩

/-! ## insert and delete keep the caches valid -/

section Operations

variable {bytes : List UInt8}

theorem cacheValid_insertNil_below {val : Node} (key : List Nibble) (valid : CacheValid encode keccak false val) :
    CacheValid encode keccak false (insertNil key val) := by
  cases key with
  | nil => exact valid
  | cons _ _ => simpa [insertNil] using valid

theorem cacheValid_branchOut {existingAt addedAt : Nibble} {existing added : Node}
    (existingValid : CacheValid encode keccak false existing) (addedValid : CacheValid encode keccak false added)
    (force : Bool) : CacheValid encode keccak force (branchOut existingAt existing addedAt added) := by
  simp only [branchOut, cacheValid_newFull]
  intro i
  simp only [Function.update_apply]
  split_ifs
  · exact addedValid
  · exact existingValid
  · trivial

/-- insert builds its new nodes without a cached hash and keeps the valid caches below them. -/
theorem cacheValid_insert : ∀ (n : Node) (key : List Nibble) (force : Bool), CacheValid encode keccak force n →
    CacheValid encode keccak force (insert n key (.value bytes)).2
  | n, [], force, _ => by
      rw [insert_nil_snd]
      trivial
  | .short key val flags, k :: ks, force, valid => by
      simp only [insert]
      split_ifs
      · have below := cacheValid_insert val ((k :: ks).drop (prefixLen (k :: ks) key)) false valid.2
        rcases result : insert val ((k :: ks).drop (prefixLen (k :: ks) key)) (.value bytes) with ⟨_ | _, nn⟩
        · exact valid
        · rw [result] at below
          simpa using below
      · exact cacheValid_branchOut (cacheValid_insertNil_below _ valid.2) (cacheValid_insertNil_below _ (cacheValid_value false bytes)) force
      · exact (cacheValid_newShort force _ _).mpr (cacheValid_branchOut (cacheValid_insertNil_below _ valid.2)
          (cacheValid_insertNil_below _ (cacheValid_value false bytes)) false)
  | .full children flags, k :: ks, force, valid => by
      simp only [insert]
      have below := cacheValid_insert (children k) ks false (valid.2 k)
      rcases result : insert (children k) ks (.value bytes) with ⟨_ | _, nn⟩
      · exact valid
      · rw [result] at below
        simp only [cacheValid_newFull, Function.update_apply]
        intro i
        split_ifs
        · exact below
        · exact valid.2 i
  | .empty, k :: ks, force, _ => by
      simp [insert]
  | .value _, _ :: _, force, _ => trivial

theorem cacheValid_reduceTo (j : Nibble) {child : Node} (valid : CacheValid encode keccak false child)
    (force : Bool) : CacheValid encode keccak force (reduceTo j child) := by
  unfold reduceTo
  split_ifs
  · cases child with
    | short key val flags => exact (cacheValid_newShort force _ _).mpr valid.2
    | _ => exact (cacheValid_newShort force _ _).mpr valid
  · exact (cacheValid_newShort force _ _).mpr valid

/-- delete builds its new nodes without a cached hash and keeps the valid caches below them. -/
theorem cacheValid_delete : ∀ (n : Node) (key : List Nibble) (force : Bool), CacheValid encode keccak force n →
    CacheValid encode keccak force (delete n key).2
  | .short key val flags, k, force, valid => by
      simp only [delete]
      split_ifs
      · exact valid
      · trivial
      · have below := cacheValid_delete val (k.drop key.length) false valid.2
        rcases result : delete val (k.drop key.length) with ⟨_ | _, nn⟩
        · exact valid
        · rw [result] at below
          cases nn with
          | short childKey childVal childFlags => exact (cacheValid_newShort force _ _).mpr below.2
          | _ => exact (cacheValid_newShort force _ _).mpr below
  | .full children flags, k :: ks, force, valid => by
      simp only [delete]
      have below := cacheValid_delete (children k) ks false (valid.2 k)
      have updated : ∀ nn, CacheValid encode keccak false nn →
          ∀ i, CacheValid encode keccak false (Function.update children k nn i) := by
        intro nn validNew i
        simp only [Function.update_apply]
        split_ifs
        · exact validNew
        · exact valid.2 i
      rcases result : delete (children k) ks with ⟨_ | _, nn⟩
      · exact valid
      · rw [result] at below
        simp only
        split_ifs
        · simpa using updated nn below
        · exact cacheValid_reduceTo _ (updated nn below _) force
        · simpa using updated nn below
  | .full children flags, [], force, valid => valid
  | .value _, _, force, _ => trivial
  | .empty, _, force, _ => trivial

end Operations

end Hasher

/-! ## Trie.Hash -/

section Root

variable (encode : Collapsed → List UInt8) (keccak : List UInt8 → List UInt8) (emptyRootHash : List UInt8)

/-- The root hash of a trie with every hash computed afresh: EmptyRootHash for nil, else the root's forced hash. -/
def rootHashOf (root : Node) : List UInt8 :=
  if root.isEmpty then emptyRootHash
  else
    match hashOf encode keccak root true with
    | .hash h => h
    | _ => []

variable {encode keccak emptyRootHash}

/-- Tries with the same keys and values below their roots have the same root hash. -/
theorem rootHashOf_congr {root root' : Node} (same : root.erase = root'.erase) :
    rootHashOf encode keccak emptyRootHash root = rootHashOf encode keccak emptyRootHash root' := by
  rw [rootHashOf, rootHashOf, ← Node.isEmpty_erase root, same, Node.isEmpty_erase, hashOf_congr same]

/--
Trie.Hash on a root with valid caches: the root hash computed afresh, and a
root that differs only in its flags and whose caches are valid.
-/
theorem trieHash_spec {root : Node} (valid : CacheValid encode keccak true root) :
    (trieHash encode keccak emptyRootHash root).1 = rootHashOf encode keccak emptyRootHash root ∧
      (trieHash encode keccak emptyRootHash root).2.erase = root.erase ∧
      CacheValid encode keccak true (trieHash encode keccak emptyRootHash root).2 := by
  cases root with
  | empty => exact ⟨rfl, rfl, trivial⟩
  | _ =>
      obtain ⟨hashed, erased, validCached⟩ := hash_spec _ true valid
      unfold trieHash rootHashOf
      rcases result : hash encode keccak _ true with ⟨collapsed, cached⟩
      rw [result] at hashed erased validCached
      rw [← hashed]
      cases collapsed <;> exact ⟨rfl, erased, validCached⟩

end Root

end Kardia.Trie
