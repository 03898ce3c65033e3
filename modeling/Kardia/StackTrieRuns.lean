import Kardia.StackTrie
import Kardia.TrieRuns

/-!
# The stack trie refines the trie on sorted keys

A stack trie node stands for a trie node (Sim) when it has the same shape,
with the terminator added to a leaf's key, or when it is hashed and keeps the
val the trie's hasher gives that node: its hash, or the encoding of an
embedded node.  hashRec of a node that stands for a trie node is that val
(hashRec_sim), so hashing elder siblings and displaced parts keeps Sim, and
Hash of the stack trie is the trie's root hash.

Insert keeps Sim as long as the new key comes after every key in the trie in
branching order (Fresh) and no hashed node lies on the path of the largest
keys (Live): the keys it must still reach are never below a hashed node.
Keys that arrive in increasing order, none a prefix of another, keep both.
DeriveSha's order gives such keys, so DeriveSha computes the same hash with a
stack trie as with a trie.
-/

namespace Kardia.Trie

open Rlp

/-- Whether a trie node is a short or a full node, one the hasher encodes. -/
def Node.isInner : Node → Bool
  | .short .. | .full .. => true
  | _ => false

section Simulation

variable (keccak : List UInt8 → List UInt8)

/-- The val a trie node gets when hashed as the stack trie hashes: its hash, or the encoding of an embedded node. -/
def valOf (t : Node) : List UInt8 :=
  match hashOf Collapsed.encode keccak t false with
  | .hash h => h
  | c => c.encode

/--
A stack trie node stands for a trie node: a leaf for a short node with the
terminated key leading to the value, an extension for a short node leading
to a full node, a branch for a full node with nil in slot 16, a hashed node
for a short or full node whose val it keeps.
-/
def Sim : StackTrie → Node → Prop
  | .empty, t => t = .empty
  | .leaf key val, t => ∃ flags, t = .short (key ++ [terminator]) (.value val) flags
  | .ext key child, t => ∃ tchild flags, t = .short key tchild flags ∧ tchild.isFull ∧ Sim child tchild
  | .branch children, t =>
      ∃ tchildren flags, t = .full tchildren flags ∧ children terminator = .empty ∧
        tchildren terminator = .empty ∧ ∀ i, i ≠ terminator → Sim (children i) (tchildren i)
  | .hashed val, t => t.isInner ∧ val = valOf keccak t

end Simulation

/-- No node on the path of the largest keys is hashed: insert can still reach them. -/
def Live : StackTrie → Prop
  | .ext _ child => Live child
  | .branch children => ∀ i, (∀ j, i < j → children j = .empty) → Live (children i)
  | .hashed _ => False
  | _ => True

/-- A key comes after every key under a trie node: each branches off to its left. -/
def Fresh (t : Node) (key : List Nibble) : Prop :=
  ∀ q, terminator ∉ q → (get t (q ++ [terminator])).isSome → Before q key

/-! ## Hashes -/

section Hashes

variable {keccak : List UInt8 → List UInt8}

/-- The val of a node the hasher collapses to c before toHash: the encoding of c, hashed from 32 bytes on. -/
theorem valOf_toHash {t : Node} {c : Collapsed} (notHash : ∀ h, c ≠ .hash h)
    (collapses : hashOf Collapsed.encode keccak t false = toHash Collapsed.encode keccak c false) :
    valOf keccak t = StackTrie.hashedVal keccak c.encode := by
  unfold valOf StackTrie.hashedVal
  rw [collapses]
  unfold toHash
  by_cases short : c.encode.length < 32
  · rw [if_pos ⟨short, rfl⟩, if_pos short]
    cases c with
    | hash h => exact absurd rfl (notHash h)
    | _ => rfl
  · rw [if_neg fun embedded => short embedded.1, if_neg short]

/-- A short or full node collapses to a node that is not a hash, forced or not. -/
theorem inner_collapses {t : Node} (inner : t.isInner) :
    ∃ c : Collapsed, (∀ h, c ≠ .hash h) ∧
      ∀ force, hashOf Collapsed.encode keccak t force = toHash Collapsed.encode keccak c force := by
  cases t with
  | short key val flags =>
      refine ⟨_, ?_, fun _ => rfl⟩
      intro h same
      cases same
  | full children flags =>
      refine ⟨_, ?_, fun _ => rfl⟩
      intro h same
      cases same
  | empty => cases inner
  | value bytes => cases inner

/-- A hashed child in its parent's encoding is what the trie's hasher puts there. -/
theorem childEncoding_valOf (hashLength : ∀ b, (keccak b).length = 32) {t : Node} (inner : t.isInner) :
    StackTrie.childEncoding (valOf keccak t) = (hashOf Collapsed.encode keccak t false).encode := by
  obtain ⟨c, notHash, collapses⟩ := inner_collapses inner
  rw [valOf_toHash notHash (collapses false), collapses false]
  unfold StackTrie.hashedVal StackTrie.childEncoding toHash
  by_cases short : c.encode.length < 32
  · simp [short]
  · simp [short, hashLength, Collapsed.encode]

theorem Sim.isEmpty_eq {st : StackTrie} {t : Node} (sim : Sim keccak st t) : st.isEmpty = t.isEmpty := by
  cases st with
  | empty =>
      obtain rfl : t = .empty := sim
      rfl
  | leaf key val =>
      obtain ⟨flags, rfl⟩ := sim
      rfl
  | ext key child =>
      obtain ⟨tchild, flags, rfl, -⟩ := sim
      rfl
  | branch children =>
      obtain ⟨tchildren, flags, rfl, -⟩ := sim
      rfl
  | hashed val =>
      obtain ⟨inner, -⟩ := sim
      cases t <;> first | rfl | cases inner

theorem Sim.isInner {st : StackTrie} {t : Node} (sim : Sim keccak st t) (nonempty : st.isEmpty = false) :
    t.isInner := by
  cases st with
  | empty => cases nonempty
  | leaf key val =>
      obtain ⟨flags, rfl⟩ := sim
      rfl
  | ext key child =>
      obtain ⟨tchild, flags, rfl, -⟩ := sim
      rfl
  | branch children =>
      obtain ⟨tchildren, flags, rfl, -⟩ := sim
      rfl
  | hashed val => exact sim.1

/-- The stack trie child of a full trie node is not nil. -/
theorem Sim.isEmpty_of_isFull {st : StackTrie} {t : Node} (sim : Sim keccak st t) (isFull : t.isFull) :
    st.isEmpty = false := by
  rw [sim.isEmpty_eq]
  cases t <;> first | rfl | cases isFull

/-- hashRec of a node that stands for a trie node is the val the trie's hasher gives it. -/
theorem hashRec_sim (hashLength : ∀ b, (keccak b).length = 32) :
    ∀ {st : StackTrie} {t : Node}, Sim keccak st t → st.isEmpty = false → StackTrie.hashRec keccak st = valOf keccak t := by
  intro st
  induction st with
  | empty => intro t _ nonempty; cases nonempty
  | hashed val => intro t sim _; exact sim.2
  | leaf key val =>
      intro t sim _
      obtain ⟨flags, rfl⟩ := sim
      rw [valOf_toHash (by intro h same; cases same) rfl]
      rfl
  | ext key child childHypothesis =>
      intro t sim _
      obtain ⟨tchild, flags, rfl, isFull, simChild⟩ := sim
      rw [valOf_toHash (by intro h same; cases same) rfl]
      have nonempty := simChild.isEmpty_of_isFull isFull
      simp only [StackTrie.hashRec, childHypothesis simChild nonempty,
        childEncoding_valOf hashLength (simChild.isInner nonempty)]
      rfl
  | branch children childHypothesis =>
      intro t sim _
      obtain ⟨tchildren, flags, rfl, -, tAtEnd, simChildren⟩ := sim
      rw [valOf_toHash (by intro h same; cases same) rfl]
      simp only [StackTrie.hashRec, Collapsed.encode]
      congr 3
      funext i
      by_cases atEnd : i = terminator
      · -- fullNode's slot 16 is nil in both
        subst atEnd
        simp [tAtEnd, leafCollapsed, Collapsed.encode]
      · have simChild := simChildren i atEnd
        rw [if_neg atEnd, if_neg atEnd, ← simChild.isEmpty_eq]
        cases nonempty : (children i).isEmpty
        · simp only [Bool.false_eq_true, if_false]
          rw [childHypothesis i simChild nonempty, childEncoding_valOf hashLength (simChild.isInner nonempty)]
        · -- a nil child is nilValueNode in both
          rfl

/-- Hashing a node keeps what it stands for. -/
theorem Sim.hash (hashLength : ∀ b, (keccak b).length = 32) {st : StackTrie} {t : Node}
    (sim : Sim keccak st t) (nonempty : st.isEmpty = false) : Sim keccak (StackTrie.hash keccak st) t :=
  ⟨sim.isInner nonempty, hashRec_sim hashLength sim nonempty⟩

/-- Hash of a stack trie is the root hash of the trie it stands for. -/
theorem stackTrieHash_sim (hashLength : ∀ b, (keccak b).length = 32) {st : StackTrie} {t : Node}
    (sim : Sim keccak st t) :
    StackTrie.stackTrieHash keccak st = rootHashOf Collapsed.encode keccak State.emptyRootHash.bytes t := by
  cases nonempty : st.isEmpty
  · obtain ⟨c, notHash, collapses⟩ := inner_collapses (sim.isInner nonempty)
    have occupied : t.isEmpty = false := by rw [← sim.isEmpty_eq, nonempty]
    unfold StackTrie.stackTrieHash rootHashOf
    rw [hashRec_sim hashLength sim nonempty, valOf_toHash notHash (collapses false), collapses true,
      if_neg (show ¬ t.isEmpty = true by simp [occupied])]
    unfold StackTrie.hashedVal toHash
    by_cases short : c.encode.length < 32
    · simp [short, show c.encode.length ≠ 32 by omega]
    · simp [short, hashLength]
  · -- an empty stack trie and an empty trie both hash to EmptyRootHash
    have empty : st = .empty := by cases st <;> first | rfl | cases nonempty
    subst empty
    obtain rfl : t = .empty := sim
    simp [StackTrie.stackTrieHash, StackTrie.hashRec, rootHashOf, Node.isEmpty, Hash.bytes]

end Hashes

/-! ## Trie insertion, up to flags -/

section TrieInsert

variable {value : Node}

theorem insertNil_of_ne_nil {key : List Nibble} (nonempty : key ≠ []) (val : Node) :
    insertNil key val = .short key val newFlag := by
  obtain ⟨k, ks, rfl⟩ := List.exists_cons_of_ne_nil nonempty
  rfl

/-- Trie.insert into nil: a short node with the whole key. -/
theorem insert_empty_snd {path : List Nibble} (nonempty : path ≠ []) :
    (insert .empty path value).2 = .short path value newFlag := by
  obtain ⟨k, ks, rfl⟩ := List.exists_cons_of_ne_nil nonempty
  rfl

/-- Trie.insert below a full node: the child at the first nibble replaced, under new or old flags. -/
theorem insert_full_snd (children : Nibble → Node) (flags : NodeFlag) (k : Nibble) (ks : List Nibble) (value : Node) :
    ∃ flags', (insert (.full children flags) (k :: ks) value).2 =
      .full (Function.update children k (insert (children k) ks value).2) flags' := by
  simp only [insert]
  rcases inserted : insert (children k) ks value with ⟨_ | _, nn⟩
  · -- a clean insertion leaves the child as it was
    have same := insert_clean (children k) ks value (by rw [inserted])
    rw [inserted] at same
    exact ⟨flags, by rw [same, Function.update_eq_self]⟩
  · exact ⟨newFlag, rfl⟩

/-- Trie.insert through a short node whose key the path extends, under new or old flags. -/
theorem insert_short_prefix_snd (key rest : List Nibble) (val : Node) (flags : NodeFlag) (nonempty : rest ≠ []) :
    ∃ flags', (insert (.short key val flags) (key ++ rest) value).2 = .short key (insert val rest value).2 flags' := by
  obtain ⟨k, ks, path⟩ : ∃ k ks, key ++ rest = k :: ks := List.exists_cons_of_ne_nil (by simp [nonempty])
  have whole : prefixLen (k :: ks) key = key.length :=
    (prefixLen_eq_length_iff _ _).mpr (path ▸ List.prefix_append key rest)
  have dropped : (k :: ks).drop key.length = rest := by rw [← path, List.drop_left]
  rw [path]
  simp only [insert, whole, dropped, ↓reduceIte]
  rcases inserted : insert val rest value with ⟨_ | _, nn⟩
  · have same := insert_clean val rest value (by rw [inserted])
    rw [inserted] at same
    obtain rfl : nn = val := same
    exact ⟨flags, rfl⟩
  · exact ⟨newFlag, rfl⟩

theorem prefixLen_part (common : List Nibble) {x y : Nibble} (differ : x ≠ y) (restA restB : List Nibble) :
    prefixLen (common ++ x :: restA) (common ++ y :: restB) = common.length := by
  induction common with
  | nil => simp [prefixLen, differ]
  | cons z common inductionHypothesis => simp [prefixLen, inductionHypothesis]

/-- Trie.insert where a short node's key and the path part inside the key. -/
theorem insert_short_part_snd (common : List Nibble) {x y : Nibble} (differ : x ≠ y) (restS restP : List Nibble)
    (val : Node) (flags : NodeFlag) :
    (insert (.short (common ++ x :: restS) val flags) (common ++ y :: restP) value).2 =
      insertNil common (branchOut x (insertNil restS val) y (insertNil restP value)) := by
  have parts := prefixLen_part common differ.symm restP restS
  obtain ⟨k, ks, path⟩ : ∃ k ks, common ++ y :: restP = k :: ks := List.exists_cons_of_ne_nil (by simp)
  rw [path, insert_short_split (by rw [← path, parts]; simp)]
  simp [← path, parts]

/-- Inserting into a full node leaves a full node. -/
theorem isFull_insert_of_isFull {n : Node} (isFull : n.isFull) {path : List Nibble} (nonempty : path ≠ []) :
    (insert n path value).2.isFull := by
  obtain ⟨k, ks, rfl⟩ := List.exists_cons_of_ne_nil nonempty
  cases n with
  | full children flags => exact isFull_insert_full children flags k ks value
  | _ => cases isFull

end TrieInsert

/-! ## Insertion -/

section Insert

variable {keccak : List UInt8 → List UInt8}

theorem getDiffIndex_part (common : List Nibble) {x y : Nibble} (differ : x ≠ y) (restA restB : List Nibble) :
    StackTrie.getDiffIndex (common ++ x :: restA) (common ++ y :: restB) = some common.length := by
  induction common with
  | nil => simp [StackTrie.getDiffIndex, differ]
  | cons z common inductionHypothesis => simp [StackTrie.getDiffIndex, inductionHypothesis]

theorem getDiffIndex_prefix (stKey rest : List Nibble) :
    StackTrie.getDiffIndex stKey (stKey ++ rest) = some stKey.length := by
  induction stKey with
  | nil => rfl
  | cons z stKey inductionHypothesis => simp [StackTrie.getDiffIndex, inductionHypothesis]

/-- The elder-sibling loop started at n leaves the children from n on as they were. -/
theorem hashElder_of_le (children : Nibble → StackTrie) :
    ∀ (n : Nat) (i : Nibble), n ≤ i.val → StackTrie.hashElder keccak children n i = children i
  | 0, _, _ => rfl
  | n + 1, i, le => by
      have other : i ≠ Nibble.ofNat n := by
        intro same
        rw [same] at le
        simp [Nibble.ofNat] at le
        omega
      simp only [StackTrie.hashElder]
      split_ifs
      · exact hashElder_of_le children n i (by omega)
      · rw [Function.update_of_ne other]

/-- The elder-sibling loop hashes only children that are there. -/
theorem hashElder_isEmpty (children : Nibble → StackTrie) :
    ∀ (n : Nat) (i : Nibble), (StackTrie.hashElder keccak children n i).isEmpty = (children i).isEmpty
  | 0, _ => rfl
  | n + 1, i => by
      simp only [StackTrie.hashElder]
      split_ifs with empty
      · exact hashElder_isEmpty children n i
      · by_cases same : i = Nibble.ofNat n
        · subst same
          rw [Function.update_self, Bool.eq_false_iff.mpr empty]
          rfl
        · rw [Function.update_of_ne same]

/-- The elder-sibling loop keeps what each child stands for. -/
theorem Sim.hashElder (hashLength : ∀ b, (keccak b).length = 32) {children : Nibble → StackTrie}
    {tchildren : Nibble → Node} (sims : ∀ i, i ≠ terminator → Sim keccak (children i) (tchildren i)) :
    ∀ (n : Nat) (i : Nibble), i ≠ terminator → Sim keccak (StackTrie.hashElder keccak children n i) (tchildren i)
  | 0, i, ok => sims i ok
  | n + 1, i, ok => by
      simp only [StackTrie.hashElder]
      split_ifs with empty
      · exact Sim.hashElder hashLength sims n i ok
      · by_cases same : i = Nibble.ofNat n
        · subst same
          rw [Function.update_self]
          exact (sims _ ok).hash hashLength (Bool.eq_false_iff.mpr empty)
        · rw [Function.update_of_ne same]
          exact sims i ok

/-- insert below a branch: the child at the first nibble takes the rest of the key, after the elder siblings are hashed. -/
theorem insert_branch (children : Nibble → StackTrie) (idx : Nibble) (rest : List Nibble) (value : List UInt8) :
    StackTrie.insert keccak (.branch children) (idx :: rest) value =
      (StackTrie.insert keccak (children idx) rest value).map fun child =>
        .branch (Function.update (StackTrie.hashElder keccak children idx.val) idx child) := by
  by_cases empty : (children idx).isEmpty
  · -- a nil child takes a new leaf, which is what insert into an empty node gives
    have nil : children idx = .empty := by
      cases child : children idx <;> simp_all [StackTrie.isEmpty]
    simp [StackTrie.insert, nil]
  · simp [StackTrie.insert, empty]

/-- A branch whose last child is there and live is live. -/
theorem live_of_last {children : Nibble → StackTrie} {y : Nibble} (occupied : (children y).isEmpty = false)
    (liveY : Live (children y)) (beyond : ∀ j, y < j → children j = .empty) : Live (.branch children) := by
  intro i allAbove
  rcases lt_trichotomy i y with below | rfl | after
  · rw [allAbove y below] at occupied
    cases occupied
  · exact liveY
  · rw [beyond i after]
    trivial

/-- What an extension or a leaf becomes at a split is not empty. -/
theorem split_isEmpty (stKey : List Nibble) (diffidx : Nat) (n : StackTrie) (newIdx : Nibble) (o : StackTrie) :
    (StackTrie.split stKey diffidx n newIdx o).isEmpty = false := by
  unfold StackTrie.split
  split_ifs <;> rfl

/--
A split stands for the trie's branchOut below the common part: the displaced
part at the smaller nibble, the new leaf at the larger and live.
-/
theorem sim_split (common restS : List Nibble) {x y : Nibble} (lt : x < y) (yOk : y ≠ terminator)
    {n o : StackTrie} {tn tl : Node} (simN : Sim keccak n tn) (simO : Sim keccak o tl) (liveO : Live o)
    (occupiedO : o.isEmpty = false) :
    Sim keccak (StackTrie.split (common ++ x :: restS) common.length n y o)
        (insertNil common (branchOut x tn y tl)) ∧
      Live (StackTrie.split (common ++ x :: restS) common.length n y o) := by
  have xOk : x ≠ terminator := by
    intro atEnd
    have below : x.val < y.val := lt
    have := y.isLt
    rw [atEnd] at below
    simp only [terminator, Fin.isValue] at below
    omega
  have simBranch : Sim keccak (.branch (Function.update (Function.update (fun _ => .empty) x n) y o))
      (branchOut x tn y tl) := by
    refine ⟨_, newFlag, rfl, ?_, ?_, ?_⟩
    · rw [Function.update_of_ne yOk.symm, Function.update_of_ne xOk.symm]
    · rw [Function.update_of_ne yOk.symm, Function.update_of_ne xOk.symm]
    · intro i _
      by_cases atY : i = y
      · subst atY
        simp only [Function.update_self]
        exact simO
      · by_cases atX : i = x
        · subst atX
          simp only [Function.update_of_ne atY, Function.update_self]
          exact simN
        · simp only [Function.update_of_ne atY, Function.update_of_ne atX]
          rfl
  have liveBranch : Live (.branch (Function.update (Function.update (fun _ => .empty) x n) y o)) := by
    apply live_of_last
    · rw [Function.update_self]
      exact occupiedO
    · rw [Function.update_self]
      exact liveO
    · intro j after
      rw [Function.update_of_ne (ne_of_gt after), Function.update_of_ne (ne_of_gt (lt.trans after))]
  unfold StackTrie.split
  simp only [List.getD_eq_getElem?_getD, List.getElem?_append_right (le_refl _), Nat.sub_self,
    List.getElem?_cons_zero, Option.getD_some, List.take_left']
  cases common with
  | nil => exact ⟨simBranch, liveBranch⟩
  | cons z common => exact ⟨⟨_, newFlag, rfl, rfl, simBranch⟩, liveBranch⟩

/-- insert into a leaf whose key parts from the new key inside it. -/
theorem insert_sim_leaf (hashLength : ∀ b, (keccak b).length = 32) (common : List Nibble) {x y : Nibble}
    (lt : x < y) (yOk : y ≠ terminator) (restS restK : List Nibble) (stVal value : List UInt8) (flags : NodeFlag) :
    ∃ st', StackTrie.insert keccak (.leaf (common ++ x :: restS) stVal) (common ++ y :: restK) value = some st' ∧
      Sim keccak st'
        (insert (.short (common ++ x :: restS ++ [terminator]) (.value stVal) flags)
          (common ++ y :: restK ++ [terminator]) (.value value)).2 ∧
      Live st' ∧ st'.isEmpty = false := by
  have differ : x ≠ y := ne_of_lt lt
  have simLeaf : ∀ (key : List Nibble) (val : List UInt8),
      Sim keccak (.leaf key val) (.short (key ++ [terminator]) (.value val) newFlag) :=
    fun _ _ => ⟨newFlag, rfl⟩
  obtain ⟨simSplit, liveSplit⟩ :=
    sim_split common restS lt yOk ((simLeaf restS stVal).hash hashLength rfl) (simLeaf restK value) trivial rfl
  refine ⟨_, ?_, ?_, liveSplit, split_isEmpty _ _ _ _ _⟩
  · simp [StackTrie.insert, getDiffIndex_part common differ]
  · simp only [List.append_assoc, List.cons_append]
    rw [insert_short_part_snd common differ, insertNil_of_ne_nil (show restS ++ [terminator] ≠ [] by simp),
      insertNil_of_ne_nil (show restK ++ [terminator] ≠ [] by simp)]
    exact simSplit

/-- insert into an extension whose key parts from the new key inside it. -/
theorem insert_sim_ext_part (hashLength : ∀ b, (keccak b).length = 32) (common : List Nibble) {x y : Nibble}
    (lt : x < y) (yOk : y ≠ terminator) (restS restK : List Nibble) {child : StackTrie} {tchild : Node}
    (flags : NodeFlag) (value : List UInt8) (isFull : tchild.isFull) (simChild : Sim keccak child tchild) :
    ∃ st', StackTrie.insert keccak (.ext (common ++ x :: restS) child) (common ++ y :: restK) value = some st' ∧
      Sim keccak st'
        (insert (.short (common ++ x :: restS) tchild flags) (common ++ y :: restK ++ [terminator]) (.value value)).2 ∧
      Live st' ∧ st'.isEmpty = false := by
  have differ : x ≠ y := ne_of_lt lt
  have occupiedChild := simChild.isEmpty_of_isFull isFull
  -- the displaced part: the rest of the extension above its child, or the child itself
  have simDisplaced : Sim keccak
      (if common.length < (common ++ x :: restS).length - 1 then
        StackTrie.hash keccak (.ext ((common ++ x :: restS).drop (common.length + 1)) child)
      else StackTrie.hash keccak child) (insertNil restS tchild) := by
    cases restS with
    | nil =>
        have atLast : ¬ common.length < (common ++ [x]).length - 1 := by simp
        rw [if_neg atLast]
        exact simChild.hash hashLength occupiedChild
    | cons z restS =>
        have beforeLast : common.length < (common ++ x :: z :: restS).length - 1 := by simp
        have rest : (common ++ x :: z :: restS).drop (common.length + 1) = z :: restS := by simp
        rw [if_pos beforeLast, rest]
        exact (show Sim keccak (.ext (z :: restS) child) (.short (z :: restS) tchild newFlag) from
          ⟨tchild, newFlag, rfl, isFull, simChild⟩).hash hashLength rfl
  obtain ⟨simSplit, liveSplit⟩ :=
    sim_split common restS lt yOk simDisplaced
      (show Sim keccak (.leaf restK value) (.short (restK ++ [terminator]) (.value value) newFlag) from
        ⟨newFlag, rfl⟩) trivial rfl
  refine ⟨_, ?_, ?_, liveSplit, split_isEmpty _ _ _ _ _⟩
  · simp [StackTrie.insert, getDiffIndex_part common differ]
  · simp only [List.append_assoc, List.cons_append]
    rw [insert_short_part_snd common differ, insertNil_of_ne_nil (show restK ++ [terminator] ≠ [] by simp)]
    exact simSplit

/-- A terminated key in hex form has no terminator before its last nibble. -/
theorem not_mem_of_terminated {key : List Nibble} (terminated : Terminated (key ++ [terminator])) :
    terminator ∉ key := by
  obtain ⟨nibbles, absent, same⟩ := terminated
  rw [List.append_cancel_right same]
  exact absent

/--
insert keeps Sim: a node that stands for a trie node, with no hashed node on
the path of its largest keys, takes a key that comes after all of its keys
and stands for the trie node after Trie.insert.  The induction follows the
node: the key goes on below a branch's child at its first nibble or below an
extension whose key it extends, and splits a leaf or an extension where it
parts from the node's key.
-/
theorem insert_sim (hashLength : ∀ b, (keccak b).length = 32) (value : List UInt8) :
    ∀ (st : StackTrie) {t : Node} {key : List Nibble}, Sim keccak st t → Live st → CanonicalOrNil t →
      terminator ∉ key → Fresh t key →
      ∃ st', StackTrie.insert keccak st key value = some st' ∧
        Sim keccak st' (insert t (key ++ [terminator]) (.value value)).2 ∧ Live st' ∧ st'.isEmpty = false := by
  intro st
  induction st with
  | empty =>
      intro t key sim _ _ _ _
      obtain rfl : t = .empty := sim
      refine ⟨.leaf key value, rfl, ?_, trivial, rfl⟩
      rw [insert_empty_snd (by simp)]
      exact ⟨newFlag, rfl⟩
  | hashed val =>
      intro t key _ live
      exact live.elim
  | leaf stKey stVal =>
      intro t key sim _ shape outside fresh
      obtain ⟨flags, rfl⟩ := sim
      -- the leaf holds its own key, which comes before the new one
      have stOutside : terminator ∉ stKey := by
        rcases shape.resolve_left (by simp [Node.isEmpty]) with ⟨terminated, -⟩ | ⟨-, -, isFull, -⟩
        · exact not_mem_of_terminated terminated
        · cases isFull
      obtain ⟨common, x, y, restS, restK, lt, rfl, rfl⟩ := fresh stKey stOutside (by simp [get])
      exact insert_sim_leaf hashLength common lt (fun atEnd => outside (by simp [← atEnd])) restS restK stVal value flags
  | ext stKey child childHypothesis =>
      intro t key sim live shape outside fresh
      obtain ⟨tchild, flags, rfl, isFull, simChild⟩ := sim
      -- a short node above a full node: a key without the terminator, over a canonical full node
      obtain ⟨-, stOutside, -, canonicalChild⟩ : stKey ≠ [] ∧ terminator ∉ stKey ∧ tchild.isFull ∧ Canonical tchild := by
        rcases shape.resolve_left (by simp [Node.isEmpty]) with ⟨-, bytes, -, rfl⟩ | extension
        · cases isFull
        · exact extension
      -- some key below the extension comes before the new key
      obtain ⟨path, ⟨q, qOutside, rfl⟩, found⟩ := canonicalChild.exists_get
      have before : Before (stKey ++ q) key :=
        fresh (stKey ++ q) (by simp [stOutside, qOutside]) (by simpa [get_short] using found)
      rcases before.of_append_left with ⟨rest, rfl, -⟩ | ⟨common, x, y, restS, restK, lt, rfl, rfl⟩
      · -- the key runs through the extension: it goes on below
        have freshChild : Fresh tchild rest := by
          intro q' qOutside' found'
          exact (Before.append_iff stKey).mp
            (fresh (stKey ++ q') (by simp [stOutside, qOutside']) (by simpa [get_short] using found'))
        obtain ⟨st', inserted, sim', live', -⟩ :=
          childHypothesis simChild live (Or.inr canonicalChild) (fun inRest => outside (by simp [inRest])) freshChild
        obtain ⟨flags', trieEq⟩ := insert_short_prefix_snd stKey (rest ++ [terminator]) tchild flags (by simp)
        refine ⟨.ext stKey st', ?_, ?_, live', rfl⟩
        · simp [StackTrie.insert, getDiffIndex_prefix, inserted]
        · rw [List.append_assoc, trieEq]
          exact ⟨_, flags', rfl, isFull_insert_of_isFull isFull (by simp), sim'⟩
      · exact insert_sim_ext_part hashLength common lt (fun atEnd => outside (by simp [← atEnd])) restS restK
          flags value isFull simChild
  | branch children childHypothesis =>
      intro t key sim live shape outside fresh
      obtain ⟨tchildren, flags, rfl, atEnd, tAtEnd, simChildren⟩ := sim
      have canonical : Canonical (.full tchildren flags) := shape.resolve_left (by simp [Node.isEmpty])
      -- the trie holds a key, which comes before the new one, so the new key is not used up
      obtain ⟨path, ⟨q, qOutside, rfl⟩, found⟩ := canonical.exists_get
      obtain ⟨idx, rest, rfl⟩ := List.exists_cons_of_ne_nil (fresh q qOutside found).ne_nil_right
      have idxOk : idx ≠ terminator := fun atIdx => outside (by simp [atIdx])
      -- no child lies beyond idx: its keys would come after the new key
      have beyond : ∀ j, idx < j → children j = .empty := by
        intro j after
        cases occupied : (children j).isEmpty
        · have jOk : j ≠ terminator := fun atJ => by rw [atJ, atEnd] at occupied; cases occupied
          have tOccupied : (tchildren j).isEmpty = false := by rw [← (simChildren j jOk).isEmpty_eq, occupied]
          obtain ⟨path', terminated, found'⟩ :=
            canonical.entry_of_child tOccupied fun _ canonicalChild => canonicalChild.exists_get
          obtain ⟨q', qOutside', rfl⟩ := terminated.of_cons jOk
          have before := fresh (j :: q') (by simp [Ne.symm jOk, qOutside']) found'
          rcases Before.cons_cons_iff.mp before with below | ⟨same, -⟩
          · exact absurd (after.trans below) (lt_irrefl idx)
          · exact absurd after (by rw [same]; exact lt_irrefl idx)
        · cases child : children j <;> simp_all [StackTrie.isEmpty]
      have freshChild : Fresh (tchildren idx) rest := by
        intro q' qOutside' found'
        have before := fresh (idx :: q') (by simp [Ne.symm idxOk, qOutside']) (by simpa [get] using found')
        exact ((Before.cons_cons_iff.mp before).resolve_left (lt_irrefl idx)).2
      obtain ⟨st', inserted, sim', live', occupied'⟩ :=
        childHypothesis idx (simChildren idx idxOk) (live idx beyond) (canonical.1 idx idxOk)
          (fun inRest => outside (by simp [inRest])) freshChild
      obtain ⟨flags', trieEq⟩ := insert_full_snd tchildren flags idx (rest ++ [terminator]) (.value value)
      refine ⟨_, by rw [insert_branch, inserted]; rfl, ?_, ?_, rfl⟩
      · rw [List.cons_append, trieEq]
        refine ⟨_, flags', rfl, ?_, ?_, ?_⟩
        · -- slot 16 stays nil
          rw [Function.update_of_ne (Ne.symm idxOk), hashElder_of_le children idx.val terminator (Nat.le_of_lt_succ idx.isLt)]
          exact atEnd
        · rw [Function.update_of_ne (Ne.symm idxOk)]
          exact tAtEnd
        · intro i iOk
          by_cases atIdx : i = idx
          · subst atIdx
            rw [Function.update_self, Function.update_self]
            exact sim'
          · rw [Function.update_of_ne atIdx, Function.update_of_ne atIdx]
            exact Sim.hashElder hashLength simChildren idx.val i iOk
      · apply live_of_last
        · rw [Function.update_self]
          exact occupied'
        · rw [Function.update_self]
          exact live'
        · intro j after
          rw [Function.update_of_ne (ne_of_gt after), hashElder_of_le children idx.val j (le_of_lt after)]
          exact beyond j after

end Insert

/-! ## Runs of Update -/

section Runs

variable {keccak : List UInt8 → List UInt8}

/-- A key's hex form is its nibbles, then the terminator. -/
theorem dropLast_keybytesToHex (key : List UInt8) :
    (keybytesToHex key).dropLast ++ [terminator] = keybytesToHex key := by
  simp [keybytesToHex]

theorem terminator_not_mem_dropLast (key : List UInt8) : terminator ∉ (keybytesToHex key).dropLast := by
  simp only [keybytesToHex, List.dropLast_concat, List.mem_flatMap, List.mem_cons, List.not_mem_nil, or_false,
    not_exists, not_and]
  intro b _ atNibble
  rcases atNibble with high | low
  · have := congrArg Fin.val high
    simp only [terminator, Fin.isValue] at this
    have := b.toNat_lt
    omega
  · have := congrArg Fin.val low
    simp only [terminator, Fin.isValue] at this
    omega

/-- Keys in branching order byte by byte are in branching order nibble by nibble. -/
theorem before_keybytesToHex {a b : List UInt8} (before : Before a b) :
    Before (keybytesToHex a).dropLast (keybytesToHex b).dropLast := by
  simp only [keybytesToHex, List.dropLast_concat]
  apply before.flatMap
  intro x y lt
  rw [UInt8.lt_iff_toNat_lt] at lt
  by_cases high : x.toNat / 16 < y.toNat / 16
  · exact Before.of_head_lt (Fin.mk_lt_mk.mpr high) _ _
  · -- the high nibbles agree, so the low ones are ordered
    rw [Before.cons_cons_iff]
    exact .inr ⟨Fin.ext (by simp only; omega), Before.of_head_lt (Fin.mk_lt_mk.mpr (by omega)) [] []⟩

/-- Update on both tries keeps Sim when the key comes after every key the trie holds. -/
theorem update_sim (hashLength : ∀ b, (keccak b).length = 32) {st : StackTrie} {t : Node}
    {entries : List UInt8 → Option (List UInt8)} (sim : Sim keccak st t) (live : Live st)
    (holds : Represents Collapsed.encode keccak entries t) {key value : List UInt8} (nonempty : value ≠ [])
    (ahead : ∀ key', (entries key').isSome → Before key' key) :
    ∃ st', StackTrie.update keccak st key value = some st' ∧ Sim keccak st' (update t key value) ∧ Live st' := by
  -- every key in the trie is some key's hex form, which comes before the new key's
  have fresh : Fresh t (keybytesToHex key).dropLast := by
    intro q qOutside found
    obtain ⟨key', same⟩ := holds.keyed _ ⟨q, qOutside, rfl⟩ found
    have present : (entries key').isSome := by rw [← holds.get_key, ← same]; exact found
    have before := before_keybytesToHex (ahead key' present)
    rwa [← same, List.dropLast_concat] at before
  obtain ⟨st', inserted, sim', live', -⟩ :=
    insert_sim hashLength value st sim live holds.shape (terminator_not_mem_dropLast key) fresh
  refine ⟨st', by simp [StackTrie.update, nonempty, inserted], ?_, live'⟩
  rw [dropLast_keybytesToHex] at sim'
  simpa [update, nonempty] using sim'

/--
A run of Updates with keys in branching order, each after every key already
in the trie, never panics and keeps the stack trie standing for the trie,
which holds the map the Updates leave.  The induction is on the entries.
-/
theorem updates_sim (hashLength : ∀ b, (keccak b).length = 32) :
    ∀ (entries : List (List UInt8 × List UInt8)) {st : StackTrie} {t : Node} {m : List UInt8 → Option (List UInt8)},
      Sim keccak st t → Live st → Represents Collapsed.encode keccak m t →
      (entries.map Prod.fst).Pairwise Before → (∀ entry ∈ entries, entry.2 ≠ []) →
      (∀ entry ∈ entries, ∀ key, (m key).isSome → Before key entry.1) →
      ∃ st', entries.foldlM (fun st entry => StackTrie.update keccak st entry.1 entry.2) st = some st' ∧
        ∃ m', Sim keccak st' (entries.foldl (fun t entry => update t entry.1 entry.2) t) ∧
          Represents Collapsed.encode keccak m' (entries.foldl (fun t entry => update t entry.1 entry.2) t)
  | [], st, _, m, sim, _, holds, _, _, _ => ⟨st, rfl, m, sim, holds⟩
  | (key, value) :: entries, _, _, m, sim, live, holds, sorted, nonempty, ahead => by
      obtain ⟨st', updated, sim', live'⟩ :=
        update_sim hashLength sim live holds (nonempty _ List.mem_cons_self) (ahead _ List.mem_cons_self)
      rw [List.map_cons, List.pairwise_cons] at sorted
      -- the keys held after this Update come before every later key
      have ahead' : ∀ entry ∈ entries, ∀ key',
          (Function.update m key (if value = [] then none else some value) key').isSome → Before key' entry.1 := by
        intro entry member key' present
        by_cases same : key' = key
        · subst same
          exact sorted.1 _ (List.mem_map_of_mem member)
        · rw [Function.update_of_ne same] at present
          exact ahead entry (List.mem_cons_of_mem _ member) key' present
      obtain ⟨st'', rest, result⟩ :=
        updates_sim hashLength entries sim' live' (holds.update key value) sorted.2
          (fun entry member => nonempty entry (List.mem_cons_of_mem _ member)) ahead'
      exact ⟨st'', by simp [List.foldlM_cons, updated, rest], result⟩

/--
A stack trie fed keys in branching order with nonempty values never panics,
and its Hash is the Hash of an empty trie after the same Updates.
-/
theorem updateAll_hash (hashLength : ∀ b, (keccak b).length = 32) (entries : List (List UInt8 × List UInt8))
    (sorted : (entries.map Prod.fst).Pairwise Before) (nonempty : ∀ entry ∈ entries, entry.2 ≠ []) :
    ∃ st, StackTrie.updateAll keccak entries = some st ∧
      StackTrie.stackTrieHash keccak st =
        (trieHash Collapsed.encode keccak State.emptyRootHash.bytes
          (run Collapsed.encode keccak State.emptyRootHash.bytes
            (entries.map fun entry => .update entry.1 entry.2))).1 := by
  obtain ⟨st, updated, m, sim, holds⟩ :=
    updates_sim hashLength entries (show Sim keccak .empty .empty from rfl) trivial represents_empty sorted
      nonempty (fun _ _ _ present => absurd present (by simp))
  refine ⟨st, updated, ?_⟩
  have runs : run Collapsed.encode keccak State.emptyRootHash.bytes (entries.map fun entry => .update entry.1 entry.2) =
      entries.foldl (fun t entry => update t entry.1 entry.2) .empty := by
    simp only [run, List.foldl_map, apply]
  rw [runs, (trieHash_spec holds.caches).1, stackTrieHash_sim hashLength sim]

end Runs

/-! ## DeriveSha -/

section DeriveSha

variable {keccak : List UInt8 → List UInt8}

theorem lt_of_mem_deriveOrder {len i : Nat} (member : i ∈ deriveOrder len) : i < len := by
  simp only [deriveOrder, List.mem_append, List.mem_range'_1] at member
  rcases member with (first | zero) | last
  · omega
  · split_ifs at zero with positive
    · simp only [List.mem_singleton] at zero
      omega
    · cases zero
  · omega

/-- DeriveSha's order hands the hasher its keys in branching order. -/
theorem deriveOrder_before (len : Nat) (below : len ≤ 2 ^ 64) :
    ((deriveOrder len).map (appendUint64 [])).Pairwise Before := by
  rw [List.pairwise_map]
  unfold deriveOrder
  have first : ∀ i ∈ List.range' 1 (min (len - 1) 0x7f), 0 < i ∧ i < 128 := by
    intro i member
    simp only [List.mem_range'_1] at member
    omega
  have last : ∀ j ∈ List.range' 0x80 (len - 0x80), 128 ≤ j ∧ j < 2 ^ 64 := by
    intro j member
    simp only [List.mem_range'_1] at member
    omega
  have zero : ∀ k ∈ (if len > 0 then [0] else []), k = 0 := by
    intro k member
    split_ifs at member
    · simpa using member
    · cases member
  refine List.pairwise_append.mpr ⟨List.pairwise_append.mpr ⟨?_, ?_, ?_⟩, ?_, ?_⟩
  · -- 1 to 0x7f: single bytes in increasing order
    refine (List.pairwise_lt_range' 1).imp_of_mem fun {i j} memberI memberJ lt => ?_
    exact appendUint64_before (first i memberI).1 lt (by have := first j memberJ; omega)
  · split_ifs <;> simp
  · intro i memberI k memberK
    rw [zero k memberK]
    exact appendUint64_before_zero (first i memberI).1 (first i memberI).2
  · -- 0x80 and up: a byte count, then the bytes, in increasing order
    refine (List.pairwise_lt_range' 1).imp_of_mem fun {i j} memberI memberJ lt => ?_
    exact appendUint64_before (by have := last i memberI; omega) lt (last j memberJ).2
  · intro i memberI j memberJ
    rcases List.mem_append.mp memberI with memberI | memberK
    · exact appendUint64_before (first i memberI).1 (by have := first i memberI; have := last j memberJ; omega)
        (last j memberJ).2
    · rw [zero i memberK]
      exact appendUint64_zero_before (last j memberJ).1

/--
DeriveSha with NewStackTrie(nil) never panics and gives the hash DeriveSha
gives with an empty Trie, for lists of any length whose items encode to
nonempty bytes.
-/
theorem deriveSha_stackTrie (hashLength : ∀ b, (keccak b).length = 32) (list : DerivableList)
    (encoded : ∀ i < list.len, list.encodeIndex i ≠ []) :
    ∃ h, deriveSha list (stackTrieHasher keccak) = some h ∧ deriveSha list (trieHasher keccak) = some h := by
  set entries := (deriveOrder list.len).map fun i => (appendUint64 [] i, list.encodeIndex i) with entriesEq
  have keys : entries.map Prod.fst = (deriveOrder list.len).map (appendUint64 []) := by
    simp [entriesEq, Function.comp_def]
  have sorted : (entries.map Prod.fst).Pairwise Before := by
    rw [keys]
    exact deriveOrder_before list.len (by have := list.len_lt; omega)
  have nonempty : ∀ entry ∈ entries, entry.2 ≠ [] := by
    intro entry member
    obtain ⟨i, memberI, rfl⟩ := List.mem_map.mp member
    exact encoded i (lt_of_mem_deriveOrder memberI)
  obtain ⟨st, updated, hashEq⟩ := updateAll_hash hashLength entries sorted nonempty
  refine ⟨StackTrie.stackTrieHash keccak st, ?_, ?_⟩
  · have folded : (deriveOrder list.len).foldlM
        (fun s i => StackTrie.update keccak s (appendUint64 [] i) (list.encodeIndex i)) StackTrie.empty =
        StackTrie.updateAll keccak entries := by
      simp only [StackTrie.updateAll, entriesEq, List.foldlM_map]
    simp only [deriveSha, stackTrieHasher, folded, updated, Option.map_some]
  · rw [hashEq]
    simp only [deriveSha, trieHasher, run, entriesEq, List.foldl_map, apply]
    rw [show (fun s i => some (update s (appendUint64 [] i) (list.encodeIndex i)) : Node → Nat → Option Node) =
        fun s i => pure (update s (appendUint64 [] i) (list.encodeIndex i)) from rfl, List.foldlM_pure]
    rfl

end DeriveSha

/-! ## The stack trie refines the trie -/

theorem stackTrie_refines_trie_on_sorted_keys (keccak : List UInt8 → List UInt8)
    (hashLength : ∀ b, (keccak b).length = 32) :
    (∀ entries : List (List UInt8 × List UInt8), (entries.map Prod.fst).Pairwise (· < ·) →
      (∀ a ∈ entries.map Prod.fst, ∀ b ∈ entries.map Prod.fst, a <+: b → a = b) →
      (∀ entry ∈ entries, entry.2 ≠ []) →
      ∃ st, StackTrie.updateAll keccak entries = some st ∧
        StackTrie.stackTrieHash keccak st =
          (trieHash Collapsed.encode keccak State.emptyRootHash.bytes
            (run Collapsed.encode keccak State.emptyRootHash.bytes
              (entries.map fun entry => .update entry.1 entry.2))).1) ∧
    ∀ list : DerivableList, (∀ i < list.len, list.encodeIndex i ≠ []) →
      ∃ h, deriveSha list (stackTrieHasher keccak) = some h ∧ deriveSha list (trieHasher keccak) = some h := by
  refine ⟨fun entries increasing prefixFree nonempty => ?_, deriveSha_stackTrie hashLength⟩
  -- increasing keys none of which is a prefix of another are in branching order
  have sorted : (entries.map Prod.fst).Pairwise Before := by
    refine increasing.imp_of_mem fun {a b} memberA memberB lt => Before.of_lt_of_not_prefix lt fun pre => ?_
    rw [prefixFree a memberA b memberB pre] at lt
    exact List.lt_irrefl b lt
  exact updateAll_hash hashLength entries sorted nonempty

theorem stackTrie_refines_trie_on_two_keys :
    (∀ b : List UInt8, ((fun _ => List.replicate 32 0) b : List UInt8).length = 32) ∧
      ∃ st, StackTrie.updateAll (fun _ => List.replicate 32 0) [([1], [1]), ([2], [2])] = some st ∧
        StackTrie.stackTrieHash (fun _ => List.replicate 32 0) st =
          (trieHash Collapsed.encode (fun _ => List.replicate 32 0) State.emptyRootHash.bytes
            (run Collapsed.encode (fun _ => List.replicate 32 0) State.emptyRootHash.bytes
              ([([1], [1]), ([2], [2])].map fun entry => .update entry.1 entry.2))).1 :=
  ⟨fun _ => by simp,
    (stackTrie_refines_trie_on_sorted_keys (fun _ => List.replicate 32 0) (fun _ => by simp)).1 _
      (by decide) (by decide) (by decide)⟩

end Kardia.Trie
