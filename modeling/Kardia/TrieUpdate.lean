import Kardia.TrieCanonical

namespace Kardia.Trie

/-!
# insert and delete keep a trie canonical

insert and delete on a trie in canonical form or nil (CanonicalOrNil), at a
terminated key: the result is again canonical (or nil after a delete), and
it holds the inserted value under that key, or nothing there after a delete,
and what it held before under every other key (Inserted, Deleted).

insert splits a short node where its key and the inserted key part into a
full node under a short node for the common part (inserted_branch); delete
lets a short node absorb the short node it is left over, and turns a full
node with one child left into a short node over that child (reduceTo,
deleted_full_remove).  A clean result, reported by the dirty flag, is the
node itself (insert_clean, delete_clean).
-/

/-- A node in canonical form, or nil: what a trie holds at its root. -/
def CanonicalOrNil (n : Node) : Prop :=
  n.isEmpty ∨ Canonical n

namespace Terminated

variable {front rest : List Nibble} {i : Nibble}

/-- A terminated path holds no terminator before its last nibble. -/
theorem not_mem_front (terminated : Terminated (front ++ i :: rest)) : terminator ∉ front := by
  have inside : front.length < (front ++ i :: rest).length := by simp
  simpa using terminated.not_mem_take inside

/-- Where a terminated path goes on past a nibble: after the terminator nothing, else a terminated rest. -/
theorem tail_cases (terminated : Terminated (front ++ i :: rest)) :
    (i = terminator ∧ rest = []) ∨ (i ≠ terminator ∧ Terminated rest) := by
  have outside := terminated.not_mem_front
  by_cases atEnd : i = terminator
  · subst atEnd
    obtain ⟨nibbles, absent, split⟩ := terminated
    refine Or.inl ⟨rfl, ?_⟩
    rcases List.eq_nil_or_concat rest with rfl | ⟨front', last, rfl⟩
    · rfl
    · exfalso
      have split' : (front ++ terminator :: front') ++ [last] = nibbles ++ [terminator] := by
        simpa using split
      rw [← (List.append_inj' split' rfl).1] at absent
      exact absent (by simp)
  · refine Or.inr ⟨atEnd, ?_⟩
    have outside' : terminator ∉ front ++ [i] := by simp [outside, Ne.symm atEnd]
    exact of_append outside' (by simpa using terminated)

/-- Where a terminated path goes on past its first nibble. -/
theorem cons_cases (terminated : Terminated (i :: rest)) :
    (i = terminator ∧ rest = []) ∨ (i ≠ terminator ∧ Terminated rest) :=
  tail_cases (show Terminated ([] ++ i :: rest) from terminated)

end Terminated


/-! ## get through rebuilt nodes -/

section Get

variable {key rest : List Nibble} {val r : Node} {flags flags' : NodeFlag} {children : Nibble → Node}
  {i : Nibble} {found : Option (List UInt8)}

/-- A short node with a longer key reads as a short node over a short node. -/
theorem get_short_append (front back : List Nibble) (val : Node) (flags flags' flags'' : NodeFlag)
    (path : List Nibble) :
    get (.short (front ++ back) val flags) path = get (.short front (.short back val flags') flags'') path := by
  rw [get_short, get_short]
  by_cases pre : front <+: path
  · obtain ⟨tail, rfl⟩ := pre
    rw [if_pos (List.prefix_append front tail), List.drop_left, get_short]
    simp only [List.prefix_append_right_inj, List.length_append, ← List.drop_drop, List.drop_left]
  · have notLonger : ¬ front ++ back <+: path := fun longer => pre ((List.prefix_append front back).trans longer)
    rw [if_neg notLonger, if_neg pre]

/--
A short node over a node that differs from its value at one rest of a key
differs from the short node over the value at that key only.
-/
theorem get_short_update
    (changed : ∀ q, Terminated (key ++ q) → get r q = if q = rest then found else get val q)
    {path : List Nibble} (terminated : Terminated path) :
    get (.short key r flags) path = if path = key ++ rest then found else get (.short key val flags') path := by
  rw [get_short, get_short]
  by_cases pre : key <+: path
  · obtain ⟨tail, rfl⟩ := pre
    rw [if_pos (List.prefix_append key tail), if_pos (List.prefix_append key tail), List.drop_left,
      changed tail terminated]
    simp only [List.append_cancel_left_eq]
  · have notAt : path ≠ key ++ rest := fun same => pre (same ▸ List.prefix_append key rest)
    rw [if_neg pre, if_neg pre, if_neg notAt]

/-- A full node with one child changed at one rest of a key differs at that key only. -/
theorem get_full_update
    (changed : ∀ q, Terminated (i :: q) → get r q = if q = rest then found else get (children i) q)
    {path : List Nibble} (terminated : Terminated path) :
    get (.full (Function.update children i r) flags) path =
      if path = i :: rest then found else get (.full children flags') path := by
  obtain ⟨j, q, rfl⟩ := List.exists_cons_of_ne_nil terminated.ne_nil
  simp only [get, List.cons.injEq]
  by_cases same : j = i
  · subst same
    rw [Function.update_self, changed q terminated]
    simp
  · rw [Function.update_of_ne same]
    simp [same]

theorem get_short_eq_insertNil (key : List Nibble) (val : Node) (flags : NodeFlag) (path : List Nibble) :
    get (.short key val flags) path = get (insertNil key val) path := by
  rw [get_short, get_insertNil]

/-- A path through a short node's key past a common front. -/
theorem get_short_front (front back tail : List Nibble) (val : Node) (flags : NodeFlag) :
    get (.short (front ++ back) val flags) (front ++ tail) = get (.short back val flags) tail := by
  rw [get_short_append front back val flags flags flags, get_short, if_pos (List.prefix_append front tail),
    List.drop_left]

/-- A path through the first nibble of a short node's key. -/
theorem get_short_cons (first : Nibble) (back : List Nibble) (val : Node) (flags : NodeFlag) (j : Nibble)
    (tail : List Nibble) :
    get (.short (first :: back) val flags) (j :: tail) = if j = first then get (insertNil back val) tail else none := by
  simp only [get_short, get_insertNil, List.cons_prefix_cons, List.length_cons, List.drop_succ_cons]
  by_cases same : j = first
  · simp [same]
  · simp [Ne.symm same, same]

end Get

/-! ## Building canonical nodes -/

section Build

variable {key : List Nibble} {val : Node} {bytes : List UInt8} {flags : NodeFlag}

theorem isEmpty_insertNil (key : List Nibble) (occupied : val.isEmpty = false) :
    (insertNil key val).isEmpty = false := by
  cases key
  · exact occupied
  · rfl

theorem Canonical.insertNil_value (terminated : Terminated key) (nonempty : bytes ≠ []) :
    Canonical (insertNil key (.value bytes)) := by
  obtain ⟨first, rest, rfl⟩ := List.exists_cons_of_ne_nil terminated.ne_nil
  exact Or.inl ⟨terminated, bytes, nonempty, rfl⟩

theorem Canonical.insertNil_full (outside : terminator ∉ key) (isFull : val.isFull)
    (canonical : Canonical val) : Canonical (insertNil key val) := by
  cases key with
  | nil => exact canonical
  | cons first rest => exact Or.inr ⟨List.cons_ne_nil _ _, outside, isFull, canonical⟩

end Build


/-! ## Full nodes -/

section Full

variable {children children' : Nibble → Node} {flags : NodeFlag} {i j : Nibble} {n : Node}

/-- What a canonical full node may hold at a nibble besides nil: a canonical node, or a value in slot 16. -/
def Occupant (i : Nibble) (n : Node) : Prop :=
  if i = terminator then ∃ bytes, bytes ≠ [] ∧ n = .value bytes else Canonical n

theorem Occupant.isEmpty_eq_false (occupant : Occupant i n) : n.isEmpty = false := by
  unfold Occupant at occupant
  split_ifs at occupant
  · obtain ⟨bytes, _, rfl⟩ := occupant
    rfl
  · cases n with
    | empty => exact occupant.elim
    | _ => rfl

/-- A full node is canonical when each child is nil or may stand at its nibble, and two are not nil. -/
theorem Canonical.full_of (children_ok : ∀ i, (children i).isEmpty ∨ Occupant i (children i))
    (two : 2 ≤ occupied children) : Canonical (.full children flags) := by
  refine ⟨fun i notEnd => ?_, ?_, two⟩
  · simpa [Occupant, notEnd] using children_ok i
  · simpa [Occupant] using children_ok terminator

theorem Canonical.children_ok (canonical : Canonical (.full children flags)) (i : Nibble) :
    (children i).isEmpty ∨ Occupant i (children i) := by
  by_cases atEnd : i = terminator
  · subst atEnd
    simpa [Occupant] using canonical.2.1
  · simpa [Occupant, atEnd] using canonical.1 i atEnd

theorem occupied_le_of (more : ∀ i, (children i).isEmpty = false → (children' i).isEmpty = false) :
    occupied children ≤ occupied children' := by
  apply List.Sublist.length_le
  apply List.monotone_filter_right
  intro i kept
  simpa using more i (by simpa using kept)

theorem two_le_occupied (differ : i ≠ j) (atI : (children i).isEmpty = false)
    (atJ : (children j).isEmpty = false) : 2 ≤ occupied children := by
  have listed : ∀ k, (children k).isEmpty = false →
      k ∈ ((List.finRange 17).filter fun i => !(children i).isEmpty).toFinset := by
    intro k occupiedAt
    simp [occupiedAt]
  calc 2 = ({i, j} : Finset Nibble).card := (Finset.card_pair differ).symm
    _ ≤ ((List.finRange 17).filter fun i => !(children i).isEmpty).toFinset.card := by
        apply Finset.card_le_card
        intro k member
        rcases Finset.mem_insert.mp member with rfl | member
        · exact listed k atI
        · rw [Finset.mem_singleton.mp member]
          exact listed j atJ
    _ ≤ occupied children := List.toFinset_card_le _

/-- Replacing a non-nil child of a canonical full node by one that may stand there keeps it canonical. -/
theorem Canonical.full_update (canonical : Canonical (.full children flags)) (occupant : Occupant i n)
    (flags' : NodeFlag) : Canonical (.full (Function.update children i n) flags') := by
  apply Canonical.full_of
  · intro j
    by_cases same : j = i
    · subst same
      simpa using Or.inr occupant
    · simpa [Function.update_of_ne same] using canonical.children_ok j
  · apply le_trans canonical.2.2 (occupied_le_of _)
    intro j occupiedAt
    by_cases same : j = i
    · subst same
      simpa using occupant.isEmpty_eq_false
    · simpa [Function.update_of_ne same] using occupiedAt

/-- The full node a short node branches out into is canonical when both sides may stand where they are. -/
theorem Canonical.branchOut {existingAt addedAt : Nibble} {existing added : Node}
    (differ : existingAt ≠ addedAt) (existingOk : Occupant existingAt existing)
    (addedOk : Occupant addedAt added) :
    Canonical (branchOut existingAt existing addedAt added) := by
  apply Canonical.full_of
  · intro k
    by_cases atAdded : k = addedAt
    · subst atAdded
      simpa using Or.inr addedOk
    · by_cases atExisting : k = existingAt
      · subst atExisting
        simpa [Function.update_of_ne atAdded] using Or.inr existingOk
      · simp [Function.update_of_ne atAdded, Function.update_of_ne atExisting, Node.isEmpty]
  · apply two_le_occupied differ
    · simpa [Function.update_of_ne differ] using existingOk.isEmpty_eq_false
    · simpa using addedOk.isEmpty_eq_false

end Full


section Rest

variable {front back : List Nibble} {i : Nibble} {val : Node} {flags : NodeFlag} {bytes : List UInt8}

/-- Past a nibble of a canonical short node's key, the rest of the key over its value may stand at that nibble. -/
theorem Canonical.occupant_rest (canonical : Canonical (.short (front ++ i :: back) val flags)) :
    Occupant i (insertNil back val) := by
  unfold Occupant
  rcases canonical with ⟨terminated, bytes, nonempty, rfl⟩ | ⟨_, outside, isFull, canonicalVal⟩
  · rcases terminated.tail_cases with ⟨atEnd, rfl⟩ | ⟨notEnd, terminatedBack⟩
    · exact if_pos atEnd ▸ ⟨bytes, nonempty, rfl⟩
    · exact if_neg notEnd ▸ Canonical.insertNil_value terminatedBack nonempty
  · have notEnd : i ≠ terminator := fun atEnd => outside (by simp [atEnd])
    have outsideBack : terminator ∉ back := fun inBack => outside (by simp [inBack])
    exact if_neg notEnd ▸ Canonical.insertNil_full outsideBack isFull canonicalVal

/-- Past a nibble of a terminated key, the rest of the key over a value may stand at that nibble. -/
theorem Terminated.occupant_rest (terminated : Terminated (front ++ i :: back)) (nonempty : bytes ≠ []) :
    Occupant i (insertNil back (.value bytes)) := by
  unfold Occupant
  rcases terminated.tail_cases with ⟨atEnd, rfl⟩ | ⟨notEnd, terminatedBack⟩
  · exact if_pos atEnd ▸ ⟨bytes, nonempty, rfl⟩
  · exact if_neg notEnd ▸ Canonical.insertNil_value terminatedBack nonempty

end Rest


/-! ## insert -/

section Insert

variable {n val : Node} {key rest : List Nibble} {bytes : List UInt8} {flags : NodeFlag}
  {children : Nibble → Node}

/-- An insertion that reports no change returns the node it was given. -/
theorem insert_clean (n : Node) (key : List Nibble) (value : Node) (clean : (insert n key value).1 = false) :
    (insert n key value).2 = n := by
  match n, key, value with
  | n, [], value =>
      cases n <;> cases value <;> simp_all [insert]
  | .short key val flags, k :: ks, value =>
      simp only [insert] at clean ⊢
      -- a split reports a change, so split_ifs closes it; what is left is the recursive case
      split_ifs at clean ⊢
      split at clean <;> simp_all
  | .full children flags, k :: ks, value =>
      simp only [insert] at clean ⊢
      split at clean <;> simp_all
  | .empty, k :: ks, value => simp [insert] at clean
  | .value bytes, _ :: _, value => rfl

/-- Inserting at the end of a key leaves the inserted node. -/
theorem insert_nil_snd (n value : Node) : (insert n [] value).2 = value := by
  cases n <;> cases value <;> rfl

/-- Inserting below a full node leaves a full node. -/
theorem isFull_insert_full (children : Nibble → Node) (flags : NodeFlag) (k : Nibble) (ks : List Nibble)
    (value : Node) : (insert (.full children flags) (k :: ks) value).2.isFull := by
  simp only [insert]
  split <;> rfl

/-- insert where the keys part inside a short node's key: a full node where they part, under their common part. -/
theorem insert_short_split {k : Nibble} {ks : List Nibble} {value : Node}
    (parts : prefixLen (k :: ks) key < key.length) :
    insert (.short key val flags) (k :: ks) value =
      (true, insertNil (key.take (prefixLen (k :: ks) key))
        (branchOut (key.getD (prefixLen (k :: ks) key) terminator)
          (insertNil (key.drop (prefixLen (k :: ks) key + 1)) val)
          ((k :: ks).getD (prefixLen (k :: ks) key) terminator)
          (insertNil ((k :: ks).drop (prefixLen (k :: ks) key + 1)) value))) := by
  simp only [insert, if_neg (Nat.ne_of_lt parts)]
  split_ifs with atStart
  · rw [atStart, List.take_zero]
    rfl
  · obtain ⟨first, front, split⟩ : ∃ first front, key.take (prefixLen (k :: ks) key) = first :: front :=
      List.exists_cons_of_ne_nil (by simp [atStart, List.ne_nil_of_length_pos (by omega : 0 < key.length)])
    rw [split]
    rfl

end Insert


section Inserted

variable {n val : Node} {key : List Nibble} {bytes : List UInt8} {flags : NodeFlag}

/-- A node after an insertion of a value under a key: canonical, and that value under that key only. -/
structure Inserted (n : Node) (key : List Nibble) (bytes : List UInt8) (result : Node) : Prop where
  canonical : Canonical result
  get_eq : ∀ path, Terminated path → get result path = if path = key then some bytes else get n path

/-- A canonical node that holds the value already is the node after its insertion. -/
theorem inserted_self (canonical : Canonical n) (found : get n key = some bytes) : Inserted n key bytes n := by
  refine ⟨canonical, fun path _ => ?_⟩
  split_ifs with same
  · rw [same, found]
  · rfl

/--
The split of a short node whose key parts from the inserted key after a common
front: a full node with the short node's rest and the inserted rest at the
nibbles where they part, under a short node for the front.
-/
theorem inserted_branch {front existingRest addedRest : List Nibble} {existingAt addedAt : Nibble}
    (differ : existingAt ≠ addedAt) (canonical : Canonical (.short (front ++ existingAt :: existingRest) val flags))
    (terminated : Terminated (front ++ addedAt :: addedRest)) (nonempty : bytes ≠ []) :
    Inserted (.short (front ++ existingAt :: existingRest) val flags) (front ++ addedAt :: addedRest) bytes
      (insertNil front
        (branchOut existingAt (insertNil existingRest val) addedAt (insertNil addedRest (.value bytes)))) := by
  have outside := terminated.not_mem_front
  refine ⟨Canonical.insertNil_full outside rfl
    (Canonical.branchOut differ canonical.occupant_rest (terminated.occupant_rest nonempty)), ?_⟩
  intro path pathTerminated
  rw [get_insertNil]
  by_cases pre : front <+: path
  · obtain ⟨tail, rfl⟩ := pre
    obtain ⟨j, q, rfl⟩ := List.exists_cons_of_ne_nil (pathTerminated.of_append outside).ne_nil
    rw [if_pos (List.prefix_append front _), List.drop_left, get_branchOut, get_short_front, get_short_cons]
    simp only [List.append_cancel_left_eq, List.cons.injEq]
    by_cases atAdded : j = addedAt
    · -- the inserted rest holds the value at the inserted key alone
      subst atAdded
      have sameRest : addedRest <+: q ↔ q = addedRest := by
        constructor
        · intro pre
          have whole := terminated.eq_of_prefix pathTerminated
            ((List.prefix_append_right_inj front).mpr (List.cons_prefix_cons.mpr ⟨rfl, pre⟩))
          simpa using whole.symm
        · rintro rfl
          exact List.prefix_refl _
      simp only [get_insertNil, get, sameRest, true_and, ↓reduceIte, if_neg (Ne.symm differ)]
    · simp only [atAdded, false_and, if_false]
  · have notAdded : path ≠ front ++ addedAt :: addedRest := fun same => pre (same ▸ List.prefix_append _ _)
    have notExisting : ¬ front ++ existingAt :: existingRest <+: path :=
      fun longer => pre ((List.prefix_append _ _).trans longer)
    rw [if_neg pre, if_neg notAdded, get_short, if_neg notExisting]

/-- Replacing a child of a canonical full node by one that holds the value at the rest of the key. -/
theorem inserted_full_update {children : Nibble → Node} {i : Nibble} {rest : List Nibble} {nn : Node}
    (canonical : Canonical (.full children flags)) (occupant : Occupant i nn)
    (changed : ∀ q, Terminated (i :: q) → get nn q = if q = rest then some bytes else get (children i) q) :
    Inserted (.full children flags) (i :: rest) bytes (.full (Function.update children i nn) newFlag) :=
  ⟨canonical.full_update occupant newFlag, fun _ terminated => get_full_update changed terminated⟩

/-- Replacing the full node below a short node by one that holds the value at the rest of the key. -/
theorem inserted_short_update {rest : List Nibble} {nn : Node}
    (nonempty : key ≠ []) (outside : terminator ∉ key) (isFull : nn.isFull) (canonicalNew : Canonical nn)
    (changed : ∀ q, Terminated (key ++ q) → get nn q = if q = rest then some bytes else get val q) :
    Inserted (.short key val flags) (key ++ rest) bytes (.short key nn newFlag) :=
  ⟨Or.inr ⟨nonempty, outside, isFull, canonicalNew⟩, fun _ terminated => get_short_update changed terminated⟩

end Inserted


/-! ## The key positions where a short node's key and a path part -/

section Parting

variable {a b : List Nibble} {m : Nat}

theorem prefix_of_prefixLen_eq_length (whole : prefixLen a b = a.length) : a <+: b := by
  have agree := take_prefixLen a b
  rw [whole, List.take_length] at agree
  rw [agree]
  exact List.take_prefix _ _

/-- A list around one of its positions. -/
theorem eq_take_append_getD (inside : m < a.length) :
    a = a.take m ++ a.getD m terminator :: a.drop (m + 1) := by
  rw [List.getD_eq_getElem _ _ inside, ← List.drop_eq_getElem_cons inside, List.take_append_drop]

theorem Terminated.mem (terminated : Terminated a) : terminator ∈ a := by
  obtain ⟨nibbles, _, rfl⟩ := terminated
  simp

/-- The only terminated prefix of a canonical short node's key is the key itself. -/
theorem Canonical.eq_of_prefix_key {key : List Nibble} {val : Node} {flags : NodeFlag}
    (canonical : Canonical (.short key val flags)) (terminated : Terminated a) (pre : a <+: key) : a = key := by
  rcases canonical with ⟨keyTerminated, _⟩ | ⟨_, outside, _⟩
  · exact terminated.eq_of_prefix keyTerminated pre
  · exact absurd (pre.subset terminated.mem) outside

end Parting

section InsertSpec

variable {bytes : List UInt8}

/-- insert keeps a trie canonical and puts the value under the key, and nowhere else. -/
theorem insert_spec : ∀ (n : Node) (key : List Nibble), CanonicalOrNil n → Terminated key → bytes ≠ [] →
    Inserted n key bytes (insert n key (.value bytes)).2
  | _, [], _, terminated, _ => absurd rfl terminated.ne_nil
  | .empty, k :: ks, _, terminated, nonempty => by
      refine ⟨Or.inl ⟨terminated, bytes, nonempty, rfl⟩, fun path pathTerminated => ?_⟩
      rw [insert, get_short_value terminated bytes pathTerminated]
      simp [get]
  | .value _, _ :: _, shape, _, _ => by
      rcases shape with empty | canonical
      · cases empty
      · exact canonical.elim
  | .short key val flags, k :: ks, shape, terminated, nonempty => by
      have canonical : Canonical (.short key val flags) := shape.resolve_left (by simp [Node.isEmpty])
      by_cases whole : prefixLen (k :: ks) key = key.length
      · have pre : key <+: k :: ks := (prefixLen_eq_length_iff _ _).mp whole
        have rejoined : key ++ (k :: ks).drop key.length = k :: ks := List.prefix_iff_eq_append.mp pre
        rcases canonical with ⟨keyTerminated, old, _, rfl⟩ | ⟨nonemptyKey, outside, isFull, canonicalVal⟩
        · -- the key ends at the value: it is replaced, or kept when it is the same
          obtain rfl := keyTerminated.eq_of_prefix terminated pre
          simp only [insert, whole, if_true, List.drop_length]
          by_cases same : old = bytes
          · subst same
            simp only [bne_self_eq_false]
            exact inserted_self (Or.inl ⟨keyTerminated, old, by assumption, rfl⟩) (by simp [get])
          · have changed : (old != bytes) = true := bne_iff_ne.mpr same
            simp only [changed]
            refine ⟨Or.inl ⟨keyTerminated, bytes, nonempty, rfl⟩, fun path pathTerminated => ?_⟩
            rw [get_short_value keyTerminated bytes pathTerminated,
              get_short_value keyTerminated old pathTerminated]
            split_ifs <;> rfl
        · -- the key goes on below the full node the short node leads to
          cases val with
          | full children flags' =>
            have restTerminated : Terminated ((k :: ks).drop key.length) :=
              terminated.drop (by rwa [← List.prefix_iff_eq_take.mp pre])
            have inner := insert_spec (.full children flags') _ (Or.inr canonicalVal) restTerminated nonempty
            simp only [insert, whole, if_true]
            rcases result : insert (.full children flags') ((k :: ks).drop key.length) (.value bytes)
              with ⟨_ | _, nn⟩
            · have unchanged := insert_clean _ _ _ (by rw [result])
              rw [result] at unchanged inner
              have found := inner.get_eq _ restTerminated
              rw [if_pos rfl, unchanged] at found
              refine inserted_self (Or.inr ⟨nonemptyKey, outside, isFull, canonicalVal⟩) ?_
              rw [get_short, if_pos pre, found]
            · obtain ⟨r, rs, restEq⟩ := List.exists_cons_of_ne_nil restTerminated.ne_nil
              have isFullNew := isFull_insert_full children flags' r rs (.value bytes)
              rw [← restEq, result] at isFullNew
              rw [result] at inner
              rw [← rejoined]
              exact inserted_short_update nonemptyKey outside isFullNew inner.canonical
                fun q terminatedQ => inner.get_eq q (terminatedQ.of_append outside)
          | _ => cases isFull
      · -- the keys part inside the short node's key
        have parts : prefixLen (k :: ks) key < key.length :=
          lt_of_le_of_ne (prefixLen_le_right _ _) whole
        have partsPath : prefixLen (k :: ks) key < (k :: ks).length := by
          apply lt_of_le_of_ne (prefixLen_le_left _ _)
          intro wholePath
          have same := canonical.eq_of_prefix_key terminated (prefix_of_prefixLen_eq_length wholePath)
          apply whole
          rw [wholePath, same]
        have keyEq := eq_take_append_getD parts
        have pathEq := eq_take_append_getD partsPath
        rw [take_prefixLen] at pathEq
        have differ := (getD_prefixLen_ne _ _ partsPath parts).symm
        have split := inserted_branch differ (keyEq ▸ canonical) (pathEq ▸ terminated) nonempty
        rw [← keyEq, ← pathEq] at split
        rw [insert_short_split parts]
        exact split
  | .full children flags, k :: ks, shape, terminated, nonempty => by
      have canonical : Canonical (.full children flags) := shape.resolve_left (by simp [Node.isEmpty])
      simp only [insert]
      by_cases atEnd : k = terminator
      · -- the key ends at slot 16
        subst atEnd
        have ended : ks = [] := by
          rcases terminated.cons_cases with ⟨_, ended⟩ | ⟨notEnd, _⟩
          · exact ended
          · exact absurd rfl notEnd
        subst ended
        have inserted := insert_nil_snd (children terminator) (.value bytes)
        rcases result : insert (children terminator) [] (.value bytes) with ⟨_ | _, nn⟩
        · have unchanged := insert_clean _ _ _ (by rw [result])
          rw [result] at unchanged inserted
          simp only at unchanged inserted
          refine inserted_self canonical ?_
          simp only [get, ← unchanged, inserted]
        · rw [result] at inserted
          subst inserted
          apply inserted_full_update canonical (by simp [Occupant, nonempty])
          intro q terminatedQ
          rcases terminatedQ.cons_cases with ⟨_, rfl⟩ | ⟨notEnd, _⟩
          · simp [get]
          · exact absurd rfl notEnd
      · -- the key goes on below the child at its first nibble
        have childShape : CanonicalOrNil (children k) := by
          simpa [Occupant, atEnd, CanonicalOrNil] using canonical.children_ok k
        have inner := insert_spec (children k) ks childShape (terminated.of_cons atEnd) nonempty
        rcases result : insert (children k) ks (.value bytes) with ⟨_ | _, nn⟩
        · have unchanged := insert_clean _ _ _ (by rw [result])
          rw [result] at unchanged inner
          have found := inner.get_eq ks (terminated.of_cons atEnd)
          rw [if_pos rfl, unchanged] at found
          exact inserted_self canonical (by simpa [get] using found)
        · rw [result] at inner
          apply inserted_full_update canonical (by simpa [Occupant, atEnd] using inner.canonical)
          intro q terminatedQ
          exact inner.get_eq q (terminatedQ.of_cons atEnd)

end InsertSpec


/-! ## delete -/

section Remaining

variable {children : Nibble → Node} {j : Nibble} {child : Node}

/-- The index of the only nibble of a list, -1 for none and -2 for more. -/
def onlyIndex : List Nibble → Int
  | [] => -1
  | [i] => i.val
  | _ => -2

/-- The loop of delete over the children: the only non-nil child's index, -1 for none, -2 for more. -/
theorem remainingChild_eq (children : Nibble → Node) :
    remainingChild children = onlyIndex ((List.finRange 17).filter fun i => !(children i).isEmpty) := by
  unfold remainingChild
  -- the loop reads the children left to right: induction on the nibbles read, from the right
  induction List.finRange 17 using List.reverseRecOn with
  | nil => rfl
  | append_singleton read i scanned =>
      rw [List.foldl_append, scanned, List.filter_append]
      rcases occupiedAt : (children i).isEmpty <;>
        rcases listed : read.filter (fun i => !(children i).isEmpty) with _ | ⟨first, _ | ⟨second, more⟩⟩ <;>
        simp [onlyIndex, occupiedAt]

/-- A node with one child left reads as a short node of that child's nibble over it. -/
theorem get_reduceTo (j : Nibble) (child : Node) (path : List Nibble) :
    get (reduceTo j child) path = get (.short [j] child newFlag) path := by
  unfold reduceTo
  split_ifs
  · cases child with
    | short key val flags => exact get_short_append [j] key val newFlag flags newFlag path
    | _ => rfl
  · rfl

/-- A full node with one non-nil child reads as a short node of that child's nibble over it. -/
theorem get_full_single (single : ∀ i, i ≠ j → children i = .empty) (flags flags' : NodeFlag)
    (path : List Nibble) : get (.full children flags) path = get (.short [j] (children j) flags') path := by
  cases path with
  | nil => simp [get]
  | cons i rest =>
      rw [get_short_cons]
      by_cases same : i = j
      · subst same
        simp [get, insertNil]
      · simp [get, same, single i same]

theorem Canonical.reduceTo (occupant : Occupant j child) : Canonical (reduceTo j child) := by
  by_cases atEnd : j = terminator
  · -- the value of a key that ends at the full node
    subst atEnd
    obtain ⟨bytes, nonempty, rfl⟩ : ∃ bytes, bytes ≠ [] ∧ child = .value bytes := by
      simpa [Occupant] using occupant
    simp only [Kardia.Trie.reduceTo, ne_eq, not_true_eq_false, if_false]
    exact Or.inl ⟨Terminated.singleton, bytes, nonempty, rfl⟩
  · have canonical : Canonical child := by simpa [Occupant, atEnd] using occupant
    unfold Kardia.Trie.reduceTo
    rw [if_pos atEnd]
    have outsideNibble : terminator ∉ [j] := by simpa [eq_comm] using atEnd
    cases child with
    | short key val flags =>
        rcases canonical with ⟨terminated, bytes, nonempty, rfl⟩ | ⟨_, outside, isFull, canonicalVal⟩
        · exact Or.inl ⟨terminated.cons atEnd, bytes, nonempty, rfl⟩
        · exact Or.inr ⟨List.cons_ne_nil _ _, by simp [Ne.symm atEnd, outside], isFull, canonicalVal⟩
    | full children flags => exact Or.inr ⟨List.cons_ne_nil _ _, outsideNibble, rfl, canonical⟩
    | _ => exact canonical.elim

end Remaining


section Deleted

variable {n val r : Node} {key rest : List Nibble} {flags : NodeFlag} {children : Nibble → Node} {i : Nibble}

/-- A node after a deletion of a key: canonical or nil, and nothing under that key, the same elsewhere. -/
structure Deleted (n : Node) (key : List Nibble) (result : Node) : Prop where
  shape : CanonicalOrNil result
  get_eq : ∀ path, Terminated path → get result path = if path = key then none else get n path

/-- A deletion that reports no change returns the node it was given. -/
theorem delete_clean (n : Node) (key : List Nibble) (clean : (delete n key).1 = false) :
    (delete n key).2 = n := by
  match n, key with
  | .short key val flags, k =>
      simp only [delete] at clean ⊢
      -- a removal reports a change, so split_ifs closes it
      split_ifs at clean ⊢
      · rfl
      · split at clean <;> simp_all
  | .full children flags, k :: ks =>
      simp only [delete] at clean ⊢
      split at clean
      · rfl
      · split_ifs at clean
  | .full children flags, [] => rfl
  | .value _, _ => simp [delete] at clean
  | .empty, _ => rfl

/-- A node that holds nothing under the key is the node after its deletion. -/
theorem deleted_self (shape : CanonicalOrNil n) (absent : get n key = none) : Deleted n key n := by
  refine ⟨shape, fun path _ => ?_⟩
  split_ifs with same
  · rw [same, absent]
  · rfl

/-- A canonical full node holds two keys, so a deletion of one leaves a node that is not nil. -/
theorem Deleted.isEmpty_eq_false {flags' : NodeFlag} (canonical : Canonical (.full children flags'))
    (deleted : Deleted (.full children flags') rest r) : r.isEmpty = false := by
  obtain ⟨j, j', differ, path, other, terminated, found, otherTerminated, otherFound⟩ := canonical.two_entries
  have kept : ∃ kept, Terminated kept ∧ kept ≠ rest ∧ (get (.full children flags') kept).isSome := by
    by_cases atRest : j :: path = rest
    · refine ⟨j' :: other, otherTerminated, fun same => differ ?_, otherFound⟩
      rw [← same, List.cons.injEq] at atRest
      exact atRest.1
    · exact ⟨j :: path, terminated, atRest, found⟩
  obtain ⟨kept, keptTerminated, notRest, keptFound⟩ := kept
  have atKept := deleted.get_eq kept keptTerminated
  rw [if_neg notRest] at atKept
  rw [← atKept] at keptFound
  cases r with
  | empty => cases keptFound
  | _ => rfl

/-- Replacing a child of a canonical full node by one without the rest of the key, not nil. -/
theorem deleted_full_update {nn : Node} (canonical : Canonical (.full children flags)) (occupant : Occupant i nn)
    (changed : ∀ q, Terminated (i :: q) → get nn q = if q = rest then none else get (children i) q) :
    Deleted (.full children flags) (i :: rest) (.full (Function.update children i nn) newFlag) :=
  ⟨Or.inr (canonical.full_update occupant newFlag), fun _ terminated => get_full_update changed terminated⟩

/--
Removing the last key under a child of a canonical full node: the full node
stays while two children are left, and becomes a short node over the one child
left otherwise.
-/
theorem deleted_full_remove (canonical : Canonical (.full children flags)) (occupiedAt : (children i).isEmpty = false)
    (changed : ∀ q, Terminated (i :: q) → get .empty q = if q = rest then none else get (children i) q) :
    Deleted (.full children flags) (i :: rest)
      (if remainingChild (Function.update children i .empty) ≥ 0 then
        reduceTo (Fin.ofNat 17 (remainingChild (Function.update children i .empty)).toNat)
          (Function.update children i .empty (Fin.ofNat 17 (remainingChild (Function.update children i .empty)).toNat))
      else .full (Function.update children i .empty) newFlag) := by
  have removed : ∀ path, Terminated path → get (.full (Function.update children i .empty) newFlag) path =
      if path = i :: rest then none else get (.full children flags) path :=
    fun _ terminated => get_full_update changed terminated
  have left : ∀ j, j ≠ i → (children j).isEmpty = false →
      j ∈ (List.finRange 17).filter fun k => !(Function.update children i .empty k).isEmpty := by
    intro j notI occupiedJ
    simp [Function.update_of_ne notI, occupiedJ]
  obtain ⟨j₁, j₂, differ, occupied₁, occupied₂⟩ := exists_two_of_occupied canonical.2.2
  have another : ∃ j, j ≠ i ∧ (children j).isEmpty = false := by
    by_cases atI : j₁ = i
    · exact ⟨j₂, fun same => differ (atI.trans same.symm), occupied₂⟩
    · exact ⟨j₁, atI, occupied₁⟩
  obtain ⟨other, notI, occupiedOther⟩ := another
  rw [remainingChild_eq]
  rcases listed : (List.finRange 17).filter (fun k => !(Function.update children i .empty k).isEmpty) with
    _ | ⟨j, _ | ⟨j', more⟩⟩
  · -- another child is left
    have member := left other notI occupiedOther
    rw [listed] at member
    cases member
  · -- one child is left: a short node over it
    have atJ : j ∈ (List.finRange 17).filter fun k => !(Function.update children i .empty k).isEmpty := by
      simp [listed]
    have single : ∀ k, k ≠ j → Function.update children i .empty k = .empty := by
      intro k notJ
      have notListed : k ∉ (List.finRange 17).filter fun k => !(Function.update children i .empty k).isEmpty := by
        simp [listed, notJ]
      simpa using Node.eq_empty_of_isEmpty (by simpa using notListed)
    have notI' : j ≠ i := by
      rintro rfl
      simp [Node.isEmpty] at atJ
    have occupant : Occupant j (children j) := by
      have occupiedJ : (children j).isEmpty = false := by simpa [Function.update_of_ne notI'] using atJ
      simpa [occupiedJ] using canonical.children_ok j
    simp only [onlyIndex, Int.toNat_natCast, Fin.ofNat_val_eq_self, ge_iff_le, Int.natCast_nonneg, if_true]
    refine ⟨Or.inr ?_, fun path terminated => ?_⟩
    · simpa [Function.update_of_ne notI'] using Canonical.reduceTo occupant
    · rw [get_reduceTo, ← get_full_single single newFlag newFlag, removed path terminated]
  · -- two children or more are left: the full node stays
    simp only [onlyIndex, ge_iff_le, Int.reduceNeg, Left.nonneg_neg_iff, Int.reduceLE, if_false]
    refine ⟨Or.inr (Canonical.full_of (fun k => ?_) ?_), removed⟩
    · by_cases atI : k = i
      · subst atI
        simp [Node.isEmpty]
      · simpa [Function.update_of_ne atI] using canonical.children_ok k
    · unfold occupied
      rw [listed]
      simp

/-- A short node over a full node that lost the rest of the key to a short node absorbs that short node. -/
theorem deleted_short_merge {childKey : List Nibble} {childVal : Node} {childFlags : NodeFlag}
    (outside : terminator ∉ key) (canonicalChild : Canonical (.short childKey childVal childFlags))
    (changed : ∀ q, Terminated (key ++ q) →
      get (.short childKey childVal childFlags) q = if q = rest then none else get val q) :
    Deleted (.short key val flags) (key ++ rest) (.short (key ++ childKey) childVal newFlag) := by
  refine ⟨Or.inr ?_, fun path terminated => ?_⟩
  · rcases canonicalChild with ⟨childTerminated, bytes, nonempty, rfl⟩ | ⟨nonempty, outsideChild, isFull, canonicalVal⟩
    · exact Or.inl ⟨childTerminated.append outside, bytes, nonempty, rfl⟩
    · exact Or.inr ⟨by simp [nonempty], by simp [outside, outsideChild], isFull, canonicalVal⟩
  · rw [get_short_append key childKey childVal newFlag childFlags newFlag]
    exact get_short_update changed terminated

/-- A short node over a full node that lost the rest of the key and stays a full node. -/
theorem deleted_short_update {nn : Node} (nonempty : key ≠ []) (outside : terminator ∉ key) (isFull : nn.isFull)
    (canonicalNew : Canonical nn)
    (changed : ∀ q, Terminated (key ++ q) → get nn q = if q = rest then none else get val q) :
    Deleted (.short key val flags) (key ++ rest) (.short key nn newFlag) :=
  ⟨Or.inr (Or.inr ⟨nonempty, outside, isFull, canonicalNew⟩), fun _ terminated => get_short_update changed terminated⟩

end Deleted

section DeleteSpec

/-- delete keeps a trie canonical or nil and removes the key, and nothing else. -/
theorem delete_spec : ∀ (n : Node) (key : List Nibble), CanonicalOrNil n → Terminated key →
    Deleted n key (delete n key).2
  | .short key val flags, k, shape, terminated => by
      have canonical : Canonical (.short key val flags) := shape.resolve_left (by simp [Node.isEmpty])
      simp only [delete]
      by_cases parts : prefixLen k key < key.length
      · -- the key leaves the short node's key: nothing to delete
        rw [if_pos parts]
        refine deleted_self shape ?_
        have notPrefix : ¬ key <+: k := fun pre => Nat.ne_of_lt parts ((prefixLen_eq_length_iff _ _).mpr pre)
        rw [get_short, if_neg notPrefix]
      have whole : prefixLen k key = key.length := le_antisymm (prefixLen_le_right _ _) (not_lt.mp parts)
      have pre : key <+: k := (prefixLen_eq_length_iff _ _).mp whole
      rw [if_neg parts]
      by_cases ends : prefixLen k key = k.length
      · -- the key is the short node's key: the value goes
        rw [if_pos ends]
        obtain rfl : key = k := pre.eq_of_length (whole.symm.trans ends)
        rcases canonical with ⟨keyTerminated, bytes, _, rfl⟩ | ⟨_, outside, _⟩
        · refine ⟨Or.inl rfl, fun path pathTerminated => ?_⟩
          rw [get_short_value keyTerminated bytes pathTerminated]
          split_ifs <;> rfl
        · exact absurd terminated.mem outside
      rw [if_neg ends]
      rcases canonical with ⟨keyTerminated, _⟩ | ⟨nonemptyKey, outside, isFull, canonicalVal⟩
      · exact absurd (whole.trans (congrArg List.length (keyTerminated.eq_of_prefix terminated pre))) ends
      cases val with
      | full children flags' =>
        -- the key goes on below the full node the short node leads to
        have rejoined : key ++ k.drop key.length = k := List.prefix_iff_eq_append.mp pre
        have restTerminated : Terminated (k.drop key.length) :=
          terminated.drop (by rwa [← List.prefix_iff_eq_take.mp pre])
        have inner := delete_spec (.full children flags') _ (Or.inr canonicalVal) restTerminated
        rcases result : delete (.full children flags') (k.drop key.length) with ⟨_ | _, nn⟩
        · have unchanged := delete_clean _ _ (by rw [result])
          rw [result] at unchanged inner
          have absent := inner.get_eq _ restTerminated
          rw [if_pos rfl, unchanged] at absent
          refine deleted_self shape ?_
          rw [get_short, if_pos pre, absent]
        · rw [result] at inner
          have changed : ∀ q, Terminated (key ++ q) →
              get nn q = if q = k.drop key.length then none else get (.full children flags') q :=
            fun q terminatedQ => inner.get_eq q (terminatedQ.of_append outside)
          have canonicalNew : Canonical nn :=
            inner.shape.resolve_left (by simp [inner.isEmpty_eq_false canonicalVal])
          rw [← rejoined]
          cases nn with
          | short childKey childVal childFlags => exact deleted_short_merge outside canonicalNew changed
          | full children'' flags'' => exact deleted_short_update nonemptyKey outside rfl canonicalNew changed
          | _ => exact canonicalNew.elim
      | _ => cases isFull
  | .full children flags, i :: ks, shape, terminated => by
      have canonical : Canonical (.full children flags) := shape.resolve_left (by simp [Node.isEmpty])
      simp only [delete]
      by_cases atEnd : i = terminator
      · -- the key ends at slot 16
        subst atEnd
        have ended : ks = [] := by
          rcases terminated.cons_cases with ⟨_, ended⟩ | ⟨notEnd, _⟩
          · exact ended
          · exact absurd rfl notEnd
        subst ended
        rcases canonical.children_ok terminator with empty | occupant
        · rw [Node.eq_empty_of_isEmpty empty]
          exact deleted_self shape (by simp [get, Node.eq_empty_of_isEmpty empty])
        · obtain ⟨bytes, _, slot⟩ : ∃ bytes, bytes ≠ [] ∧ children terminator = .value bytes := by
            simpa [Occupant] using occupant
          rw [slot]
          simp only [delete, Node.isEmpty, Bool.not_true, Bool.false_eq_true, if_false, apply_ite Prod.snd]
          apply deleted_full_remove canonical (by rw [slot]; rfl)
          intro q terminatedQ
          rcases terminatedQ.cons_cases with ⟨_, rfl⟩ | ⟨notEnd, _⟩
          · simp [get]
          · exact absurd rfl notEnd
      · -- the key goes on below the child at its first nibble
        have childShape : CanonicalOrNil (children i) := by
          simpa [Occupant, atEnd, CanonicalOrNil] using canonical.children_ok i
        have inner := delete_spec (children i) ks childShape (terminated.of_cons atEnd)
        rcases result : delete (children i) ks with ⟨_ | _, nn⟩
        · have unchanged := delete_clean _ _ (by rw [result])
          rw [result] at unchanged inner
          have absent := inner.get_eq ks (terminated.of_cons atEnd)
          rw [if_pos rfl, unchanged] at absent
          exact deleted_self shape (by simpa [get] using absent)
        · rw [result] at inner
          have changed : ∀ q, Terminated (i :: q) → get nn q = if q = ks then none else get (children i) q :=
            fun q terminatedQ => inner.get_eq q (terminatedQ.of_cons atEnd)
          by_cases emptied : nn.isEmpty
          · -- the child lost its last key
            have occupiedAt : (children i).isEmpty = false := by
              cases occupiedChild : children i with
              | empty => simp [occupiedChild, delete] at result
              | _ => rfl
            obtain rfl := Node.eq_empty_of_isEmpty emptied
            simp only [Node.isEmpty, Bool.not_true, Bool.false_eq_true, if_false, apply_ite Prod.snd]
            exact deleted_full_remove canonical occupiedAt changed
          · have occupant : Occupant i nn := by
              simpa [Occupant, atEnd] using inner.shape.resolve_left emptied
            simp only [emptied, Bool.not_false, if_true]
            exact deleted_full_update canonical occupant changed
  | .full children flags, [], _, terminated => absurd rfl terminated.ne_nil
  | .value _, _, shape, _ => by
      rcases shape with empty | canonical
      · cases empty
      · exact canonical.elim
  | .empty, _, shape, _ => deleted_self shape rfl

end DeleteSpec

end Kardia.Trie
