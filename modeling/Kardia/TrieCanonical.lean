import Kardia.TrieNode

namespace Kardia.Trie

/-!
# Canonical tries

The canonical Patricia form of a set of keys, and that it is unique: two
nodes in canonical form that hold the same values under the same keys are
the same node up to the flags the hasher and the committer keep.

The keys a trie holds are keys in hex form, nibbles below 16 then the
terminator (Terminated); below a short node or a full node, what is left of
a key is again a terminated path, or nothing under slot 16.  In canonical
form a short node leads to a value at the end of a key or to a full node, a
full node has two non-nil children, and so the key of a short node is the
longest prefix its keys share, and a full node stands where they part.
-/

/-- A key in hex form, or what is left of one after nibbles below 16: nibbles below 16, then the terminator. -/
def Terminated (path : List Nibble) : Prop :=
  ∃ nibbles, terminator ∉ nibbles ∧ path = nibbles ++ [terminator]

namespace Terminated

variable {path other key : List Nibble} {i : Nibble}

theorem ne_nil (terminated : Terminated path) : path ≠ [] := by
  obtain ⟨nibbles, _, rfl⟩ := terminated
  simp

theorem singleton : Terminated [terminator] :=
  ⟨[], by simp, rfl⟩

theorem append (outside : terminator ∉ key) (terminated : Terminated path) : Terminated (key ++ path) := by
  obtain ⟨nibbles, absent, rfl⟩ := terminated
  exact ⟨key ++ nibbles, by simp [outside, absent], by simp⟩

theorem cons (notTerminator : i ≠ terminator) (terminated : Terminated path) : Terminated (i :: path) := by
  have outside : terminator ∉ [i] := by simpa [eq_comm] using notTerminator
  simpa using append outside terminated

theorem of_append (outside : terminator ∉ key) (terminated : Terminated (key ++ path)) :
    Terminated path := by
  obtain ⟨nibbles, absent, split⟩ := terminated
  rcases List.eq_nil_or_concat path with rfl | ⟨front, last, rfl⟩
  · rw [List.append_nil] at split
    exact absurd (split ▸ List.mem_append_right nibbles (List.mem_singleton_self _)) outside
  · rw [List.concat_eq_append, ← List.append_assoc] at split
    obtain ⟨joined, _⟩ := List.append_inj' split rfl
    obtain ⟨rfl⟩ : last = terminator := by simpa using (List.append_inj' split rfl).2
    refine ⟨front, fun inFront => absent ?_, List.concat_eq_append⟩
    rw [← joined]
    exact List.mem_append_right key inFront

theorem of_cons (notTerminator : i ≠ terminator) (terminated : Terminated (i :: path)) : Terminated path := by
  have outside : terminator ∉ [i] := by simpa [eq_comm] using notTerminator
  exact of_append outside terminated

/-- No terminated path is a proper prefix of another. -/
theorem eq_of_prefix (terminated : Terminated path) (longer : Terminated other) (pre : path <+: other) :
    path = other := by
  obtain ⟨rest, rfl⟩ := pre
  obtain ⟨nibbles, absent, rfl⟩ := terminated
  obtain ⟨others, absentOthers, joined⟩ := longer
  rcases List.eq_nil_or_concat rest with rfl | ⟨front, last, rfl⟩
  · simp
  · exfalso
    rw [List.concat_eq_append, ← List.append_assoc] at joined
    have split := (List.append_inj' joined rfl).1
    apply absentOthers
    rw [← split]
    simp

/-- Before its end a terminated path holds no terminator. -/
theorem not_mem_take (terminated : Terminated path) {m : Nat} (short : m < path.length) :
    terminator ∉ path.take m := by
  obtain ⟨nibbles, absent, rfl⟩ := terminated
  intro member
  have inNibbles : terminator ∈ nibbles := by
    simp only [List.length_append, List.length_singleton] at short
    rw [List.take_append_of_le_length (by omega)] at member
    exact List.mem_of_mem_take member
  exact absent inNibbles

/-- What is left of a terminated path after a part without the terminator is terminated. -/
theorem drop (terminated : Terminated path) {m : Nat} (outside : terminator ∉ path.take m) :
    Terminated (path.drop m) := by
  rw [← List.take_append_drop m path] at terminated
  exact of_append outside terminated

end Terminated

theorem terminated_keybytesToHex (key : List UInt8) : Terminated (keybytesToHex key) := by
  refine ⟨_, ?_, rfl⟩
  simp only [List.mem_flatMap, List.mem_cons, List.not_mem_nil, or_false, not_exists, not_and]
  intro b _ isNibble
  rcases isNibble with high | low
  · have := b.toNat_lt
    simp only [terminator, Fin.ext_iff] at high
    omega
  · simp only [terminator, Fin.ext_iff] at low
    omega


/-! ## prefixLen -/

section PrefixLen

variable {a b : List Nibble}

theorem prefixLen_le_left : ∀ a b : List Nibble, prefixLen a b ≤ a.length
  | _ :: as, _ :: bs => by
      have shorter := prefixLen_le_left as bs
      simp only [prefixLen, List.length_cons]
      split_ifs <;> omega
  | [], _ => by simp [prefixLen]
  | _ :: _, [] => by simp [prefixLen]

theorem prefixLen_le_right : ∀ a b : List Nibble, prefixLen a b ≤ b.length
  | _ :: as, _ :: bs => by
      have shorter := prefixLen_le_right as bs
      simp only [prefixLen, List.length_cons]
      split_ifs <;> omega
  | [], _ => by simp [prefixLen]
  | _ :: _, [] => by simp [prefixLen]

/-- The two keys agree up to their common prefix length. -/
theorem take_prefixLen : ∀ a b : List Nibble, a.take (prefixLen a b) = b.take (prefixLen a b)
  | x :: as, y :: bs => by
      simp only [prefixLen]
      split_ifs with same
      · simp [same, take_prefixLen as bs]
      · simp
  | [], _ => by simp [prefixLen]
  | _ :: _, [] => by simp [prefixLen]

/-- Where both keys go on, they part at the common prefix length. -/
theorem getD_prefixLen_ne : ∀ a b : List Nibble,
    prefixLen a b < a.length → prefixLen a b < b.length →
      a.getD (prefixLen a b) terminator ≠ b.getD (prefixLen a b) terminator
  | x :: as, y :: bs, inA, inB => by
      simp only [prefixLen] at inA inB ⊢
      split_ifs at inA inB ⊢ with same
      · simpa using getD_prefixLen_ne as bs (by simpa using inA) (by simpa using inB)
      · simpa using same
  | [], _, inA, _ => by simp [prefixLen] at inA
  | _ :: _, [], _, inB => by simp [prefixLen] at inB

/-- The common prefix is the whole second key exactly when that key is a prefix of the first. -/
theorem prefixLen_eq_length_iff : ∀ a b : List Nibble, prefixLen a b = b.length ↔ b <+: a
  | x :: as, y :: bs => by
      simp only [prefixLen, List.length_cons, List.cons_prefix_cons]
      split_ifs with same
      · simp [same, prefixLen_eq_length_iff as bs]
      · simp [Ne.symm same]
  | [], b => by cases b <;> simp [prefixLen]
  | _ :: _, [] => by simp [prefixLen]

end PrefixLen

/-! ## get -/

theorem get_short (key : List Nibble) (val : Node) (flags : NodeFlag) (path : List Nibble) :
    get (.short key val flags) path = if key <+: path then get val (path.drop key.length) else none := by
  simp only [get, List.isPrefixOf_iff_prefix]

theorem get_insertNil (key : List Nibble) (val : Node) (path : List Nibble) :
    get (insertNil key val) path = if key <+: path then get val (path.drop key.length) else none := by
  cases key with
  | nil => simp [insertNil]
  | cons _ _ => simp only [insertNil, get_short]

theorem get_branchOut (existingAt : Nibble) (existing : Node) (addedAt : Nibble) (added : Node)
    (i : Nibble) (rest : List Nibble) :
    get (branchOut existingAt existing addedAt added) (i :: rest) =
      if i = addedAt then get added rest else if i = existingAt then get existing rest else none := by
  simp only [branchOut, get, Function.update_apply]
  split_ifs <;> simp [get]


/-! ## Canonical form -/

/-- Whether a node is a full node. -/
def Node.isFull : Node → Bool
  | .full _ _ => true
  | _ => false

/-- The number of non-nil children of a full node. -/
def occupied (children : Nibble → Node) : Nat :=
  ((List.finRange 17).filter fun i => !(children i).isEmpty).length

/--
The canonical Patricia form of the keys under a node: a short node leads to a
value at the end of a terminated key, or to a full node through nibbles
without the terminator; a full node has at least two non-nil children, no
value below nibbles 0 to 15 and at most a value in slot 16.  No short node
leads to a short node, and no node is nil.
-/
def Canonical : Node → Prop
  | .short key val _ =>
      (Terminated key ∧ ∃ bytes, bytes ≠ [] ∧ val = .value bytes) ∨
        (key ≠ [] ∧ terminator ∉ key ∧ val.isFull ∧ Canonical val)
  | .full children _ =>
      (∀ i, i ≠ terminator → (children i).isEmpty ∨ Canonical (children i)) ∧
        ((children terminator).isEmpty ∨ ∃ bytes, bytes ≠ [] ∧ children terminator = .value bytes) ∧
        2 ≤ occupied children
  | _ => False

/-- Two non-nil children at different nibbles. -/
theorem exists_two_of_occupied {children : Nibble → Node} (two : 2 ≤ occupied children) :
    ∃ i j, i ≠ j ∧ (children i).isEmpty = false ∧ (children j).isEmpty = false := by
  unfold occupied at two
  have distinct := (List.nodup_finRange 17).filter fun i => !(children i).isEmpty
  have listed : ∀ i ∈ (List.finRange 17).filter (fun i => !(children i).isEmpty), (children i).isEmpty = false := by
    intro i member
    simpa using (List.mem_filter.mp member).2
  rcases occupiedList : (List.finRange 17).filter fun i => !(children i).isEmpty with _ | ⟨i, _ | ⟨j, rest⟩⟩
  · simp [occupiedList] at two
  · simp [occupiedList] at two
  · rw [occupiedList] at distinct listed
    refine ⟨i, j, ?_, listed i List.mem_cons_self, listed j (by simp)⟩
    intro same
    subst same
    exact (List.nodup_cons.mp distinct).1 List.mem_cons_self


theorem Node.eq_empty_of_isEmpty : ∀ {n : Node}, n.isEmpty = true → n = .empty
  | .empty, _ => rfl
  | .value _, isEmpty => by cases isEmpty
  | .short .., isEmpty => by cases isEmpty
  | .full .., isEmpty => by cases isEmpty

/-- A node without its flags: what the keys and values under it fix. -/
def Node.erase : Node → Node
  | .short key val _ => .short key val.erase ⟨none, false⟩
  | .full children _ => .full (fun i => (children i).erase) ⟨none, false⟩
  | n => n

section Entries

variable {key : List Nibble} {val : Node} {flags : NodeFlag} {children : Nibble → Node} {i : Nibble}

/-- A short node leading to a value holds that one key. -/
theorem get_short_value (terminated : Terminated key) (bytes : List UInt8) {path : List Nibble}
    (pathTerminated : Terminated path) :
    get (.short key (.value bytes) flags) path = if path = key then some bytes else none := by
  rw [get_short]
  by_cases same : path = key
  · subst same
    simp [get]
  · have notPrefix : ¬ key <+: path := fun pre => same (terminated.eq_of_prefix pathTerminated pre).symm
    simp [notPrefix, same]

/-- Every key under a short node starts with its key. -/
theorem prefix_of_get_short {path : List Nibble} (found : (get (.short key val flags) path).isSome) :
    key <+: path := by
  rw [get_short] at found
  by_contra notPrefix
  simp [notPrefix] at found

/-- A non-nil child of a canonical full node holds a key under the full node. -/
theorem Canonical.entry_of_child (canonical : Canonical (.full children flags))
    (occupiedAt : (children i).isEmpty = false)
    (childEntry : i ≠ terminator → Canonical (children i) →
      ∃ path, Terminated path ∧ (get (children i) path).isSome) :
    ∃ path, Terminated (i :: path) ∧ (get (.full children flags) (i :: path)).isSome := by
  by_cases atEnd : i = terminator
  · subst atEnd
    rcases canonical.2.1 with empty | ⟨bytes, _, slot⟩
    · rw [empty] at occupiedAt
      cases occupiedAt
    · exact ⟨[], Terminated.singleton, by simp [get, slot]⟩
  · have canonicalChild : Canonical (children i) := by
      rcases canonical.1 i atEnd with empty | canonicalChild
      · rw [empty] at occupiedAt
        cases occupiedAt
      · exact canonicalChild
    obtain ⟨path, terminated, found⟩ := childEntry atEnd canonicalChild
    exact ⟨path, terminated.cons atEnd, by simpa [get] using found⟩

/-- A canonical node holds at least one key. -/
theorem Canonical.exists_get : ∀ {n : Node}, Canonical n → ∃ path, Terminated path ∧ (get n path).isSome
  | .short key val flags, canonical => by
      rcases canonical with ⟨terminated, bytes, _, rfl⟩ | ⟨_, outside, _, canonicalVal⟩
      · exact ⟨key, terminated, by simp [get]⟩
      · obtain ⟨path, terminated, found⟩ := Canonical.exists_get canonicalVal
        exact ⟨key ++ path, terminated.append outside, by simpa [get_short] using found⟩
  | .full children flags, canonical => by
      obtain ⟨i, _, _, occupiedAt, _⟩ := exists_two_of_occupied canonical.2.2
      obtain ⟨path, terminated, found⟩ :=
        canonical.entry_of_child occupiedAt fun _ canonicalChild => Canonical.exists_get canonicalChild
      exact ⟨i :: path, terminated, found⟩
  | .empty, canonical => canonical.elim
  | .value _, canonical => canonical.elim

/-- A canonical full node holds keys that part at their first nibble. -/
theorem Canonical.two_entries (canonical : Canonical (.full children flags)) :
    ∃ i j, i ≠ j ∧ ∃ path other, Terminated (i :: path) ∧ (get (.full children flags) (i :: path)).isSome ∧
      Terminated (j :: other) ∧ (get (.full children flags) (j :: other)).isSome := by
  obtain ⟨i, j, differ, occupiedI, occupiedJ⟩ := exists_two_of_occupied canonical.2.2
  obtain ⟨path, terminated, found⟩ :=
    canonical.entry_of_child occupiedI fun _ canonicalChild => canonicalChild.exists_get
  obtain ⟨other, otherTerminated, otherFound⟩ :=
    canonical.entry_of_child occupiedJ fun _ canonicalChild => canonicalChild.exists_get
  exact ⟨i, j, differ, path, other, terminated, found, otherTerminated, otherFound⟩

end Entries


section Unique

variable {key other : List Nibble} {val val' : Node} {flags flags' : NodeFlag} {children children' : Nibble → Node}

/-- Two nodes hold the same values when they agree on every terminated key. -/
def SameEntries (n n' : Node) : Prop :=
  ∀ path, Terminated path → get n path = get n' path

theorem Canonical.key_ne_nil (canonical : Canonical (.short key val flags)) : key ≠ [] := by
  rcases canonical with ⟨terminated, _⟩ | ⟨nonempty, _⟩
  · exact terminated.ne_nil
  · exact nonempty

/-- A short node and a full node in canonical form never hold the same keys. -/
theorem not_sameEntries_short_full (canonical : Canonical (.short key val flags))
    (canonicalFull : Canonical (.full children flags')) :
    ¬ SameEntries (.short key val flags) (.full children flags') := by
  intro same
  obtain ⟨i, j, differ, path, other, terminated, found, otherTerminated, otherFound⟩ :=
    canonicalFull.two_entries
  have atI : key <+: i :: path := prefix_of_get_short (by rw [same _ terminated]; exact found)
  have atJ : key <+: j :: other := prefix_of_get_short (by rw [same _ otherTerminated]; exact otherFound)
  obtain ⟨first, rest, rfl⟩ := List.exists_cons_of_ne_nil canonical.key_ne_nil
  rw [List.cons_prefix_cons] at atI atJ
  exact differ (atI.1.symm.trans atJ.1)

/--
The key of a short node over a full node is a prefix of the key of any short
node with the same entries: past it, the full node's keys part.
-/
theorem prefix_of_sameEntries_short_full (outside : terminator ∉ key)
    (canonicalVal : Canonical (.full children flags'))
    (same : SameEntries (.short key (.full children flags') flags) (.short other val' flags)) :
    other <+: key := by
  obtain ⟨i, j, differ, path, otherPath, terminated, found, otherTerminated, otherFound⟩ :=
    canonicalVal.two_entries
  have foundI : (get (.short other val' flags) (key ++ i :: path)).isSome := by
    rw [← same _ (terminated.append outside), get_short, if_pos (List.prefix_append key _)]
    simpa using found
  have foundJ : (get (.short other val' flags) (key ++ j :: otherPath)).isSome := by
    rw [← same _ (otherTerminated.append outside), get_short, if_pos (List.prefix_append key _)]
    simpa using otherFound
  have atI := prefix_of_get_short foundI
  have atJ := prefix_of_get_short foundJ
  rcases List.prefix_or_prefix_of_prefix atI (List.prefix_append key _) with shorter | longer
  · exact shorter
  · obtain ⟨tail, rfl⟩ := longer
    rcases tail with _ | ⟨next, tail⟩
    · simp
    · rw [List.prefix_append_right_inj, List.cons_prefix_cons] at atI atJ
      exact absurd (atI.1.symm.trans atJ.1) differ

/-- A short node over a value and a short node over a full node never hold the same keys. -/
theorem not_sameEntries_value_full (terminated : Terminated key) (bytes : List UInt8)
    (outside : terminator ∉ other) (canonicalVal : Canonical (.full children flags')) :
    ¬ SameEntries (.short key (.value bytes) flags) (.short other (.full children flags') flags) := by
  intro same
  obtain ⟨i, j, differ, path, otherPath, pathTerminated, found, otherTerminated, otherFound⟩ :=
    canonicalVal.two_entries
  have single : ∀ rest, Terminated rest →
      (get (.full children flags') rest).isSome → other ++ rest = key := by
    intro rest restTerminated restFound
    have atKey := same _ (restTerminated.append outside)
    rw [get_short_value terminated bytes (restTerminated.append outside), get_short,
      if_pos (List.prefix_append other rest), List.drop_left] at atKey
    by_contra differs
    rw [if_neg differs] at atKey
    rw [← atKey] at restFound
    cases restFound
  have both := (single _ pathTerminated found).trans (single _ otherTerminated otherFound).symm
  rw [List.append_cancel_left_eq, List.cons.injEq] at both
  exact differ both.1

/-- Nodes in canonical form that hold the same keys and values are the same up to their flags. -/
theorem erase_eq_of_sameEntries : ∀ {n n' : Node}, Canonical n → Canonical n' → SameEntries n n' →
    n.erase = n'.erase
  | .short key val flags, .short other val' flags', canonical, canonical', same => by
      rcases canonical with ⟨terminated, bytes, _, rfl⟩ | ⟨_, outside, isFull, canonicalVal⟩ <;>
        rcases canonical' with ⟨terminated', bytes', _, rfl⟩ | ⟨_, outside', isFull', canonicalVal'⟩
      · -- both lead to a value: the one key and its value agree
        have atKey := same key terminated
        rw [get_short_value terminated bytes terminated, get_short_value terminated' bytes' terminated,
          if_pos rfl] at atKey
        by_cases sameKey : key = other
        · subst sameKey
          rw [if_pos rfl, Option.some.injEq] at atKey
          subst atKey
          rfl
        · rw [if_neg sameKey] at atKey
          cases atKey
      · cases val' with
        | full children' flags'' => exact absurd same (not_sameEntries_value_full terminated bytes outside' canonicalVal')
        | _ => cases isFull'
      · cases val with
        | full children flags'' =>
            exact absurd (fun path terminated => (same path terminated).symm)
              (not_sameEntries_value_full terminated' bytes' outside canonicalVal)
        | _ => cases isFull
      · -- both lead to a full node: the keys end where the full nodes' keys part
        cases val with
        | full children flags'' =>
          cases val' with
          | full children' flags''' =>
            have shorter := prefix_of_sameEntries_short_full outside canonicalVal same
            have longer := prefix_of_sameEntries_short_full outside' canonicalVal'
              fun path terminated => (same path terminated).symm
            obtain rfl : other = key := shorter.eq_of_length (Nat.le_antisymm shorter.length_le longer.length_le)
            have sameVal : SameEntries (.full children flags'') (.full children' flags''') := by
              intro path terminated
              have atPath := same _ (terminated.append outside)
              simpa only [get_short, List.prefix_append, if_true, List.drop_left] using atPath
            have erased := erase_eq_of_sameEntries canonicalVal canonicalVal' sameVal
            simp only [Node.erase] at erased ⊢
            rw [erased]
          | _ => cases isFull'
        | _ => cases isFull
  | .short key val flags, .full children' flags', canonical, canonical', same =>
      absurd same (not_sameEntries_short_full canonical canonical')
  | .full children flags, .short key val' flags', canonical, canonical', same =>
      absurd (fun path terminated => (same path terminated).symm)
        (not_sameEntries_short_full canonical' canonical)
  | .full children flags, .full children' flags', canonical, canonical', same => by
      simp only [Node.erase, Node.full.injEq, and_true]
      funext i
      by_cases atEnd : i = terminator
      · -- slot 16 holds nil or the value of the key that ends here
        subst atEnd
        have atSlot := same [terminator] Terminated.singleton
        simp only [get] at atSlot
        rcases canonical.2.1 with empty | ⟨bytes, _, slot⟩ <;>
          rcases canonical'.2.1 with empty' | ⟨bytes', _, slot'⟩
        · rw [Node.eq_empty_of_isEmpty empty, Node.eq_empty_of_isEmpty empty']
        · rw [Node.eq_empty_of_isEmpty empty, slot'] at atSlot
          cases atSlot
        · rw [Node.eq_empty_of_isEmpty empty', slot] at atSlot
          cases atSlot
        · rw [slot, slot'] at atSlot ⊢
          simp only [get, Option.some.injEq] at atSlot
          rw [atSlot]
      · -- below nibbles 0 to 15: nil on both sides, or the same keys on both sides
        have sameChild : SameEntries (children i) (children' i) := fun path terminated => by
          simpa only [get] using same (i :: path) (terminated.cons atEnd)
        rcases canonical.1 i atEnd with empty | canonicalChild <;>
          rcases canonical'.1 i atEnd with empty' | canonicalChild'
        · rw [Node.eq_empty_of_isEmpty empty, Node.eq_empty_of_isEmpty empty']
        · obtain ⟨path, terminated, found⟩ := canonicalChild'.exists_get
          rw [← sameChild path terminated, Node.eq_empty_of_isEmpty empty] at found
          cases found
        · obtain ⟨path, terminated, found⟩ := canonicalChild.exists_get
          rw [sameChild path terminated, Node.eq_empty_of_isEmpty empty'] at found
          cases found
        · exact erase_eq_of_sameEntries canonicalChild canonicalChild' sameChild
  | .empty, _, canonical, _, _ => canonical.elim
  | .value _, _, canonical, _, _ => canonical.elim
  | .short .., .empty, _, canonical', _ => canonical'.elim
  | .short .., .value _, _, canonical', _ => canonical'.elim
  | .full .., .empty, _, canonical', _ => canonical'.elim
  | .full .., .value _, _, canonical', _ => canonical'.elim

end Unique

end Kardia.Trie
