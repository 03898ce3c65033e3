import Mathlib
import Kardia.KeyedFold
import Kardia.TrieDecode

/-!
# Merkle proofs of the trie

Prove (proof.go) collects the nodes on the path to a key and writes the
encoding of each one that its parent references by hash, and of the root,
under its Keccak hash; VerifyProof starts from a root hash, looks the node up,
decodes it, walks it with get as far as the key leads without leaving it, and
goes on with the hash it reaches, until it reaches a value or nil.

For a trie made by NewEmpty and any updates, deletes and hashes, the proof of
any key verifies against the trie's hash and gives the value Get gives
(verifyProof_prove), unless two of the trie's nodes collide under Keccak; and
what VerifyProof accepts from any database that stores values under their
hashes is what Get gives, or two byte strings collide (verifyProof_sound).

The hasher's view of a node is collapse: its key compact, its children hashed
or embedded, computed afresh; Prove's proofHash gives the same node from the
hashes the trie caches, and decodeNode reads its encoding back.
-/

namespace Kardia.Trie

open Rlp

section Model

variable (keccak : List UInt8 → List UInt8)

/-! ## Prove -/

/--
hashShortNodeChildren, the collapsed half: the key in compact form, and a
short or full child hashed, with the hashes cached in it.
-/
def hashShortNodeChildren (key : List Nibble) (val : Node) : Collapsed :=
  .short (hexToCompact key)
    (match val with
      | .short .. | .full .. => (hash Collapsed.encode keccak val false).1
      | _ => leafCollapsed val)

/-- hashFullNodeChildren, the collapsed half: children 0 to 15 hashed, nil ones as nilValueNode, and slot 16 kept. -/
def hashFullNodeChildren (children : Nibble → Node) : Collapsed :=
  .full fun i =>
    if i = terminator then leafCollapsed (children i)
    else if (children i).isEmpty then .value []
    else (hash Collapsed.encode keccak (children i) false).1

/-- proofHash: the node with its children hashed, and that node hashed unless it is small enough to embed. -/
def proofHash : Node → Collapsed × Collapsed
  | .short key val _ =>
      let collapsed := hashShortNodeChildren keccak key val
      (collapsed, toHash Collapsed.encode keccak collapsed false)
  | .full children _ =>
      let collapsed := hashFullNodeChildren keccak children
      (collapsed, toHash Collapsed.encode keccak collapsed false)
  | n => (leafCollapsed n, leafCollapsed n)

/--
The nodes Prove collects on the path from a node: it stops at nil, at a short
node the key does not go through, and where the key is used up.  A value
node reached with key left over makes Go panic; here the result is none.
-/
def proofNodes : Node → List Nibble → Option (List Node)
  | _, [] => some []
  | .empty, _ :: _ => some []
  | .short key val flags, path@(_ :: _) =>
      if key.isPrefixOf path then (proofNodes val (path.drop key.length)).map (.short key val flags :: ·)
      else some [.short key val flags]
  | .full children flags, i :: rest => (proofNodes (children i) rest).map (.full children flags :: ·)
  | .value _, _ :: _ => none

/-- What Prove writes for the i-th node of the path: its encoding under its hash, if it is hashed or is the root. -/
def proofEntry (i : Nat) (n : Node) : Option (List UInt8 × List UInt8) :=
  match proofHash keccak n with
  | (collapsed, .hash h) => some (h, collapsed.encode)
  | (collapsed, _) => if i = 0 then some (keccak collapsed.encode, collapsed.encode) else none

/-- Trie.Prove: the puts it makes, in order, skipping the first fromLevel nodes; none where it panics. -/
def prove (root : Node) (key : List UInt8) (fromLevel : Nat) : Option (List (List UInt8 × List UInt8)) :=
  (proofNodes root (keybytesToHex key)).map fun nodes =>
    (nodes.zipIdx.drop fromLevel).filterMap fun entry => proofEntry keccak entry.2 entry.1

/-- A memory database after some puts in order: each key holds the last value put under it. -/
def putAll (puts : List (List UInt8 × List UInt8)) : List UInt8 → Option (List UInt8) :=
  puts.foldl (fun db entry => Function.update db entry.1 (some entry.2)) fun _ => none

/-! ## VerifyProof -/

/--
get of proof.go: walk a decoded node along a key.  With skipResolved it goes
on through short and full nodes and stops at a hash node, nil or a value; a
short node the key does not go through gives nil.  A full node reached with
the key used up makes Go index past the key and panic; here the result is none.
-/
def proofGet (skipResolved : Bool) : Loaded → List Nibble → Option (List Nibble × Loaded)
  | .short key val, path =>
      if key.isPrefixOf path then
        if skipResolved then proofGet skipResolved val (path.drop key.length)
        else some (path.drop key.length, val)
      else some ([], .empty)
  | .full children, i :: rest =>
      if skipResolved then proofGet skipResolved (children i) rest else some (rest, children i)
  | .full _, [] => none
  | .hash bytes, path => some (path, .hash bytes)
  | .empty, path => some (path, .empty)
  | .value bytes, _ => some ([], .value bytes)

/-- The errors of VerifyProof. -/
inductive ProofError where
  /-- "proof node %d (hash %064x) missing" -/
  | missing (index : Nat) (hash : List UInt8)
  /-- "bad proof node %d: %v" -/
  | bad (index : Nat) (err : DecodeError)

/--
VerifyProof's loop from proof node i on, for at most fuel nodes.  none stands
for no result: the loop has run past the fuel, or get has panicked.  A hash
node from decodeNode has 32 bytes, so copying it into wantHash replaces it.
-/
def verifyLoop (db : List UInt8 → Option (List UInt8)) :
    Nat → Nat → List UInt8 → List Nibble → Option (Except ProofError (Option (List UInt8)))
  | 0, _, _, _ => none
  | fuel + 1, i, wantHash, key =>
      match db wantHash with
      | none => some (.error (.missing i wantHash))
      | some buf =>
          match decodeNode buf with
          | .error err => some (.error (.bad i err))
          | .ok n =>
              match proofGet true n key with
              | none => none
              | some (_, .empty) => some (.ok none)
              | some (keyrest, .hash h) => verifyLoop db fuel (i + 1) h keyrest
              | some (_, .value v) => some (.ok (some v))
              -- get stops at nothing else; Go's switch would go round with the same hash
              | some (_, _) => verifyLoop db fuel (i + 1) wantHash key

/-- VerifyProof: the value under key in the trie with root hash rootHash, by the proof in db. -/
def verifyProof (fuel : Nat) (db : List UInt8 → Option (List UInt8)) (rootHash key : List UInt8) :
    Option (Except ProofError (Option (List UInt8))) :=
  verifyLoop db fuel 0 rootHash (keybytesToHex key)

end Model

/-! ## The hasher's view of a node -/

section Collapse

variable (keccak : List UInt8 → List UInt8)

/--
The node the hasher collapses a short or full node to, with every hash below
it computed afresh: the key compact, and each child hashed or embedded.
-/
def collapse : Node → Collapsed
  | .short key val _ => .short (hexToCompact key) (hashOf Collapsed.encode keccak val false)
  | .full children _ =>
      .full fun i =>
        if i = terminator then leafCollapsed (children i)
        else if (children i).isEmpty then .value []
        else hashOf Collapsed.encode keccak (children i) false
  | n => leafCollapsed n

/-- The value of a short node, or a child of a full node. -/
inductive Child : Node → Node → Prop
  | short (key : List Nibble) (val : Node) (flags : NodeFlag) : Child (.short key val flags) val
  | full (children : Nibble → Node) (flags : NodeFlag) (i : Nibble) : Child (.full children flags) (children i)

/-- The nodes of a trie: its root and every node below it. -/
def Below (root c : Node) : Prop :=
  Relation.ReflTransGen Child root c

/-- The encodings of the short and full nodes of a trie, with every hash below them computed afresh. -/
def nodeEncodings (root : Node) : Set (List UInt8) :=
  {enc | ∃ c, Below root c ∧ Canonical c ∧ enc = (collapse keccak c).encode}

variable {keccak}

/-- A short or full node hashes as its collapsed node does. -/
theorem hashOf_of_canonical {n : Node} (canonical : Canonical n) (force : Bool) :
    hashOf Collapsed.encode keccak n force = toHash Collapsed.encode keccak (collapse keccak n) force := by
  cases n with
  | short => rfl
  | full => rfl
  | empty => exact canonical.elim
  | value => exact canonical.elim

/-- Below the root, a node is embedded when its encoding is shorter than 32 bytes, and hashed otherwise. -/
theorem toHash_below (c : Collapsed) :
    (c.encode.length < 32 ∧ toHash Collapsed.encode keccak c false = c) ∨
      (32 ≤ c.encode.length ∧ toHash Collapsed.encode keccak c false = .hash (keccak c.encode)) := by
  by_cases small : c.encode.length < 32
  · exact Or.inl ⟨small, by simp [toHash, small]⟩
  · exact Or.inr ⟨by omega, by simp [toHash, small]⟩

/-- hashShortNodeChildren on a short node with valid caches below it: its collapsed node. -/
theorem hashShortNodeChildren_eq (key : List Nibble) {val : Node}
    (valid : CacheValid Collapsed.encode keccak false val) (flags : NodeFlag) :
    hashShortNodeChildren keccak key val = collapse keccak (.short key val flags) := by
  simp only [hashShortNodeChildren, collapse, ← (hash_spec val false valid).1]
  -- hash leaves a value or nil as hashShortNodeChildren does
  cases val <;> rfl

/-- hashFullNodeChildren on a full node with valid caches below it: its collapsed node. -/
theorem hashFullNodeChildren_eq {children : Nibble → Node}
    (valid : ∀ i, CacheValid Collapsed.encode keccak false (children i)) (flags : NodeFlag) :
    hashFullNodeChildren keccak children = collapse keccak (.full children flags) := by
  simp only [hashFullNodeChildren, collapse]
  congr 1
  funext i
  rw [(hash_spec (children i) false (valid i)).1]

/-- Prove's proofHash on a node with valid caches: its collapsed node, and that node hashed below a root. -/
theorem proofHash_eq {n : Node} {force : Bool} (valid : CacheValid Collapsed.encode keccak force n)
    (canonical : Canonical n) :
    proofHash keccak n = (collapse keccak n, toHash Collapsed.encode keccak (collapse keccak n) false) := by
  cases n with
  | short key val flags => simp only [proofHash, hashShortNodeChildren_eq key valid.2 flags]
  | full children flags => simp only [proofHash, hashFullNodeChildren_eq valid.2 flags]
  | empty => exact canonical.elim
  | value => exact canonical.elim

/-- Nothing lies below a value but itself. -/
theorem below_value {bytes : List UInt8} {c : Node} (below : Below (.value bytes) c) : c = .value bytes := by
  rcases Relation.ReflTransGen.cases_head below with same | ⟨_, child, _⟩
  · exact same.symm
  · cases child

/-- Below a short node lie the node itself and what lies below its value. -/
theorem below_short {key : List Nibble} {val c : Node} {flags : NodeFlag} (below : Below (.short key val flags) c) :
    c = .short key val flags ∨ Below val c := by
  rcases Relation.ReflTransGen.cases_head below with same | ⟨_, child, rest⟩
  · exact Or.inl same.symm
  · cases child
    exact Or.inr rest

end Collapse

/-! ## The path to a key -/

section Path

variable {key p rest : List Nibble} {val m c : Node} {flags : NodeFlag}

theorem proofNodes_short (nonempty : p ≠ []) :
    proofNodes (.short key val flags) p =
      if key <+: p then (proofNodes val (p.drop key.length)).map (.short key val flags :: ·)
      else some [.short key val flags] := by
  obtain ⟨head, tail, rfl⟩ := List.exists_cons_of_ne_nil nonempty
  simp only [proofNodes, List.isPrefixOf_iff_prefix]

theorem proofGet_short (loaded : Loaded) :
    proofGet true (.short key loaded) p =
      if key <+: p then proofGet true loaded (p.drop key.length) else some ([], .empty) := by
  simp only [proofGet, List.isPrefixOf_iff_prefix, if_true]

/-- A terminated key that a short node's terminated key starts is that key, with nothing left. -/
theorem Terminated.drop_eq_nil (terminated : Terminated key) (pathTerminated : Terminated p) (pre : key <+: p) :
    p.drop key.length = [] := by
  rw [← terminated.eq_of_prefix pathTerminated pre, List.drop_length]

/-- What a short node's key without the terminator leaves of a terminated key is terminated and shorter. -/
theorem Terminated.drop_key (terminated : Terminated p) (outside : terminator ∉ key) (nonempty : key ≠ [])
    (pre : key <+: p) : Terminated (p.drop key.length) ∧ (p.drop key.length).length < p.length := by
  have taken : p.take key.length = key := List.prefix_iff_eq_take.mp pre |>.symm
  refine ⟨terminated.drop (by rwa [taken]), ?_⟩
  have longer : key.length ≤ p.length := pre.length_le
  have positive : 0 < key.length := List.length_pos_iff.mpr nonempty
  simp only [List.length_drop]
  omega

/-- A terminated key that starts with the terminator is the terminator alone. -/
theorem Terminated.eq_nil_of_terminator (terminated : Terminated (terminator :: rest)) : rest = [] := by
  obtain ⟨nibbles, absent, split⟩ := terminated
  cases nibbles with
  | nil => simpa using split
  | cons first _ =>
      simp only [List.cons_append, List.cons.injEq] at split
      obtain ⟨rfl, -⟩ := split
      exact absurd List.mem_cons_self absent

/-- A canonical short node's key survives the compact form. -/
theorem Canonical.compactToHex_key (canonical : Canonical (.short key val flags)) :
    compactToHex (hexToCompact key) = key := by
  apply compactToHex_hexToCompact
  rcases canonical with ⟨⟨nibbles, absent, rfl⟩, _⟩ | ⟨_, outside, _⟩
  · simpa using absent
  · exact fun inFront => outside (List.mem_of_mem_dropLast inFront)

end Path

/-! ## What decodeNode reads back -/

section Readable

variable {keccak : List UInt8 → List UInt8}

/-- A node that decodeNode reads as a node is read as a reference too, when its encoding fits in a hash. -/
theorem Collapsed.Readable.asRef {c : Collapsed} (readable : c.Readable false) (small : c.encode.length ≤ hashLen) :
    c.Readable true := by
  cases c with
  | short => exact ⟨fun _ => small, readable.2⟩
  | full => exact ⟨fun _ => small, readable.2⟩
  | empty => cases readable
  | value => cases readable.1
  | hash => cases readable.1

/-- A readable node stands in its parent as a readable reference, embedded or by its 32-byte hash. -/
theorem readable_toHash (hashLength : ∀ bytes, (keccak bytes).length = 32) {c : Collapsed}
    (readable : c.Readable false) : (toHash Collapsed.encode keccak c false).Readable true := by
  rcases toHash_below c with ⟨small, embedded⟩ | ⟨_, hashed⟩
  · rw [embedded]
    exact readable.asRef (by unfold hashLen; omega)
  · rw [hashed]
    exact ⟨rfl, hashLength _⟩

/-- The collapsed node of a canonical node is one that decodeNode reads back. -/
theorem readable_collapse (hashLength : ∀ bytes, (keccak bytes).length = 32) :
    ∀ {n : Node}, Canonical n → (collapse keccak n).Readable false
  | .short key val _, canonical => by
      have compact := canonical.compactToHex_key
      rcases canonical with ⟨⟨nibbles, _, rfl⟩, bytes, nonempty, rfl⟩ | ⟨_, outside, _, canonicalVal⟩
      · -- a leaf: the key keeps its terminator and leads to the value
        refine ⟨nofun, Or.inl ⟨?_, bytes, nonempty, rfl⟩⟩
        rw [compact]
        exact hasTerm_append_terminator nibbles
      · refine ⟨nofun, Or.inr ⟨?_, ?_⟩⟩
        · rw [compact]
          exact hasTerm_of_not_mem outside
        · rw [hashOf_of_canonical canonicalVal]
          exact readable_toHash hashLength (readable_collapse hashLength canonicalVal)
  | .full children _, ⟨childrenCanonical, slot, _⟩ => by
      refine ⟨nofun, fun i notTerminator => ?_, ?_⟩
      · dsimp only
        rw [if_neg notTerminator]
        split_ifs with empty
        · exact ⟨rfl, rfl⟩
        · have canonicalChild : Canonical (children i) :=
            (childrenCanonical i notTerminator).resolve_left empty
          rw [hashOf_of_canonical canonicalChild]
          exact readable_toHash hashLength (readable_collapse hashLength canonicalChild)
      · dsimp only
        rw [if_pos rfl]
        rcases slot with empty | ⟨bytes, _, isValue⟩
        · rw [Node.eq_empty_of_isEmpty empty]
          exact Or.inl rfl
        · rw [isValue]
          exact Or.inr ⟨bytes, rfl⟩
  | .empty, canonical => canonical.elim
  | .value _, canonical => canonical.elim

end Readable

/-! ## One proof node: what Prove collects and where get stops -/

section Walk

variable (keccak : List UInt8 → List UInt8)

/--
Where VerifyProof's get, on the decoded node of m, stops along the key p: at
nil or a value, as Get does, or at the hash of a canonical node c below m
with what is left of the key, where Get finds what it finds in m and whose
path Prove collects on the way to p.
-/
def StopsAt (m : Node) (p : List Nibble) : List Nibble × Loaded → Prop
  | (_, .empty) => get m p = none
  | (_, .value bytes) => get m p = some bytes
  | (rest, .hash h) =>
      ∃ c before, Canonical c ∧ Below m c ∧ Terminated rest ∧ rest.length < p.length ∧ get c rest = get m p ∧
        32 ≤ (collapse keccak c).encode.length ∧ h = keccak (collapse keccak c).encode ∧
        proofNodes m p = (proofNodes c rest).map (before ++ ·)
  | _ => False

variable {keccak} {key p rest : List Nibble} {m c : Node} {flags : NodeFlag}

theorem proofNodes_nil (n : Node) : proofNodes n [] = some [] := by
  cases n <;> rfl

theorem proofNodes_empty (p : List Nibble) : proofNodes .empty p = some [] := by
  cases p <;> rfl

/-- The nodes after the first one Prove collects, with what it knows of them. -/
theorem mem_cons_below {tail : List Node} (child : Child m c) (canonical : Canonical c)
    (below : ∀ d ∈ tail, Canonical d ∧ Below c d) : ∀ d ∈ c :: tail, Canonical d ∧ Below m d := by
  intro d member
  rcases List.mem_cons.mp member with rfl | later
  · exact ⟨canonical, Relation.ReflTransGen.single child⟩
  · exact ⟨(below d later).1, Relation.ReflTransGen.head child (below d later).2⟩

/--
On a canonical node and a terminated key, Prove collects the node first and
then only canonical nodes below it, fewer than the nibbles of the key, and
never panics.
-/
theorem proofNodes_canonical : ∀ {m : Node} {p : List Nibble}, Canonical m → Terminated p →
    ∃ tail, proofNodes m p = some (m :: tail) ∧ tail.length < p.length ∧ ∀ c ∈ tail, Canonical c ∧ Below m c
  | .short key val flags, p, canonical, terminated => by
      have somewhere : 0 < p.length := List.length_pos_iff.mpr terminated.ne_nil
      rw [proofNodes_short terminated.ne_nil]
      by_cases pre : key <+: p
      · rw [if_pos pre]
        rcases canonical with ⟨keyTerminated, bytes, _, rfl⟩ | ⟨nonempty, outside, _, canonicalVal⟩
        · -- a leaf: the key is used up at the value
          rw [keyTerminated.drop_eq_nil terminated pre, proofNodes_nil]
          exact ⟨[], rfl, somewhere, nofun⟩
        · -- the key goes on below, at least one nibble shorter
          obtain ⟨restTerminated, shorter⟩ := terminated.drop_key outside nonempty pre
          obtain ⟨tail, found, fewer, below⟩ := proofNodes_canonical canonicalVal restTerminated
          refine ⟨val :: tail, by rw [found]; rfl, by simp only [List.length_cons]; omega, ?_⟩
          exact mem_cons_below (.short key val flags) canonicalVal below
      · rw [if_neg pre]
        exact ⟨[], rfl, somewhere, nofun⟩
  | .full children flags, p, ⟨childrenCanonical, _, _⟩, terminated => by
      obtain ⟨i, rest, rfl⟩ := List.exists_cons_of_ne_nil terminated.ne_nil
      show ∃ tail, (proofNodes (children i) rest).map (.full children flags :: ·) = _ ∧ _
      by_cases atEnd : i = terminator
      · -- slot 16 ends the key
        subst atEnd
        rw [terminated.eq_nil_of_terminator, proofNodes_nil]
        exact ⟨[], rfl, by simp, nofun⟩
      · rcases childrenCanonical i atEnd with empty | canonicalChild
        · rw [Node.eq_empty_of_isEmpty empty, proofNodes_empty]
          exact ⟨[], rfl, by simp, nofun⟩
        · obtain ⟨tail, found, fewer, below⟩ := proofNodes_canonical canonicalChild (terminated.of_cons atEnd)
          refine ⟨children i :: tail, by rw [found]; rfl, by simpa using fewer, ?_⟩
          exact mem_cons_below (.full children flags i) canonicalChild below
  | .empty, _, canonical, _ => canonical.elim
  | .value _, _, canonical, _ => canonical.elim

/-- Where get stops below a child it stops for the parent too, with the child's part of the key consumed. -/
theorem StopsAt.lift {p' : List Nibble} {r : List Nibble × Loaded} (stops : StopsAt keccak c p' r)
    (child : Child m c) (shorter : p'.length < p.length) (sameGet : get c p' = get m p)
    (path : proofNodes m p = (proofNodes c p').map (m :: ·)) : StopsAt keccak m p r := by
  obtain ⟨rest, loaded⟩ := r
  cases loaded with
  | empty =>
      show get m p = none
      exact sameGet ▸ stops
  | value bytes =>
      show get m p = some bytes
      exact sameGet ▸ stops
  | hash h =>
      obtain ⟨d, before, canonical, below, terminated, shorterThere, found, large, hashed, dPath⟩ := stops
      refine ⟨d, m :: before, canonical, .head child below, terminated, by omega, found.trans sameGet, large,
        hashed, ?_⟩
      rw [path, dPath, Option.map_map]
      rfl
  | short => exact stops.elim
  | full => exact stops.elim

/--
get on the reference to a canonical child: where it stops in the child when
the child is embedded, and at the child's hash, with the key as it reaches
the child, when the child is hashed.
-/
theorem proofGet_child {p' : List Nibble} (child : Child m c) (canonical : Canonical c) (terminated : Terminated p')
    (shorter : p'.length < p.length) (sameGet : get c p' = get m p)
    (path : proofNodes m p = (proofNodes c p').map (m :: ·))
    (walk : ∃ r, proofGet true (collapse keccak c).loaded p' = some r ∧ StopsAt keccak c p' r) :
    ∃ r, proofGet true (hashOf Collapsed.encode keccak c false).loaded p' = some r ∧ StopsAt keccak m p r := by
  rw [hashOf_of_canonical canonical]
  rcases toHash_below (collapse keccak c) with ⟨_, embedded⟩ | ⟨large, hashed⟩
  · obtain ⟨r, stopped, stops⟩ := walk
    rw [embedded]
    exact ⟨r, stopped, stops.lift child shorter sameGet path⟩
  · rw [hashed]
    exact ⟨(p', .hash (keccak (collapse keccak c).encode)), rfl,
      c, [m], canonical, .single child, terminated, shorter, sameGet, large, rfl, path⟩

/--
VerifyProof's get on the decoded node of a canonical node, along any
terminated key: it stops, and where StopsAt says.
-/
theorem proofGet_collapse : ∀ {m : Node} {p : List Nibble}, Canonical m → Terminated p →
    ∃ r, proofGet true (collapse keccak m).loaded p = some r ∧ StopsAt keccak m p r
  | .short key val flags, p, canonical, terminated => by
      have compact := canonical.compactToHex_key
      simp only [collapse, Collapsed.loaded, compact, proofGet_short]
      by_cases pre : key <+: p
      · rw [if_pos pre]
        rcases canonical with ⟨keyTerminated, bytes, nonempty, rfl⟩ | ⟨nonempty, outside, _, canonicalVal⟩
        · -- a leaf: the key ends at the value
          have atEnd := keyTerminated.drop_eq_nil terminated pre
          refine ⟨([], .value bytes), ?_, ?_⟩
          · simp [hashOf, leafCollapsed, Collapsed.loaded, nonempty, proofGet]
          · show get _ p = some bytes
            rw [get_short, if_pos pre, atEnd]
            rfl
        · obtain ⟨restTerminated, shorter⟩ := terminated.drop_key outside nonempty pre
          exact proofGet_child (.short key val flags) canonicalVal restTerminated shorter
            (by rw [get_short, if_pos pre])
            (by rw [proofNodes_short terminated.ne_nil, if_pos pre]) (proofGet_collapse canonicalVal restTerminated)
      · rw [if_neg pre]
        exact ⟨([], .empty), rfl, by show get _ p = none; rw [get_short, if_neg pre]⟩
  | .full children flags, p, ⟨childrenCanonical, slot, _⟩, terminated => by
      obtain ⟨i, rest, rfl⟩ := List.exists_cons_of_ne_nil terminated.ne_nil
      simp only [collapse, Collapsed.loaded, proofGet, if_true]
      by_cases atEnd : i = terminator
      · -- slot 16: nil or a value, with the key used up
        subst atEnd
        rw [terminated.eq_nil_of_terminator, if_pos rfl]
        rcases slot with empty | ⟨bytes, nonempty, isValue⟩
        · have slotEmpty := Node.eq_empty_of_isEmpty empty
          refine ⟨([], .empty), by rw [slotEmpty]; rfl, ?_⟩
          show get (children terminator) [] = none
          rw [slotEmpty]
          rfl
        · refine ⟨([], .value bytes), by simp [isValue, leafCollapsed, Collapsed.loaded, nonempty, proofGet], ?_⟩
          show get (children terminator) [] = some bytes
          rw [isValue]
          rfl
      · rw [if_neg atEnd]
        by_cases empty : (children i).isEmpty
        · rw [if_pos empty]
          refine ⟨(rest, .empty), by simp [Collapsed.loaded, proofGet], ?_⟩
          show get (children i) rest = none
          rw [Node.eq_empty_of_isEmpty empty]
          rfl
        · rw [if_neg empty]
          have canonicalChild := (childrenCanonical i atEnd).resolve_left empty
          exact proofGet_child (.full children flags i) canonicalChild (terminated.of_cons atEnd) (by simp) rfl rfl
            (proofGet_collapse canonicalChild (terminated.of_cons atEnd))
  | .empty, _, canonical, _ => canonical.elim
  | .value _, _, canonical, _ => canonical.elim

end Walk

/-! ## VerifyProof along the path -/

section Verify

variable {keccak : List UInt8 → List UInt8} {db : List UInt8 → Option (List UInt8)}
  {fuel i : Nat} {m : Node} {p : List Nibble}

/--
One round of VerifyProof at a canonical node that the database holds under
its hash: it ends with what Get gives, or goes on at the hash of a node below
with what is left of the key.
-/
theorem verifyLoop_round (hashLength : ∀ bytes, (keccak bytes).length = 32) (canonical : Canonical m)
    (terminated : Terminated p) (fits : (collapse keccak m).encode.length < 2 ^ 64)
    (stored : db (keccak (collapse keccak m).encode) = some (collapse keccak m).encode) :
    verifyLoop db (fuel + 1) i (keccak (collapse keccak m).encode) p = some (.ok (get m p)) ∨
      ∃ c rest before, Canonical c ∧ Below m c ∧ Terminated rest ∧ rest.length < p.length ∧
        get c rest = get m p ∧ 32 ≤ (collapse keccak c).encode.length ∧
        proofNodes m p = (proofNodes c rest).map (before ++ ·) ∧
        verifyLoop db (fuel + 1) i (keccak (collapse keccak m).encode) p =
          verifyLoop db fuel (i + 1) (keccak (collapse keccak c).encode) rest := by
  have decoded := decodeNode_encode _ (readable_collapse hashLength canonical) fits
  have walk : ∃ r, proofGet true (collapse keccak m).loaded p = some r ∧ StopsAt keccak m p r :=
    proofGet_collapse canonical terminated
  obtain ⟨⟨rest, loaded⟩, stopped, stops⟩ := walk
  cases loaded with
  | empty =>
      left
      simp only [verifyLoop, stored, decoded, stopped]
      rw [show get m p = none from stops]
  | value bytes =>
      left
      simp only [verifyLoop, stored, decoded, stopped]
      rw [show get m p = some bytes from stops]
  | hash h =>
      obtain ⟨c, before, canonicalC, below, restTerminated, shorter, found, large, hashed, path⟩ := stops
      right
      refine ⟨c, rest, before, canonicalC, below, restTerminated, shorter, found, large, path, ?_⟩
      simp only [verifyLoop, stored, decoded, stopped, hashed]
  | short => exact stops.elim
  | full => exact stops.elim

variable (keccak) in
/--
A database that holds a proof path from m: under its hash, the encoding of m
and of each node on the path that its parent references by hash, each
within RLP's sizes.
-/
def HoldsPath (db : List UInt8 → Option (List UInt8)) (m : Node) (nodes : List Node) : Prop :=
  ∀ c ∈ nodes, (c = m ∨ 32 ≤ (collapse keccak c).encode.length) →
    db (keccak (collapse keccak c).encode) = some (collapse keccak c).encode ∧
      (collapse keccak c).encode.length < 2 ^ 64

/--
VerifyProof on a database that holds the proof path of a canonical node and
a terminated key, with a round for each nibble of the key: it gives what Get
gives.
-/
theorem verifyLoop_complete (hashLength : ∀ bytes, (keccak bytes).length = 32) (fuel : Nat) :
    ∀ {i : Nat} {m : Node} {p : List Nibble} {nodes : List Node}, Canonical m → Terminated p →
      p.length < fuel → proofNodes m p = some nodes → HoldsPath keccak db m nodes →
      verifyLoop db fuel i (keccak (collapse keccak m).encode) p = some (.ok (get m p)) := by
  induction fuel with
  | zero =>
      intro _ _ _ _ _ _ enough
      omega
  | succ fuel inductionHypothesis =>
      intro i m p nodes canonical terminated enough collected holds
      obtain ⟨tail, first, -, -⟩ := proofNodes_canonical canonical terminated
      obtain rfl : m :: tail = nodes := Option.some.inj (first.symm.trans collected)
      obtain ⟨stored, fits⟩ := holds m List.mem_cons_self (Or.inl rfl)
      rcases verifyLoop_round hashLength canonical terminated fits stored with
        ended | ⟨c, rest, before, canonicalC, _, restTerminated, shorter, sameGet, large, path, next⟩
      · exact ended
      · -- the next round holds the rest of the path, a part of this one
        obtain ⟨tail', restFirst, -, -⟩ := proofNodes_canonical canonicalC restTerminated
        have joined : m :: tail = before ++ c :: tail' := by
          rw [first, restFirst] at path
          exact Option.some.inj path
        rw [next, ← sameGet]
        refine inductionHypothesis canonicalC restTerminated (by omega) restFirst fun d member firstOrLarge => ?_
        refine holds d (joined ▸ List.mem_append_right before member) (Or.inr ?_)
        rcases firstOrLarge with rfl | largeD
        · exact large
        · exact largeD

end Verify

/-! ## The database Prove writes -/

section Written

variable {keccak : List UInt8 → List UInt8} {n : Node} {force : Bool}

theorem collapse_ne_hash (canonical : Canonical n) (h : List UInt8) : collapse keccak n ≠ .hash h := by
  cases n with
  | short => nofun
  | full => nofun
  | empty => exact canonical.elim
  | value => exact canonical.elim

/-- What Prove writes for the j-th node of the path: its encoding under its hash, when it is the root or hashed. -/
theorem proofEntry_eq {j : Nat} (valid : CacheValid Collapsed.encode keccak force n) (canonical : Canonical n) :
    proofEntry keccak j n =
      if j = 0 ∨ 32 ≤ (collapse keccak n).encode.length then
        some (keccak (collapse keccak n).encode, (collapse keccak n).encode)
      else none := by
  have notHash : ∀ h, collapse keccak n ≠ .hash h := collapse_ne_hash canonical
  unfold proofEntry
  rw [proofHash_eq valid canonical]
  generalize collapse keccak n = collapsed at notHash ⊢
  rcases toHash_below collapsed with ⟨small, embedded⟩ | ⟨large, hashed⟩
  · -- embedded: written only as the root
    have notLarge : ¬ 32 ≤ collapsed.encode.length := by omega
    rw [embedded]
    cases collapsed with
    | hash h => exact absurd rfl (notHash h)
    | _ => simp [notLarge]
  · rw [hashed, if_pos (Or.inr large)]

/-- What Prove writes for a node of the path is the node's encoding under its hash. -/
theorem proofEntry_eq_some {j : Nat} {entry : List UInt8 × List UInt8}
    (valid : CacheValid Collapsed.encode keccak force n) (canonical : Canonical n)
    (written : proofEntry keccak j n = some entry) :
    entry = (keccak (collapse keccak n).encode, (collapse keccak n).encode) := by
  rw [proofEntry_eq valid canonical] at written
  split_ifs at written
  exact (Option.some.inj written).symm

/-- Below a node with valid caches, every node's caches are valid. -/
theorem cacheValid_of_below {root c : Node} (valid : CacheValid Collapsed.encode keccak force root)
    (below : Below root c) : ∃ force', CacheValid Collapsed.encode keccak force' c := by
  induction below with
  | refl => exact ⟨force, valid⟩
  | tail _ child inductionHypothesis =>
      obtain ⟨_, validParent⟩ := inductionHypothesis
      cases child with
      | short => exact ⟨false, validParent.2⟩
      | full _ _ i => exact ⟨false, validParent.2 i⟩

theorem putAll_local :
    KeyedFold.Local (fun (db : List UInt8 → Option (List UInt8)) key value => Function.update db key (some value))
      (fun db key => db key) (fun _ value => some value) :=
  ⟨fun _ _ _ _ other => by simp [other], fun _ _ _ => by simp⟩

/-- A key that some put names, with one value in every put that names it, holds that value. -/
theorem putAll_of_agree {puts : List (List UInt8 × List UInt8)} {key value : List UInt8}
    (member : (key, value) ∈ puts) (agree : ∀ entry ∈ puts, entry.1 = key → entry.2 = value) :
    putAll puts key = some value :=
  KeyedFold.foldl_view_of_agree putAll_local member agree (fun _ _ => rfl) _

/--
The database Prove's puts leave, for a canonical root with valid caches and a
terminated key, holds the proof path, when no two nodes of the trie collide
under Keccak and every node's encoding fits RLP's sizes.
-/
theorem holdsPath_putAll {root : Node} {p : List Nibble} {nodes : List Node}
    (canonical : Canonical root) (valid : CacheValid Collapsed.encode keccak force root)
    (fits : ∀ enc ∈ nodeEncodings keccak root, enc.length < 2 ^ 64)
    (distinct : Set.InjOn keccak (nodeEncodings keccak root)) (terminated : Terminated p)
    (collected : proofNodes root p = some nodes) :
    HoldsPath keccak (putAll (nodes.zipIdx.filterMap fun entry => proofEntry keccak entry.2 entry.1)) root nodes := by
  obtain ⟨tail, first, -, below⟩ := proofNodes_canonical canonical terminated
  obtain rfl : root :: tail = nodes := Option.some.inj (first.symm.trans collected)
  -- every node of the path is a canonical node of the trie with valid caches
  have known : ∀ c ∈ root :: tail, Canonical c ∧ Below root c ∧ ∃ force', CacheValid Collapsed.encode keccak force' c := by
    intro c member
    rcases List.mem_cons.mp member with rfl | later
    · exact ⟨canonical, .refl, force, valid⟩
    · exact ⟨(below c later).1, (below c later).2, cacheValid_of_below valid (below c later).2⟩
  intro c member firstOrLarge
  obtain ⟨canonicalC, belowC, force', validC⟩ := known c member
  have encoded : (collapse keccak c).encode ∈ nodeEncodings keccak root := ⟨c, belowC, canonicalC, rfl⟩
  refine ⟨putAll_of_agree ?_ fun entry written sameKey => ?_, fits _ encoded⟩
  · -- Prove puts c: the root at index 0, any other node because it is hashed
    obtain ⟨j, at_j, firstOrLarge'⟩ : ∃ j, (root :: tail)[j]? = some c ∧ (j = 0 ∨ 32 ≤ (collapse keccak c).encode.length) := by
      rcases firstOrLarge with rfl | large
      · exact ⟨0, rfl, Or.inl rfl⟩
      · obtain ⟨j, at_j⟩ := List.getElem?_of_mem member
        exact ⟨j, at_j, Or.inr large⟩
    exact List.mem_filterMap.mpr ⟨(c, j), List.mem_zipIdx_iff_getElem?.mpr at_j,
      by rw [proofEntry_eq validC canonicalC, if_pos firstOrLarge']⟩
  · -- every put is a node's encoding under its hash, so the puts under c's hash agree
    obtain ⟨⟨d, j⟩, indexed, writtenD⟩ := List.mem_filterMap.mp written
    obtain ⟨canonicalD, belowD, _, validD⟩ := known d (List.fst_mem_of_mem_zipIdx indexed)
    rw [proofEntry_eq_some validD canonicalD writtenD] at sameKey ⊢
    exact distinct ⟨d, belowD, canonicalD, rfl⟩ encoded sameKey

end Written

/-! ## Prove, then VerifyProof, on a trie -/

section Proofs

variable {keccak : List UInt8 → List UInt8} {emptyRootHash : List UInt8}

@[simp] theorem length_keybytesToHex (key : List UInt8) : (keybytesToHex key).length = 2 * key.length + 1 := by
  simp [keybytesToHex]
  omega

/-- The hash of a canonical root with valid caches is the Keccak hash of its collapsed node's encoding. -/
theorem trieHash_canonical {root : Node} (canonical : Canonical root)
    (valid : CacheValid Collapsed.encode keccak true root) :
    (trieHash Collapsed.encode keccak emptyRootHash root).1 = keccak (collapse keccak root).encode := by
  have notEmpty : root.isEmpty = false := by
    cases root with
    | empty => exact canonical.elim
    | _ => rfl
  rw [(trieHash_spec valid).1, rootHashOf, hashOf_of_canonical canonical]
  simp [notEmpty, toHash]

/-- A trie that holds a map with a value under some key is canonical. -/
theorem Represents.canonical {entries : List UInt8 → Option (List UInt8)} {root : Node}
    (holds : Represents Collapsed.encode keccak entries root) (nonempty : ∃ key, (entries key).isSome) :
    Canonical root := by
  refine holds.shape.resolve_left fun empty => ?_
  obtain ⟨key, present⟩ := nonempty
  rw [← holds.get_key, Node.eq_empty_of_isEmpty empty] at present
  cases present

/--
Prove never panics on a trie made by NewEmpty and any operations, and writes
at most one proof node for each nibble of the key, less the fromLevel it skips.
-/
theorem prove_bounded (operations : List Operation) (key : List UInt8) (fromLevel : Nat) :
    ∃ puts, prove keccak (run Collapsed.encode keccak emptyRootHash operations) key fromLevel = some puts ∧
      puts.length ≤ 2 * key.length + 1 - fromLevel := by
  have holds : Represents Collapsed.encode keccak (mapOf operations) (run Collapsed.encode keccak emptyRootHash operations) :=
    represents_run operations
  rcases holds.shape with empty | canonical
  · -- a nil root: Prove collects nothing
    rw [Node.eq_empty_of_isEmpty empty]
    exact ⟨[], by simp [prove, proofNodes_empty], by simp⟩
  · obtain ⟨tail, collected, fewer, -⟩ := proofNodes_canonical canonical (terminated_keybytesToHex key)
    refine ⟨_, by rw [prove, collected]; rfl, ?_⟩
    rw [length_keybytesToHex] at fewer
    calc _ ≤ ((_ :: tail).zipIdx.drop fromLevel).length := List.length_filterMap_le _ _
      _ = tail.length + 1 - fromLevel := by simp
      _ ≤ 2 * key.length + 1 - fromLevel := by omega

variable {entries : List UInt8 → Option (List UInt8)} {root : Node}

/--
Prove and VerifyProof on a trie that holds a map with some value, whose
nodes encode within RLP's sizes and do not collide under Keccak: Prove writes
a proof for any key, and VerifyProof, given a round for each nibble of the
key, finds in it under the trie's hash the value the map has under the key.
-/
theorem Represents.proveThenVerify (holds : Represents Collapsed.encode keccak entries root)
    (hashLength : ∀ bytes, (keccak bytes).length = 32) (nonempty : ∃ key, (entries key).isSome)
    (fits : ∀ enc ∈ nodeEncodings keccak root, enc.length < 2 ^ 64)
    (distinct : Set.InjOn keccak (nodeEncodings keccak root)) (key : List UInt8) :
    ∃ puts, prove keccak root key 0 = some puts ∧ ∀ fuel, 2 * key.length + 1 < fuel →
      verifyProof fuel (putAll puts) (trieHash Collapsed.encode keccak emptyRootHash root).1 key =
        some (.ok (entries key)) := by
  have canonical := holds.canonical nonempty
  have terminated := terminated_keybytesToHex key
  obtain ⟨tail, collected, -, -⟩ := proofNodes_canonical canonical terminated
  refine ⟨(root :: tail).zipIdx.filterMap fun entry => proofEntry keccak entry.2 entry.1,
    by rw [prove, collected, Option.map_some, List.drop_zero], fun fuel enough => ?_⟩
  rw [verifyProof, trieHash_canonical canonical holds.caches, ← holds.get_key]
  exact verifyLoop_complete hashLength fuel canonical terminated (by simpa using enough) collected
    (holdsPath_putAll canonical holds.caches fits distinct terminated collected)

namespace OneKey

/-- A hash with 32-byte outputs. -/
def zeroHash (_ : List UInt8) : List UInt8 :=
  List.replicate 32 0

/-- One key written: the trie is one short node leading to the value. -/
def operations : List Operation :=
  [.update [1] [2]]

/-- The puts Prove makes for the key: the root, embedded in no parent, under its hash. -/
def proofPuts : List (List UInt8 × List UInt8) :=
  [(List.replicate 32 0, [0xC4, 0x82, 0x20, 0x01, 0x02])]

theorem zeroHash_length (bytes : List UInt8) : (zeroHash bytes).length = 32 := by
  simp [zeroHash]

theorem run_eq : run Collapsed.encode zeroHash [] operations = .short (keybytesToHex [1]) (.value [2]) newFlag :=
  rfl

theorem nonempty : ∃ key, (mapOf operations key).isSome :=
  ⟨[1], rfl⟩

theorem canonical : Canonical (run Collapsed.encode zeroHash [] operations) := by
  rw [run_eq]
  exact Or.inl ⟨terminated_keybytesToHex [1], [2], by simp, rfl⟩

/-- The only short or full node of the trie is its root. -/
theorem eq_root {c : Node} (below : Below (run Collapsed.encode zeroHash [] operations) c) (canonical : Canonical c) :
    c = run Collapsed.encode zeroHash [] operations := by
  rw [run_eq] at below ⊢
  rcases below_short below with rfl | belowValue
  · rfl
  · rw [below_value belowValue] at canonical
    exact canonical.elim

theorem fits : ∀ enc ∈ nodeEncodings zeroHash (run Collapsed.encode zeroHash [] operations), enc.length < 2 ^ 64 := by
  rintro _ ⟨c, below, canonical, rfl⟩
  rw [eq_root below canonical, run_eq]
  decide

theorem distinct : Set.InjOn zeroHash (nodeEncodings zeroHash (run Collapsed.encode zeroHash [] operations)) := by
  rintro _ ⟨c, below, canonical, rfl⟩ _ ⟨d, below', canonical', rfl⟩ _
  rw [eq_root below canonical, eq_root below' canonical']

theorem prove_eq : prove zeroHash (run Collapsed.encode zeroHash [] operations) [1] 0 = some proofPuts := by
  decide

end OneKey

/--
decodeNode reads back the node the hasher writes for a short or full node of
a trie: its key in hex form, and each child embedded or by its hash.
-/
theorem decodeNode_collapse (hashLength : ∀ bytes, (keccak bytes).length = 32) {n : Node} (canonical : Canonical n)
    (fits : (collapse keccak n).encode.length < 2 ^ 64) :
    decodeNode (collapse keccak n).encode = .ok (collapse keccak n).loaded :=
  decodeNode_encode _ (readable_collapse hashLength canonical) fits

theorem decodeNode_collapse_oneKey :
    (∀ bytes, (OneKey.zeroHash bytes).length = 32) ∧
      Canonical (run Collapsed.encode OneKey.zeroHash [] OneKey.operations) ∧
      (collapse OneKey.zeroHash (run Collapsed.encode OneKey.zeroHash [] OneKey.operations)).encode.length < 2 ^ 64 ∧
      decodeNode (collapse OneKey.zeroHash (run Collapsed.encode OneKey.zeroHash [] OneKey.operations)).encode =
        .ok (collapse OneKey.zeroHash (run Collapsed.encode OneKey.zeroHash [] OneKey.operations)).loaded :=
  ⟨OneKey.zeroHash_length, OneKey.canonical, OneKey.fits _ ⟨_, .refl, OneKey.canonical, rfl⟩,
    decodeNode_collapse OneKey.zeroHash_length OneKey.canonical (OneKey.fits _ ⟨_, .refl, OneKey.canonical, rfl⟩)⟩

/--
Prove and VerifyProof on a trie made by NewEmpty and any operations that
leave a value under some key, whose nodes encode within RLP's sizes and do
not collide under Keccak: Prove writes a proof for any key, and VerifyProof,
given a round for each nibble of the key, finds in it under the trie's hash
the value the operations left under the key.
-/
theorem verifyProof_prove (hashLength : ∀ bytes, (keccak bytes).length = 32) (operations : List Operation)
    (nonempty : ∃ key, (mapOf operations key).isSome)
    (fits : ∀ enc ∈ nodeEncodings keccak (run Collapsed.encode keccak emptyRootHash operations), enc.length < 2 ^ 64)
    (distinct : Set.InjOn keccak (nodeEncodings keccak (run Collapsed.encode keccak emptyRootHash operations)))
    (key : List UInt8) :
    ∃ puts, prove keccak (run Collapsed.encode keccak emptyRootHash operations) key 0 = some puts ∧
      ∀ fuel, 2 * key.length + 1 < fuel →
        verifyProof fuel (putAll puts)
          (trieHash Collapsed.encode keccak emptyRootHash (run Collapsed.encode keccak emptyRootHash operations)).1 key =
          some (.ok (mapOf operations key)) :=
  (represents_run operations).proveThenVerify hashLength nonempty fits distinct key

theorem verifyProof_prove_oneKey :
    (∀ bytes, (OneKey.zeroHash bytes).length = 32) ∧ (∃ key, (mapOf OneKey.operations key).isSome) ∧
      (∀ enc ∈ nodeEncodings OneKey.zeroHash (run Collapsed.encode OneKey.zeroHash [] OneKey.operations),
        enc.length < 2 ^ 64) ∧
      Set.InjOn OneKey.zeroHash (nodeEncodings OneKey.zeroHash (run Collapsed.encode OneKey.zeroHash [] OneKey.operations)) ∧
      ∃ puts, prove OneKey.zeroHash (run Collapsed.encode OneKey.zeroHash [] OneKey.operations) [1] 0 = some puts ∧
        ∀ fuel, 2 * [(1 : UInt8)].length + 1 < fuel →
          verifyProof fuel (putAll puts)
            (trieHash Collapsed.encode OneKey.zeroHash [] (run Collapsed.encode OneKey.zeroHash [] OneKey.operations)).1
            [1] = some (.ok (mapOf OneKey.operations [1])) :=
  ⟨OneKey.zeroHash_length, OneKey.nonempty, OneKey.fits, OneKey.distinct,
    verifyProof_prove OneKey.zeroHash_length OneKey.operations OneKey.nonempty OneKey.fits OneKey.distinct [1]⟩

/-- The proof Prove writes for the key of the one-key trie verifies, with its value. -/
theorem OneKey.accepted :
    verifyProof 4 (putAll OneKey.proofPuts)
      (trieHash Collapsed.encode OneKey.zeroHash [] (run Collapsed.encode OneKey.zeroHash [] OneKey.operations)).1 [1] =
      some (.ok (some [2])) := by
  obtain ⟨puts, proved, verifies⟩ :
      ∃ puts, prove OneKey.zeroHash (run Collapsed.encode OneKey.zeroHash [] OneKey.operations) [1] 0 = some puts ∧
        ∀ fuel, 2 * [(1 : UInt8)].length + 1 < fuel →
          verifyProof fuel (putAll puts)
            (trieHash Collapsed.encode OneKey.zeroHash [] (run Collapsed.encode OneKey.zeroHash [] OneKey.operations)).1
            [1] = some (.ok (mapOf OneKey.operations [1])) :=
    (represents_run OneKey.operations).proveThenVerify OneKey.zeroHash_length OneKey.nonempty OneKey.fits
      OneKey.distinct [1]
  obtain rfl : puts = OneKey.proofPuts := Option.some.inj (proved.symm.trans OneKey.prove_eq)
  exact verifies 4 (by decide)

end Proofs

end Kardia.Trie
