import Mathlib

namespace Kardia.Trie

/-!
# The Merkle Patricia trie in memory

The nodes of package trie and the operations of Trie on them: get, insert,
delete, and the hasher.  A key is read as its nibbles with the terminator 16
after them (keybytesToHex); a short node holds a run of nibbles, a full node
one child per nibble and the value of a key that ends at it in slot 16.

A trie made by NewEmpty lives in memory: insert and delete build new nodes,
Hash caches hashes in the nodes it passes and keeps them, and no node is read
back from a database, so no hash node stands in the tree.  The hash of a node
is the Keccak hash of its RLP encoding, with the children hashed first and
nodes whose encoding is shorter than 32 bytes embedded in their parent; the
encoding and the hash function are parameters here.
-/

/-- A nibble of a hex key: 0 to 15, or the terminator 16. -/
abbrev Nibble := Fin 17

/-- The terminator that ends every key in hex form. -/
def terminator : Nibble := 16

/-- The nibble of a child index, as Go's byte(i) for an index below 17. -/
def Nibble.ofNat (i : Nat) : Nibble :=
  Fin.ofNat 17 i

/-- nodeFlag: the cached hash of a node, if any, and whether it changed since the last commit. -/
structure NodeFlag where
  hash : Option (List UInt8)
  dirty : Bool

/-- newFlag: a node just built, dirty and without a cached hash. -/
def newFlag : NodeFlag :=
  ⟨none, true⟩

/-- A node of a trie in memory; empty is Go's nil. -/
inductive Node where
  | empty
  | value (bytes : List UInt8)
  | short (key : List Nibble) (val : Node) (flags : NodeFlag)
  | full (children : Nibble → Node) (flags : NodeFlag)

namespace Node

/-- Whether a node is nil. -/
def isEmpty : Node → Bool
  | .empty => true
  | _ => false

/-- cache: the hash a short or full node keeps; other nodes keep none. -/
def cache : Node → Option (List UInt8)
  | .short _ _ flags => flags.hash
  | .full _ flags => flags.hash
  | _ => none

end Node

/-! ## Keys -/

/-- keybytesToHex: the two nibbles of each byte, then the terminator. -/
def keybytesToHex (key : List UInt8) : List Nibble :=
  key.flatMap (fun b => [⟨b.toNat / 16, by have := b.toNat_lt; omega⟩, ⟨b.toNat % 16, by omega⟩]) ++
    [terminator]

/-- prefixLen: the length of the common prefix of two keys. -/
def prefixLen : List Nibble → List Nibble → Nat
  | a :: as, b :: bs => if a = b then prefixLen as bs + 1 else 0
  | _, _ => 0

/-- hasTerm: whether a hex key ends with the terminator. -/
def hasTerm (hex : List Nibble) : Bool :=
  hex.getLast? = some terminator

/-- decodeNibbles: each pair of nibbles as a byte. -/
def decodeNibbles : List Nibble → List UInt8
  | high :: low :: rest => (high.val * 16 + low.val).toUInt8 :: decodeNibbles rest
  | _ => []

/--
hexToCompact: the flag byte (terminator and odd-length bits, with the first
nibble of an odd key), then the nibbles in pairs.
-/
def hexToCompact (hex : List Nibble) : List UInt8 :=
  let terminated := hasTerm hex
  let hex := if terminated then hex.dropLast else hex
  let flag := if terminated then 32 else 0
  match hex.length % 2, hex with
  | 1, first :: rest => (flag + 16 + first.val).toUInt8 :: decodeNibbles rest
  | _, _ => flag.toUInt8 :: decodeNibbles hex

/-! ## Get, insert and delete -/

/--
get: the value stored under a key.  A value node answers for any rest of the
key; a full node reached with the key used up is past every stored key (Go
indexes out of range there).
-/
def get : Node → List Nibble → Option (List UInt8)
  | .empty, _ => none
  | .value bytes, _ => some bytes
  | .short key val _, path => if key.isPrefixOf path then get val (path.drop key.length) else none
  | .full children _, i :: rest => get (children i) rest
  | .full _ _, [] => none

/-- insert into nil: the value itself for an empty key, else a short node leading to it. -/
def insertNil (key : List Nibble) (value : Node) : Node :=
  match key with
  | [] => value
  | _ :: _ => .short key value newFlag

/-- The full node a short node becomes at the nibble where its key and an inserted key part. -/
def branchOut (existingAt : Nibble) (existing : Node) (addedAt : Nibble) (added : Node) : Node :=
  .full (Function.update (Function.update (fun _ => .empty) existingAt existing) addedAt added) newFlag

/--
insert: whether the trie changed, and its new root.  A short node whose key
the inserted key extends passes the insertion to its value; otherwise it
branches out where the keys part, with a short node for the common part.  A
value node reached with key left over is outside the trie's shape (Go panics
there) and is left as it is.
-/
def insert : Node → List Nibble → Node → Bool × Node
  | n, [], value =>
      match n, value with
      | .value old, .value new => (old != new, value)
      | _, _ => (true, value)
  | .short key val flags, k :: ks, value =>
      let matchlen := prefixLen (k :: ks) key
      if matchlen = key.length then
        match insert val ((k :: ks).drop matchlen) value with
        | (true, nn) => (true, .short key nn newFlag)
        | (false, _) => (false, .short key val flags)
      else
        let branch :=
          branchOut (key.getD matchlen terminator) (insertNil (key.drop (matchlen + 1)) val)
            ((k :: ks).getD matchlen terminator) (insertNil ((k :: ks).drop (matchlen + 1)) value)
        if matchlen = 0 then (true, branch) else (true, .short (key.take matchlen) branch newFlag)
  | .full children flags, k :: ks, value =>
      match insert (children k) ks value with
      | (true, nn) => (true, .full (Function.update children k nn) newFlag)
      | (false, _) => (false, .full children flags)
  | .empty, k :: ks, value => (true, .short (k :: ks) value newFlag)
  | .value bytes, _ :: _, _ => (false, .value bytes)

/--
The loop of delete over the children left: the index of the only one, -1 if
there is none, -2 once a second one is seen.
-/
def remainingChild (children : Nibble → Node) : Int :=
  (List.finRange 17).foldl
    (fun pos i =>
      if pos = -2 ∨ (children i).isEmpty then pos
      else if pos = -1 then (i.val : Int) else -2)
    (-1)

/--
The node a full node with one child left reduces to: a short node with the
child's nibble, merged with the child if that is a short node.
-/
def reduceTo (pos : Nibble) (child : Node) : Node :=
  if pos ≠ terminator then
    match child with
    | .short key val _ => .short (pos :: key) val newFlag
    | _ => .short [pos] child newFlag
  else .short [pos] child newFlag

/--
delete: whether the trie changed, and its new root.  On the way up a short
node absorbs a short child, and a full node with one child left becomes a
short node.
-/
def delete : Node → List Nibble → Bool × Node
  | .short key val flags, k =>
      let matchlen := prefixLen k key
      if matchlen < key.length then (false, .short key val flags)
      else if matchlen = k.length then (true, .empty)
      else
        match delete val (k.drop key.length) with
        | (false, _) => (false, .short key val flags)
        | (true, .short childKey childVal _) => (true, .short (key ++ childKey) childVal newFlag)
        | (true, child) => (true, .short key child newFlag)
  | .full children flags, k :: ks =>
      match delete (children k) ks with
      | (false, _) => (false, .full children flags)
      | (true, nn) =>
          let children := Function.update children k nn
          if !nn.isEmpty then (true, .full children newFlag)
          else
            let pos := remainingChild children
            if pos ≥ 0 then (true, reduceTo (Fin.ofNat 17 pos.toNat) (children (Fin.ofNat 17 pos.toNat)))
            else (true, .full children newFlag)
  | .full children flags, [] => (false, .full children flags)
  | .value _, _ => (true, .empty)
  | .empty, _ => (false, .empty)

/-! ## The hasher -/

/-- A node as the hasher encodes it: keys compact, children hashed or embedded. -/
inductive Collapsed where
  | empty
  | value (bytes : List UInt8)
  | hash (bytes : List UInt8)
  | short (key : List UInt8) (val : Collapsed)
  | full (children : Nibble → Collapsed)

section Hasher

variable (encode : Collapsed → List UInt8) (keccak : List UInt8 → List UInt8)

/--
shortnodeToHash and fullnodeToHash: the Keccak hash of the encoding, or the
node itself when its encoding is shorter than 32 bytes and hashing is not forced.
-/
def toHash (collapsed : Collapsed) (force : Bool) : Collapsed :=
  if (encode collapsed).length < 32 ∧ !force then collapsed
  else .hash (keccak (encode collapsed))

/-- The flags of a hashed node: the hash cached when the node was hashed, not embedded. -/
def cachedFlags (flags : NodeFlag) : Collapsed → NodeFlag
  | .hash h => { flags with hash := some h }
  | _ => { flags with hash := none }

/-- A node without children as the hasher leaves it. -/
def leafCollapsed : Node → Collapsed
  | .value bytes => .value bytes
  | _ => .empty

/--
hasher.hash: the hashed node and the node with the hashes of itself and its
children cached.  A node with a cached hash returns it.  The children of a
short node that are short or full nodes are hashed; slots 0 to 15 of a full
node are hashed, nil ones collapsing to nilValueNode, and slot 16 is kept.
-/
def hash : Node → Bool → Collapsed × Node
  | .short key val flags, force =>
      match flags.hash with
      | some h => (.hash h, .short key val flags)
      | none =>
          let (collapsedVal, cachedVal) :=
            match val with
            | .short .. | .full .. => hash val false
            | _ => (leafCollapsed val, val)
          let hashed := toHash encode keccak (.short (hexToCompact key) collapsedVal) force
          (hashed, .short key cachedVal (cachedFlags flags hashed))
  | .full children flags, force =>
      match flags.hash with
      | some h => (.hash h, .full children flags)
      | none =>
          let collapsedChildren : Nibble → Collapsed := fun i =>
            if i = terminator then leafCollapsed (children i)
            else if (children i).isEmpty then .value []
            else (hash (children i) false).1
          let cachedChildren : Nibble → Node := fun i =>
            if i = terminator ∨ (children i).isEmpty then children i
            else (hash (children i) false).2
          let hashed := toHash encode keccak (.full collapsedChildren) force
          (hashed, .full cachedChildren (cachedFlags flags hashed))
  | n, _ => (leafCollapsed n, n)

end Hasher

/-! ## The trie -/

/-- An operation on a trie: Update (which deletes for an empty value), Delete, or Hash. -/
inductive Operation where
  | update (key value : List UInt8)
  | delete (key : List UInt8)
  | hash

section Trie

variable (encode : Collapsed → List UInt8) (keccak : List UInt8 → List UInt8) (emptyRootHash : List UInt8)

/-- Trie.Get: the value under a key. -/
def trieGet (root : Node) (key : List UInt8) : Option (List UInt8) :=
  get root (keybytesToHex key)

/-- Trie.update: insert a nonempty value, delete for an empty one. -/
def update (root : Node) (key value : List UInt8) : Node :=
  if value ≠ [] then (insert root (keybytesToHex key) (.value value)).2
  else (delete root (keybytesToHex key)).2

/--
Trie.Hash through hashRoot: EmptyRootHash for a nil root, else the forced
hash of the root, which is kept with its hashes cached.
-/
def trieHash (root : Node) : List UInt8 × Node :=
  match root with
  | .empty => (emptyRootHash, .empty)
  | _ =>
      match hash encode keccak root true with
      | (.hash h, cached) => (h, cached)
      | (_, cached) => ([], cached)

/-- The root after one operation. -/
def apply (root : Node) : Operation → Node
  | .update key value => update root key value
  | .delete key => (delete root (keybytesToHex key)).2
  | .hash => (trieHash encode keccak emptyRootHash root).2

/-- The root after a sequence of operations on a trie made by NewEmpty. -/
def run (operations : List Operation) : Node :=
  operations.foldl (apply encode keccak emptyRootHash) .empty

end Trie

/-! ## The map a sequence of operations leaves -/

/-- The key-to-value map after one operation: the last nonempty value written and not deleted. -/
def applyToMap (entries : List UInt8 → Option (List UInt8)) : Operation → List UInt8 → Option (List UInt8)
  | .update key value => Function.update entries key (if value = [] then none else some value)
  | .delete key => Function.update entries key none
  | .hash => entries

/-- The map a sequence of operations leaves, from the empty map. -/
def mapOf (operations : List Operation) : List UInt8 → Option (List UInt8) :=
  operations.foldl applyToMap fun _ => none

end Kardia.Trie
