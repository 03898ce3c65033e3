import Kardia.Rlp
import Kardia.TrieNode
import Kardia.StateDB
import Kardia.PartSet

/-!
# The stack trie and DeriveSha

StackTrie builds the trie of keys that arrive in increasing order and hashes
each subtree as soon as no later key can reach it: when a key goes to a child
of a branch, the nearest elder sibling is hashed, and when an extension or a
leaf splits, the part it displaces is hashed at once.  A hashed node keeps
only its val: its RLP encoding when that is shorter than 32 bytes, else the
Keccak hash of it.  Inserting below a hashed node, or a key that is already
there, panics; here insert returns none.

Go's StackTrie reuses and mutates its nodes and returns finished ones to a
pool; here insert and hashRec build new values, and a nil child of a branch
is the empty node, since no emptyNode stands below the root.  The Keccak hash
is a parameter.  Nodes are encoded as node_enc.go encodes the trie's nodes,
and Collapsed.encode is that encoding of what Trie's hasher collapses a node
to, so that the two tries hash with one encoder.

DeriveSha hands a hasher the RLP-encoded indices of a list in the order 1 to
0x7f, 0, then 0x80 and up, with each item's encoding, and returns its Hash.
-/

namespace Kardia.Trie

open Rlp

/-! ## Node encoding -/

/--
The encode methods of node_enc.go on the nodes the hasher leaves: a short
node as the list of its compact key and its value, a full node as the list of
its seventeen children, a nil child as the empty string, hash and value nodes
as byte strings.
-/
def Collapsed.encode : Collapsed → List UInt8
  | .empty => emptyString
  | .value bytes => writeBytes bytes
  | .hash bytes => writeBytes bytes
  | .short key val => wrapList (writeBytes key ++ val.encode)
  | .full children => wrapList ((List.finRange 17).flatMap fun i => (children i).encode)

/-! ## The stack trie -/

/-- A stack trie node by its nodeType; a nil child of a branch is empty. -/
inductive StackTrie where
  | empty
  | branch (children : Nibble → StackTrie)
  | ext (key : List Nibble) (child : StackTrie)
  | leaf (key : List Nibble) (val : List UInt8)
  | hashed (val : List UInt8)

namespace StackTrie

/-- Whether a node is empty, or a nil child. -/
def isEmpty : StackTrie → Bool
  | .empty => true
  | _ => false

section Hashing

variable (keccak : List UInt8 → List UInt8)

/-- The val of a hashed node: its encoding if shorter than 32 bytes, else the Keccak hash of it. -/
def hashedVal (encoded : List UInt8) : List UInt8 :=
  if encoded.length < 32 then encoded else keccak encoded

/-- A hashed child in its parent's encoding: rawNode under 32 bytes, else hashNode. -/
def childEncoding (val : List UInt8) : List UInt8 :=
  if val.length < 32 then val else writeBytes val

/--
hashRec: the val a node keeps once hashed.  An empty root takes
EmptyRootHash; a leaf's key gets the terminator before it is compacted.
-/
def hashRec : StackTrie → List UInt8
  | .hashed val => val
  | .empty => State.emptyRootHash.bytes
  | .branch children =>
      hashedVal keccak (wrapList ((List.finRange 17).flatMap fun i =>
        -- the sixteen children, nil ones as nilValueNode, and fullNode's slot 16, which stays nil
        if i = terminator then emptyString
        else if (children i).isEmpty then writeBytes []
        else childEncoding (hashRec (children i))))
  | .ext key child =>
      hashedVal keccak (wrapList (writeBytes (hexToCompact key) ++ childEncoding (hashRec child)))
  | .leaf key val =>
      hashedVal keccak (wrapList (writeBytes (hexToCompact (key ++ [terminator])) ++ writeBytes val))

/-- hash: the node becomes hashed, keeping the val hashRec computes; a hashed node stays as it is. -/
def hash (st : StackTrie) : StackTrie :=
  .hashed (hashRec keccak st)

/--
The loop over the elder siblings of child idx, from idx - 1 down: the first
non-nil one is hashed, and the loop stops there.
-/
def hashElder (children : Nibble → StackTrie) : Nat → Nibble → StackTrie
  | 0 => children
  | i + 1 =>
      if (children (Nibble.ofNat i)).isEmpty then hashElder children i
      else Function.update children (Nibble.ofNat i) (hash keccak (children (Nibble.ofNat i)))

/-- getDiffIndex: where the node's key and the key part; none where Go indexes past the key. -/
def getDiffIndex : List Nibble → List Nibble → Option Nat
  | [], _ => some 0
  | _ :: _, [] => none
  | nibble :: rest, k :: ks => if nibble ≠ k then some 0 else (getDiffIndex rest ks).map (· + 1)

/--
What an extension or a leaf becomes where its key and the inserted key part:
a branch with the original part n at origIdx and the new leaf o at newIdx,
below an extension for the common part if there is one.
-/
def split (stKey : List Nibble) (diffidx : Nat) (n : StackTrie) (newIdx : Nibble) (o : StackTrie) :
    StackTrie :=
  let p := StackTrie.branch
    (Function.update (Function.update (fun _ => .empty) (stKey.getD diffidx terminator) n) newIdx o)
  if diffidx = 0 then p else .ext (stKey.take diffidx) p

/--
insert: the node after inserting value under key, or none where Go panics:
at a key used up below a branch, a key that runs out inside a node's key, a
key already there, and a hashed node.
-/
def insert : StackTrie → List Nibble → List UInt8 → Option StackTrie
  | .branch _, [], _ => none
  | .branch children, idx :: rest, value =>
      -- the elder siblings lie before idx, so child idx is the one the branch had
      let elder := hashElder keccak children idx.val
      if (children idx).isEmpty then some (.branch (Function.update elder idx (.leaf rest value)))
      else (insert (children idx) rest value).map fun child => .branch (Function.update elder idx child)
  | .ext stKey child, key, value =>
      match getDiffIndex stKey key with
      | none => none
      | some diffidx =>
          if diffidx = stKey.length then (insert child (key.drop diffidx) value).map (.ext stKey ·)
          else
            -- a break before the extension's last nibble keeps an extension for the rest
            let n :=
              if diffidx < stKey.length - 1 then hash keccak (.ext (stKey.drop (diffidx + 1)) child)
              else hash keccak child
            some (split stKey diffidx n (key.getD diffidx terminator) (.leaf (key.drop (diffidx + 1)) value))
  | .leaf stKey stVal, key, value =>
      match getDiffIndex stKey key with
      | none => none
      | some diffidx =>
          if diffidx ≥ stKey.length then none
          else
            some (split stKey diffidx (hash keccak (.leaf (stKey.drop (diffidx + 1)) stVal))
              (key.getD diffidx terminator) (.leaf (key.drop (diffidx + 1)) value))
  | .empty, key, value => some (.leaf key value)
  | .hashed _, _, _ => none

/-- StackTrie.Update: insert under the key's nibbles without the terminator; an empty value panics. -/
def update (st : StackTrie) (key value : List UInt8) : Option StackTrie :=
  if value = [] then none else insert keccak st (keybytesToHex key).dropLast value

/-- StackTrie.Hash: the root's val if it is 32 bytes long, else the Keccak hash of it. -/
def stackTrieHash (st : StackTrie) : List UInt8 :=
  let val := hashRec keccak st
  if val.length = 32 then val else keccak val

/-- NewStackTrie(nil), then Update for each key and value in order. -/
def updateAll (entries : List (List UInt8 × List UInt8)) : Option StackTrie :=
  entries.foldlM (fun st entry => update keccak st entry.1 entry.2) .empty

end Hashing

end StackTrie

/-! ## DeriveSha -/

/-- TrieHasher: the state after Reset, Update (none where it panics) and Hash. -/
structure TrieHasher (σ : Type) where
  reset : σ
  update : σ → List UInt8 → List UInt8 → Option σ
  hash : σ → List UInt8

/-- DerivableList: Len, a Go int, and the bytes EncodeIndex writes for each index. -/
structure DerivableList where
  len : Nat
  encodeIndex : Nat → List UInt8
  len_lt : len < 2 ^ 63

/-- The indices in DeriveSha's order: 1 to 0x7f, then 0, then 0x80 and up. -/
def deriveOrder (len : Nat) : List Nat :=
  List.range' 1 (min (len - 1) 0x7f) ++ (if len > 0 then [0] else []) ++ List.range' 0x80 (len - 0x80)

/-- DeriveSha: Update for each index in DeriveSha's order with its encoded item, then Hash. -/
def deriveSha {σ : Type} (list : DerivableList) (hasher : TrieHasher σ) : Option (List UInt8) :=
  ((deriveOrder list.len).foldlM (fun s i => hasher.update s (appendUint64 [] i) (list.encodeIndex i))
    hasher.reset).map hasher.hash

section Hashers

variable (keccak : List UInt8 → List UInt8)

/-- NewStackTrie(nil) as a TrieHasher. -/
def stackTrieHasher : TrieHasher StackTrie :=
  ⟨.empty, StackTrie.update keccak, StackTrie.stackTrieHash keccak⟩

/-- An empty Trie as a TrieHasher: Update never panics, and Hash is trieHash with node_enc.go's encoding. -/
def trieHasher : TrieHasher Node :=
  ⟨.empty, fun root key value => some (update root key value),
    fun root => (trieHash Collapsed.encode keccak State.emptyRootHash.bytes root).1⟩

end Hashers

end Kardia.Trie
