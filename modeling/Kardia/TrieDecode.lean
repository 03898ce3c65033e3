import Mathlib
import Kardia.RlpRaw
import Kardia.StackTrie
import Kardia.TrieRuns

/-!
# Reading trie nodes back

The trie stores a node as its RLP encoding (node_enc.go) and reads it back
with decodeNode (node.go): a list of two items is a short node, whose key is
in compact form and whose second item is a value when the key ends with the
terminator, else a reference to a child; a list of seventeen items is a full
node, sixteen references and a value.  A reference is an embedded node, nil,
or the hash of a node stored elsewhere.

compactToHex inverts hexToCompact on every hex key (compactToHex_hexToCompact),
and decodeNode inverts node_enc.go's encoding on every node the hasher can
leave (decodeNode_encode): keys come back in hex form, a nil child that the
hasher wrote as an empty value comes back nil, and a hashed child comes back
as a hash node.
-/

namespace Kardia.Trie

open Rlp

/-! ## Compact keys -/

/--
compactToHex: the nibbles of a compact key.  The flag nibble says whether the
terminator stays (flag 2 or 3) and whether the key has odd length (its low
bit), so that one or both nibbles of the first byte go.
-/
def compactToHex (compact : List UInt8) : List Nibble :=
  match compact with
  | [] => []
  | first :: _ =>
      let base := keybytesToHex compact
      let base := if first.toNat / 16 < 2 then base.dropLast else base
      base.drop (2 - first.toNat / 16 % 2)

section CompactKeys

@[simp] theorem terminator_val : (terminator : Nibble).val = 16 := rfl

/-- The values of the nibbles keybytesToHex writes: two per byte, then the terminator. -/
theorem keybytesToHex_val (key : List UInt8) :
    (keybytesToHex key).map Fin.val = key.flatMap (fun b => [b.toNat / 16, b.toNat % 16]) ++ [16] := by
  simp [keybytesToHex, List.map_flatMap, terminator]

/-- Two nibbles below 16 make a byte whose nibbles they are. -/
theorem decodeNibbles_val : ∀ nibbles : List Nibble, terminator ∉ nibbles → nibbles.length % 2 = 0 →
    (decodeNibbles nibbles).flatMap (fun b => [b.toNat / 16, b.toNat % 16]) = nibbles.map Fin.val
  | [], _, _ => rfl
  | [_], _, even => by simp at even
  | high :: low :: rest, outside, even => by
      have highBelow : high.val < 16 := by
        have := high.isLt
        have : high ≠ terminator := fun same => outside (by simp [same])
        simp only [terminator, ne_eq, Fin.ext_iff] at this
        omega
      have lowBelow : low.val < 16 := by
        have := low.isLt
        have : low ≠ terminator := fun same => outside (by simp [same])
        simp only [terminator, ne_eq, Fin.ext_iff] at this
        omega
      have byte : (high.val * 16 + low.val).toUInt8.toNat = high.val * 16 + low.val := by
        simp only [Nat.toUInt8_eq, UInt8.toNat_ofNat', Nat.reducePow]
        omega
      have restEven : rest.length % 2 = 0 := by simp at even; omega
      have restOutside : terminator ∉ rest := fun member => outside (by simp [member])
      simp only [decodeNibbles, List.flatMap_cons, byte, List.map_cons,
        decodeNibbles_val rest restOutside restEven]
      simp only [List.cons_append, List.nil_append, List.cons.injEq]
      exact ⟨by omega, by omega, trivial⟩

/-- The values of the nibbles compactToHex reads from a flag byte f and the bytes after it. -/
theorem compactToHex_val (f : UInt8) (bytes : List UInt8) :
    (compactToHex (f :: bytes)).map Fin.val =
      (let base := [f.toNat / 16, f.toNat % 16] ++ bytes.flatMap (fun b => [b.toNat / 16, b.toNat % 16]) ++ [16]
       (if f.toNat / 16 < 2 then base.dropLast else base).drop (2 - f.toNat / 16 % 2)) := by
  have base := keybytesToHex_val (f :: bytes)
  simp only [List.flatMap_cons] at base
  simp only [compactToHex, List.map_drop, apply_ite (List.map Fin.val), List.map_dropLast, base]

theorem hasTerm_append_terminator (core : List Nibble) : hasTerm (core ++ [terminator]) = true := by
  simp [hasTerm]

theorem hasTerm_of_not_mem {core : List Nibble} (outside : terminator ∉ core) : hasTerm core = false := by
  rcases List.eq_nil_or_concat core with rfl | ⟨front, last, rfl⟩
  · rfl
  · have : last ≠ terminator := fun same => outside (by simp [same])
    simp [hasTerm, this]

/-- A flag byte: the terminator flag 32 or 0, the odd flag 16 or 0, and the first nibble of an odd key. -/
theorem flag_toNat {flag odd first : Nat} (small : flag + odd + first < 256) :
    (flag + odd + first).toUInt8.toNat = flag + odd + first := by
  simp only [Nat.toUInt8_eq, UInt8.toNat_ofNat', Nat.reducePow]
  omega

theorem hasTerm_flagged {core : List Nibble} (terminated : Bool) (outside : terminator ∉ core) :
    hasTerm (core ++ if terminated then [terminator] else []) = terminated := by
  cases terminated
  · simp [hasTerm_of_not_mem outside]
  · exact hasTerm_append_terminator core

theorem stripped_flagged (core : List Nibble) (terminated : Bool) :
    (if terminated then (core ++ if terminated then [terminator] else []).dropLast
      else core ++ if terminated then [terminator] else []) = core := by
  cases terminated <;> simp

/-- hexToCompact of an even key, with the terminator after it or not: the flag byte, then the nibbles in pairs. -/
theorem hexToCompact_even {core : List Nibble} (terminated : Bool) (outside : terminator ∉ core)
    (even : core.length % 2 = 0) :
    hexToCompact (core ++ if terminated then [terminator] else []) =
      (if terminated then 32 else 0).toUInt8 :: decodeNibbles core := by
  unfold hexToCompact
  simp only [hasTerm_flagged terminated outside, stripped_flagged]
  split
  · rename_i odd
    omega
  · rfl

/-- hexToCompact of an odd key: its first nibble goes into the flag byte, the others in pairs. -/
theorem hexToCompact_odd {core rest : List Nibble} {first : Nibble} (terminated : Bool)
    (outside : terminator ∉ core) (shape : core = first :: rest) (even : rest.length % 2 = 0) :
    hexToCompact (core ++ if terminated then [terminator] else []) =
      ((if terminated then 32 else 0) + 16 + first.val).toUInt8 :: decodeNibbles rest := by
  have odd : core.length % 2 = 1 := by rw [shape]; simp; omega
  unfold hexToCompact
  simp only [hasTerm_flagged terminated outside, stripped_flagged]
  rw [odd, shape]
  rfl

/-- compactToHex gives back every hex key hexToCompact writes: nibbles below 16, perhaps the terminator last. -/
theorem compactToHex_hexToCompact {hex : List Nibble} (keyLike : terminator ∉ hex.dropLast) :
    compactToHex (hexToCompact hex) = hex := by
  -- split off the terminator, if any: what is left has none
  obtain ⟨core, terminated, outside, rfl⟩ : ∃ core, ∃ terminated : Bool, terminator ∉ core ∧
      hex = core ++ (if terminated then [terminator] else []) := by
    rcases List.eq_nil_or_concat hex with rfl | ⟨front, last, rfl⟩
    · exact ⟨[], false, by simp, rfl⟩
    · rw [List.concat_eq_append, List.dropLast_concat] at keyLike
      by_cases ends : last = terminator
      · exact ⟨front, true, keyLike, by simp [ends]⟩
      · exact ⟨front ++ [last], false, by simp [keyLike, Ne.symm ends], by simp⟩
  apply List.map_injective_iff.mpr Fin.val_injective
  rcases Nat.mod_two_eq_zero_or_one core.length with even | odd
  · -- an even key: the flag byte holds no nibble
    rw [hexToCompact_even terminated outside even, compactToHex_val, decodeNibbles_val core outside even]
    cases terminated <;> simp [List.dropLast_cons_of_ne_nil]
  · -- an odd key: its first nibble shares the flag byte
    obtain ⟨first, rest, shape⟩ := List.exists_cons_of_ne_nil (show core ≠ [] by rintro rfl; simp at odd)
    have restEven : rest.length % 2 = 0 := by rw [shape] at odd; simp at odd; omega
    rw [hexToCompact_odd terminated outside shape restEven]
    subst shape
    have firstBelow : first.val < 16 := by
      have : first ≠ terminator := fun same => outside (by simp [same])
      have := first.isLt
      simp only [terminator, ne_eq, Fin.ext_iff] at *
      omega
    have restOutside : terminator ∉ rest := fun member => outside (by simp [member])
    rw [compactToHex_val, decodeNibbles_val rest restOutside restEven]
    cases terminated
    · have high : (0 + 16 + first.val) / 16 = 1 := by omega
      have low : (0 + 16 + first.val) % 16 = first.val := by omega
      rw [flag_toNat (by simp; omega)]
      simp only [Bool.false_eq_true, if_false, high, low]
      simp [List.dropLast_cons_of_ne_nil]
    · have high : (32 + 16 + first.val) / 16 = 3 := by omega
      have low : (32 + 16 + first.val) % 16 = first.val := by omega
      rw [flag_toNat (by simp; omega)]
      simp only [if_true, high, low]
      simp

end CompactKeys

/-! ## decodeNode -/

/-- A node as decodeNode returns it: a child stored apart comes back as a hash node. -/
inductive Loaded where
  | empty
  | value (bytes : List UInt8)
  | hash (bytes : List UInt8)
  | short (key : List Nibble) (val : Loaded)
  | full (children : Nibble → Loaded)

/-- Where wrapError says an error was found: in a short node, a full node, a short node's value, or child i. -/
inductive DecodeContext where
  | short
  | full
  | val
  | child (i : Nat)
  deriving DecidableEq, Repr

/-- What went wrong in decodeNode. -/
inductive DecodeCause where
  /-- an error of package rlp, as it is -/
  | rlp (err : Rlp.Error)
  /-- "decode error: %v" -/
  | decode (err : Rlp.Error)
  /-- "invalid number of list elements: %v" -/
  | invalidCount (count : Nat)
  /-- "invalid value node: %v" -/
  | invalidValueNode (err : Rlp.Error)
  /-- "oversized embedded node (size is %d bytes, want size < %d)", with hashLen -/
  | oversized (size : Nat)
  /-- "invalid RLP string size %d (want 0 or 32)" -/
  | invalidStringSize (size : Nat)
  deriving DecidableEq, Repr

/-- The errors of decodeNode: a plain error, or a decodeError with the contexts it passed, innermost first. -/
inductive DecodeError where
  | plain (cause : DecodeCause)
  | wrapped (cause : DecodeCause) (stack : List DecodeContext)
  deriving DecidableEq, Repr

/-- wrapError: a decodeError gets ctx at the end of its stack; any other error becomes one. -/
def wrapError (err : DecodeError) (ctx : DecodeContext) : DecodeError :=
  match err with
  | .plain cause => .wrapped cause [ctx]
  | .wrapped cause stack => .wrapped cause (stack ++ [ctx])

/-- hashLen: the length of a hash. -/
def hashLen : Nat := 32

section Decoding

/- The functions below take decodeNode, which decodeRef calls for an embedded node, as a parameter. -/
variable (decodeNode : List UInt8 → Except DecodeError Loaded)

/--
decodeRef: a reference to a child and the bytes after it: an embedded node (a
list no larger than a hash), nil (the empty string), or a hash node (a string
of 32 bytes).  An embedded node is decoded from buf, which starts with it.
-/
def decodeRef (buf : List UInt8) : Except DecodeError (Loaded × List UInt8) :=
  match split buf with
  | .error err => .error (.plain (.rlp err))
  | .ok (kind, val, rest) =>
      if kind = .list then
        if buf.length - rest.length > hashLen then .error (.plain (.oversized (buf.length - rest.length)))
        else (decodeNode buf).map (·, rest)
      else if kind = .string ∧ val.length = 0 then .ok (.empty, rest)
      else if kind = .string ∧ val.length = 32 then .ok (.hash val, rest)
      else .error (.plain (.invalidStringSize val.length))

/--
decodeShort: a short node from its two items, a compact key and either a
value, when the key ends with the terminator, or a reference.
-/
def decodeShort (elems : List UInt8) : Except DecodeError Loaded :=
  match splitString elems with
  | .error err => .error (.plain (.rlp err))
  | .ok (kbuf, rest) =>
      let key := compactToHex kbuf
      if hasTerm key then
        match splitString rest with
        | .error err => .error (.plain (.invalidValueNode err))
        | .ok (val, _) => .ok (.short key (.value val))
      else
        match decodeRef decodeNode rest with
        | .error err => .error (wrapError err .val)
        | .ok (r, _) => .ok (.short key r)

/-- One turn of decodeFull's loop: child i is the next reference. -/
def decodeChild (acc : (Nibble → Loaded) × List UInt8) (i : Nat) :
    Except DecodeError ((Nibble → Loaded) × List UInt8) :=
  match decodeRef decodeNode acc.2 with
  | .error err => .error (wrapError err (.child i))
  | .ok (cld, rest) => .ok (Function.update acc.1 (Nibble.ofNat i) cld, rest)

/-- decodeFull: a full node from its seventeen items, sixteen references and a value that is nil when empty. -/
def decodeFull (elems : List UInt8) : Except DecodeError Loaded := do
  let (children, elems) ← (List.range 16).foldlM (decodeChild decodeNode) (fun _ => .empty, elems)
  match splitString elems with
  | .error err => .error (.plain (.rlp err))
  | .ok (val, _) => .ok (.full (if val.length > 0 then Function.update children terminator (.value val) else children))

/--
decodeNodeUnsafe: a node from its encoding, a list of two items for a short
node or of seventeen for a full node.  CountValues's error is dropped, as in
Go, where the count is then 0.
-/
def decodeNodeUnsafe (buf : List UInt8) : Except DecodeError Loaded :=
  if buf.length = 0 then .error (.plain (.rlp .unexpectedEOF))
  else
    match splitList buf with
    | .error err => .error (.plain (.decode err))
    | .ok (elems, _) =>
        let count := match countValues elems with
          | .ok count => count
          | .error _ => 0
        if count = 2 then (decodeShort decodeNode elems).mapError (wrapError · .short)
        else if count = 17 then (decodeFull decodeNode elems).mapError (wrapError · .full)
        else .error (.plain (.invalidCount count))

end Decoding

/--
decodeNode: decodeNodeUnsafe, which reads an embedded node with decodeNode
again.  That node starts inside buf's content, so it is read from fewer bytes
than buf, and the guard below always holds (decodeNode_eq).
-/
def decodeNode (buf : List UInt8) : Except DecodeError Loaded :=
  decodeNodeUnsafe (fun b => if _ : b.length < buf.length then decodeNode b
    else .error (.plain (.rlp .unexpectedEOF))) buf
termination_by buf.length

/-! ## decodeNode reads embedded nodes from fewer bytes -/

section Locality

variable {dec dec' : List UInt8 → Except DecodeError Loaded}

theorem decodeRef_congr {buf : List UInt8} (agree : ∀ b, b.length ≤ buf.length → dec b = dec' b) :
    decodeRef dec buf = decodeRef dec' buf := by
  unfold decodeRef
  rw [agree buf le_rfl]

/-- What follows a reference is shorter than the input. -/
theorem decodeRef_rest_lt {buf rest : List UInt8} {n : Loaded} (decoded : decodeRef dec buf = .ok (n, rest)) :
    rest.length < buf.length := by
  unfold decodeRef at decoded
  split at decoded
  · cases decoded
  · rename_i kind val rest' splitted
    have shorter := split_rest_lt splitted
    split_ifs at decoded
    · obtain ⟨m, -, made⟩ := Runs.map_eq_ok decoded
      cases made
      exact shorter
    all_goals cases decoded; exact shorter

theorem foldlM_decodeChild_congr {bound : Nat} (agree : ∀ b, b.length ≤ bound → dec b = dec' b) :
    ∀ (is : List Nat) (acc : (Nibble → Loaded) × List UInt8), acc.2.length ≤ bound →
      is.foldlM (decodeChild dec) acc = is.foldlM (decodeChild dec') acc
  | [], _, _ => rfl
  | i :: is, acc, within => by
      have same : decodeChild dec acc i = decodeChild dec' acc i := by
        unfold decodeChild
        rw [decodeRef_congr fun b le => agree b (le.trans within)]
      simp only [List.foldlM_cons, same]
      unfold decodeChild
      split
      · rfl
      · rename_i cld rest decoded
        exact foldlM_decodeChild_congr agree is _ ((decodeRef_rest_lt decoded).le.trans within)

theorem decodeShort_congr {elems : List UInt8} (agree : ∀ b, b.length < elems.length → dec b = dec' b) :
    decodeShort dec elems = decodeShort dec' elems := by
  unfold decodeShort
  split
  · rfl
  · rename_i kbuf rest splitted
    rw [decodeRef_congr fun b le => agree b (lt_of_le_of_lt le (splitString_rest_lt splitted))]

theorem decodeFull_congr {elems : List UInt8} (agree : ∀ b, b.length ≤ elems.length → dec b = dec' b) :
    decodeFull dec elems = decodeFull dec' elems := by
  unfold decodeFull
  rw [foldlM_decodeChild_congr agree _ _ le_rfl]

theorem decodeNodeUnsafe_congr {buf : List UInt8} (agree : ∀ b, b.length < buf.length → dec b = dec' b) :
    decodeNodeUnsafe dec buf = decodeNodeUnsafe dec' buf := by
  unfold decodeNodeUnsafe
  split
  · rfl
  · split
    · rfl
    · rename_i elems rest splitted
      have shorter := splitList_content_lt splitted
      rw [decodeShort_congr fun b lt => agree b (lt.trans shorter),
        decodeFull_congr fun b le => agree b (lt_of_le_of_lt le shorter)]

/-- decodeNode is decodeNodeUnsafe reading embedded nodes with decodeNode: the guard never fails. -/
theorem decodeNode_eq (buf : List UInt8) : decodeNode buf = decodeNodeUnsafe decodeNode buf := by
  rw [decodeNode]
  apply decodeNodeUnsafe_congr
  intro b shorter
  simp [shorter]

end Locality

/-! ## decodeNode inverts the node encoding -/

/-- What decodeNode gives back for a collapsed node: keys in hex form, and an empty value, the hasher's nil child, as nil. -/
def Collapsed.loaded : Collapsed → Loaded
  | .empty => .empty
  | .value bytes => if bytes = [] then .empty else .value bytes
  | .hash bytes => .hash bytes
  | .short key val => .short (compactToHex key) val.loaded
  | .full children => .full fun i => (children i).loaded

/--
The collapsed nodes decodeNode reads back, as a node (a short or full node)
or, with asRef, as a reference in a parent: also nil, the empty value the
hasher writes for a nil child, a hash of 32 bytes, or a node whose encoding
is no larger than a hash.  A short node's key ends with the terminator
exactly when it leads to a value, which is not empty.
-/
def Collapsed.Readable : Bool → Collapsed → Prop
  | asRef, .empty => asRef = true
  | asRef, .value bytes => asRef = true ∧ bytes = []
  | asRef, .hash bytes => asRef = true ∧ bytes.length = 32
  | asRef, .short key val =>
      (asRef = true → (Collapsed.short key val).encode.length ≤ hashLen) ∧
        ((hasTerm (compactToHex key) = true ∧ ∃ bytes, bytes ≠ [] ∧ val = .value bytes) ∨
          (hasTerm (compactToHex key) = false ∧ Readable true val))
  | asRef, .full children =>
      (asRef = true → (Collapsed.full children).encode.length ≤ hashLen) ∧
        (∀ i, i ≠ terminator → Readable true (children i)) ∧
        (children terminator = .empty ∨ ∃ bytes, children terminator = .value bytes)

section Encoded

/-- Every encoded node is one RLP value: a string or a list. -/
theorem split_encode (c : Collapsed) {rest : List UInt8} (below : (c.encode ++ rest).length < 2 ^ 64) :
    ∃ k content, split (c.encode ++ rest) = .ok (k, content, rest) := by
  cases c with
  | empty => exact ⟨_, _, split_writeBytes (show ([] : List UInt8).length < 2 ^ 64 by simp) rest⟩
  | value bytes =>
      have : bytes.length < 2 ^ 64 := by
        simp only [Collapsed.encode, List.length_append] at below
        have := (writeBytes_length_ge bytes)
        omega
      exact ⟨_, _, split_writeBytes this rest⟩
  | hash bytes =>
      have : bytes.length < 2 ^ 64 := by
        simp only [Collapsed.encode, List.length_append] at below
        have := (writeBytes_length_ge bytes)
        omega
      exact ⟨_, _, split_writeBytes this rest⟩
  | short key val =>
      refine ⟨_, _, split_wrapList ?_ rest⟩
      simp only [Collapsed.encode, wrapList, List.length_append] at below ⊢
      omega
  | full children =>
      refine ⟨_, _, split_wrapList ?_ rest⟩
      simp only [Collapsed.encode, wrapList, List.length_append] at below ⊢
      omega

/-- CountValues counts the encoded nodes one after another. -/
theorem countValues_flatMap_encode : ∀ items : List Collapsed, (items.flatMap Collapsed.encode).length < 2 ^ 64 →
    countValues (items.flatMap Collapsed.encode) = .ok items.length
  | [], _ => countValues_nil
  | c :: items, below => by
      rw [List.flatMap_cons] at below ⊢
      obtain ⟨k, content, splitted⟩ := split_encode c below
      rw [countValues_of_split splitted,
        countValues_flatMap_encode items (by rw [List.length_append] at below; omega)]
      rfl

variable {dec : List UInt8 → Except DecodeError Loaded}

/-- The empty string, which the encoder writes for nil and the hasher's nil child, reads as nil. -/
theorem decodeRef_emptyString (rest : List UInt8) : decodeRef dec (writeBytes [] ++ rest) = .ok (.empty, rest) := by
  simp [decodeRef, split_writeBytes (show ([] : List UInt8).length < 2 ^ 64 by simp) rest, bytesKind]

/-- A string of 32 bytes reads as a hash node. -/
theorem decodeRef_hash {h : List UInt8} (length : h.length = 32) (rest : List UInt8) :
    decodeRef dec (writeBytes h ++ rest) = .ok (.hash h, rest) := by
  simp [decodeRef, split_writeBytes (show h.length < 2 ^ 64 by omega) rest,
    bytesKind_of_length_ne_one (show h.length ≠ 1 by omega), length]

/-- A list no larger than a hash is an embedded node, decoded from where it starts. -/
theorem decodeRef_embedded {payload : List UInt8} (below : payload.length < 2 ^ 64)
    (small : (wrapList payload).length ≤ hashLen) (rest : List UInt8) :
    decodeRef dec (wrapList payload ++ rest) = (dec (wrapList payload ++ rest)).map (·, rest) := by
  have size : (wrapList payload ++ rest).length - rest.length = (wrapList payload).length := by simp
  simp only [decodeRef, split_wrapList below rest, if_true, size, show ¬ (wrapList payload).length > hashLen by omega,
    if_false]

/-- decodeNode reads the first list of its input and ignores what follows. -/
theorem decodeNode_wrapList_append {payload : List UInt8} (below : payload.length < 2 ^ 64) (rest : List UInt8) :
    decodeNode (wrapList payload ++ rest) = decodeNode (wrapList payload) := by
  have nonempty : ∀ more : List UInt8, (wrapList payload ++ more).length ≠ 0 := by
    intro more
    simp only [wrapList, List.length_append, ne_eq]
    have : (puthead 0xC0 0xF7 payload.length).length ≠ 0 := by
      unfold puthead
      split <;> simp
    omega
  rw [decodeNode_eq, decodeNode_eq]
  conv_rhs => rw [← List.append_nil (wrapList payload)]
  unfold decodeNodeUnsafe
  rw [if_neg (nonempty rest), if_neg (nonempty []), splitList_wrapList below, splitList_wrapList below]

/-- A full node's slots in encoding order: children 0 to 15, then the value slot. -/
theorem finRange_seventeen : List.finRange 17 = (List.range 16).map Nibble.ofNat ++ [terminator] := by
  decide

theorem ofNat_val {i : Nat} (small : i < 17) : (Nibble.ofNat i).val = i := by
  simp [Nibble.ofNat, Nat.mod_eq_of_lt small]

/--
decodeFull's loop over the encodings of children is, as long as each one
reads back, the children read back, in place of those the loop started with.
-/
theorem foldlM_decodeChild_encode (children : Nibble → Collapsed)
    (reads : ∀ i rest, i < 16 → ((children (Nibble.ofNat i)).encode ++ rest).length < 2 ^ 64 →
      decodeRef dec ((children (Nibble.ofNat i)).encode ++ rest) = .ok ((children (Nibble.ofNat i)).loaded, rest)) :
    ∀ (is : List Nat) (acc : Nibble → Loaded) (rest : List UInt8), (∀ i ∈ is, i < 16) →
      ((is.flatMap fun i => (children (Nibble.ofNat i)).encode) ++ rest).length < 2 ^ 64 →
      is.foldlM (decodeChild dec) (acc, (is.flatMap fun i => (children (Nibble.ofNat i)).encode) ++ rest) =
        .ok (fun j => if j.val ∈ is then (children j).loaded else acc j, rest)
  | [], acc, rest, _, _ => by simp [pure, Except.pure]
  | i :: is, acc, rest, small, below => by
      have first : i < 16 := small i (by simp)
      rw [List.flatMap_cons, List.append_assoc] at below ⊢
      have step : decodeChild dec (acc, (children (Nibble.ofNat i)).encode ++
            ((is.flatMap fun i => (children (Nibble.ofNat i)).encode) ++ rest)) i =
          .ok (Function.update acc (Nibble.ofNat i) (children (Nibble.ofNat i)).loaded,
            (is.flatMap fun i => (children (Nibble.ofNat i)).encode) ++ rest) := by
        simp only [decodeChild, reads i _ first below]
      rw [List.foldlM_cons, step]
      simp only [bind, Except.bind]
      rw [foldlM_decodeChild_encode children reads is _ rest (fun i member => small i (by simp [member]))
        (by simp only [List.length_append] at below ⊢; omega)]
      congr 2
      funext j
      by_cases later : j.val ∈ is
      · simp [later]
      · by_cases here : j = Nibble.ofNat i
        · subst here
          simp [ofNat_val (show i < 17 by omega)]
        · have notI : j.val ≠ i := fun same => here (Fin.ext (by rw [same, ofNat_val (by omega)]))
          simp [later, notI, Function.update_of_ne here]

end Encoded



section RoundTrip

theorem emptyString_eq_writeBytes : emptyString = writeBytes [] := rfl

/-- A readable reference reads back, given that it does when it is a node of its own. -/
theorem decodeRef_encode {c : Collapsed} (readable : c.Readable true)
    (node : c.Readable false → c.encode.length < 2 ^ 64 → decodeNode c.encode = .ok c.loaded)
    {rest : List UInt8} (below : (c.encode ++ rest).length < 2 ^ 64) :
    decodeRef decodeNode (c.encode ++ rest) = .ok (c.loaded, rest) := by
  cases c with
  | empty => exact decodeRef_emptyString rest
  | value bytes =>
      obtain ⟨-, rfl⟩ := readable
      exact decodeRef_emptyString rest
  | hash bytes => exact decodeRef_hash readable.2 rest
  | short key val =>
      obtain ⟨small, shape⟩ := readable
      have payloadBelow : (writeBytes key ++ val.encode).length < 2 ^ 64 := by
        simp only [Collapsed.encode, wrapList, List.length_append] at below ⊢
        omega
      have whole : (Collapsed.short key val).encode.length < 2 ^ 64 := by
        simp only [List.length_append] at below
        omega
      have encoded : wrapList (writeBytes key ++ val.encode) = (Collapsed.short key val).encode := rfl
      rw [Collapsed.encode, decodeRef_embedded payloadBelow (small rfl) rest,
        decodeNode_wrapList_append payloadBelow rest, encoded,
        node ⟨fun never => absurd never Bool.false_ne_true, shape⟩ whole]
      rfl
  | full children =>
      obtain ⟨small, slots⟩ := readable
      have payloadBelow : ((List.finRange 17).flatMap fun i => (children i).encode).length < 2 ^ 64 := by
        simp only [Collapsed.encode, wrapList, List.length_append] at below ⊢
        omega
      have whole : (Collapsed.full children).encode.length < 2 ^ 64 := by
        simp only [List.length_append] at below
        omega
      have encoded : wrapList ((List.finRange 17).flatMap fun i => (children i).encode) =
          (Collapsed.full children).encode := rfl
      rw [Collapsed.encode, decodeRef_embedded payloadBelow (small rfl) rest,
        decodeNode_wrapList_append payloadBelow rest, encoded,
        node ⟨fun never => absurd never Bool.false_ne_true, slots⟩ whole]
      rfl

/--
decodeNode reads back every short or full node the encoder writes, in the
form the hasher leaves it: its key in hex form, a value where the key ends
with the terminator, and otherwise references that are nil, hashes or
embedded nodes.
-/
theorem decodeNode_encode : ∀ c : Collapsed, c.Readable false → c.encode.length < 2 ^ 64 →
    decodeNode c.encode = .ok c.loaded := by
  intro c
  induction c with
  | empty => intro readable; cases readable
  | value bytes => intro readable; cases readable.1
  | hash bytes => intro readable; cases readable.1
  | short key val valReads =>
      rintro ⟨-, shape⟩ below
      have payloadBelow : (writeBytes key ++ val.encode).length < 2 ^ 64 := by
        simp only [Collapsed.encode, wrapList, List.length_append] at below ⊢
        omega
      have count : countValues (writeBytes key ++ val.encode) = .ok 2 := by
        have := countValues_flatMap_encode [.value key, val] (by simpa [Collapsed.encode] using payloadBelow)
        simpa [Collapsed.encode] using this
      have keyRead : splitString (writeBytes key ++ val.encode) = .ok (key, val.encode) :=
        splitString_writeBytes (by rw [List.length_append] at payloadBelow; have := writeBytes_length_ge key; omega) _
      have nonempty : (Collapsed.short key val).encode.length ≠ 0 := by
        simp only [Collapsed.encode, wrapList, List.length_append, puthead]
        split <;> simp
      rw [decodeNode_eq]
      unfold decodeNodeUnsafe
      rw [if_neg nonempty, Collapsed.encode, ← List.append_nil (wrapList _), splitList_wrapList payloadBelow]
      simp only [count, if_true]
      unfold decodeShort
      rw [keyRead]
      rcases shape with ⟨terminated, bytes, notEmpty, rfl⟩ | ⟨notTerminated, valReadable⟩
      · -- a leaf: the value after the key
        have valueRead : splitString (writeBytes bytes) = .ok (bytes, []) := by
          rw [← List.append_nil (writeBytes bytes)]
          exact splitString_writeBytes (by
            simp only [Collapsed.encode, List.length_append] at payloadBelow
            have := writeBytes_length_ge bytes
            omega) []
        simp [terminated, Collapsed.encode, valueRead, Collapsed.loaded, notEmpty, Except.mapError]
      · -- an extension: a reference to the child
        have childRead : decodeRef decodeNode (val.encode ++ []) = .ok (val.loaded, []) :=
          decodeRef_encode valReadable valReads (by
            simp only [List.length_append, List.length_nil] at payloadBelow ⊢
            omega)
        rw [List.append_nil] at childRead
        simp [notTerminated, childRead, Collapsed.loaded, Except.mapError]
  | full children childReads =>
      rintro ⟨-, slots, value⟩ below
      have payloadBelow : ((List.finRange 17).flatMap fun i => (children i).encode).length < 2 ^ 64 := by
        simp only [Collapsed.encode, wrapList, List.length_append] at below ⊢
        omega
      have count : countValues ((List.finRange 17).flatMap fun i => (children i).encode) = .ok 17 := by
        have := countValues_flatMap_encode ((List.finRange 17).map children) (by simpa [List.flatMap_map] using payloadBelow)
        simpa [List.flatMap_map] using this
      have nonempty : (Collapsed.full children).encode.length ≠ 0 := by
        simp only [Collapsed.encode, wrapList, List.length_append, puthead]
        split <;> simp
      -- the sixteen references, then the value slot
      have slotsSplit : (List.finRange 17).flatMap (fun i => (children i).encode) =
          ((List.range 16).flatMap fun i => (children (Nibble.ofNat i)).encode) ++ (children terminator).encode := by
        rw [finRange_seventeen, List.flatMap_append, List.flatMap_map]
        simp
      have loop := @foldlM_decodeChild_encode decodeNode children
        (fun i rest small below => decodeRef_encode (slots _ (by
            intro same
            have := congrArg Fin.val same
            rw [ofNat_val (by omega)] at this
            simp at this
            omega)) (childReads _) below)
        (List.range 16) (fun _ => .empty) (children terminator).encode (by simp)
        (by rw [← slotsSplit]; exact payloadBelow)
      rw [decodeNode_eq]
      unfold decodeNodeUnsafe
      rw [if_neg nonempty, Collapsed.encode, ← List.append_nil (wrapList _), splitList_wrapList payloadBelow]
      simp only [count, show (17 : Nat) ≠ 2 by omega, if_false, if_true]
      unfold decodeFull
      rw [slotsSplit, loop]
      -- the value slot: nil, or a value that is kept when it is not empty
      obtain ⟨val, lastSplit, lastLoaded⟩ : ∃ val, splitString (children terminator).encode = .ok (val, []) ∧
          (children terminator).loaded = if val.length > 0 then .value val else .empty := by
        have valueBelow : ((children terminator).encode).length < 2 ^ 64 := by
          rw [slotsSplit, List.length_append] at payloadBelow
          omega
        rcases value with empty | ⟨bytes, valued⟩
        · refine ⟨[], ?_, by simp [empty, Collapsed.loaded]⟩
          rw [empty, Collapsed.encode, emptyString_eq_writeBytes, ← List.append_nil (writeBytes [])]
          exact splitString_writeBytes (by simp) []
        · refine ⟨bytes, ?_, ?_⟩
          · rw [valued, Collapsed.encode, ← List.append_nil (writeBytes bytes)]
            rw [valued, Collapsed.encode] at valueBelow
            exact splitString_writeBytes (by have := writeBytes_length_ge bytes; omega) []
          · rw [valued]
            cases bytes <;> simp [Collapsed.loaded]
      simp only [bind, Except.bind, lastSplit, Except.mapError, Collapsed.loaded]
      congr 2
      funext j
      by_cases low : j.val < 16
      · have notTerminator : j ≠ terminator := fun same => by
          rw [same, terminator_val] at low
          omega
        split_ifs <;> simp [low, Function.update_of_ne notTerminator]
      · obtain rfl : j = terminator := Fin.ext (by have := j.isLt; rw [terminator_val]; omega)
        rw [lastLoaded]
        split_ifs <;> simp

end RoundTrip

end Kardia.Trie
