import Mathlib

namespace GoStrings

/-!
# Go's strings package on lists of characters

The functions of Go's strings package an interpreter of text patterns uses,
on a string read as its list of characters.  A Go string is a sequence of
bytes and the package counts positions in bytes; on ASCII text, bytes and
characters agree, and positions here count characters.

Each function is structurally recursive, so that a run of the interpreter on
a concrete script evaluates.
-/

/-- strings.HasPrefix. -/
def hasPrefix (s pre : List Char) : Bool :=
  pre.isPrefixOf s

/-- strings.HasSuffix. -/
def hasSuffix (s suffix : List Char) : Bool :=
  suffix.isSuffixOf s

/-- strings.Contains: the substring occurs somewhere, the empty one everywhere. -/
def contains : List Char → List Char → Bool
  | [], sub => sub.isEmpty
  | c :: rest, sub => sub.isPrefixOf (c :: rest) || contains rest sub

/-- strings.Index: the first position of the substring, or -1. -/
def index : List Char → List Char → Int
  | [], sub => if sub.isEmpty then 0 else -1
  | c :: rest, sub =>
      if sub.isPrefixOf (c :: rest) then 0
      else
        let found := index rest sub
        if found < 0 then -1 else found + 1

/-- The scan of strings.ReplaceAll for a nonempty old string, skipping the rest of a match. -/
def replaceScan (old new : List Char) : List Char → Nat → List Char
  | [], _ => []
  | _ :: rest, skip + 1 => replaceScan old new rest skip
  | c :: rest, 0 =>
      if old.isPrefixOf (c :: rest) then new ++ replaceScan old new rest (old.length - 1)
      else c :: replaceScan old new rest 0

/--
strings.ReplaceAll: the matches of the old string from the left, without
overlaps, replaced; an empty old string matches before and after every
character.
-/
def replaceAll (s old new : List Char) : List Char :=
  if old.isEmpty then new ++ s.flatMap fun c => c :: new
  else replaceScan old new s 0

/-- The slice s[low:high] of indices that are in range. -/
def slice (s : List Char) (low high : Nat) : List Char :=
  (s.take high).drop low

theorem length_replaceScan_le (old : List Char) :
    ∀ (s : List Char) (skip : Nat), (replaceScan old [] s skip).length ≤ s.length
  | [], _ => by simp [replaceScan]
  | _ :: rest, skip + 1 => by
      have shorter := length_replaceScan_le old rest skip
      simp only [replaceScan, List.length_cons]
      omega
  | c :: rest, 0 => by
      have dropped := length_replaceScan_le old rest (old.length - 1)
      have kept := length_replaceScan_le old rest 0
      simp only [replaceScan, List.length_cons]
      split_ifs
      · simp only [List.nil_append]
        omega
      · simp only [List.length_cons]
        omega

/-- Removing a string never lengthens a string. -/
theorem length_replaceAll_nil_le (s old : List Char) : (replaceAll s old []).length ≤ s.length := by
  unfold replaceAll
  split_ifs
  · simp
  · exact length_replaceScan_le old s 0

end GoStrings
