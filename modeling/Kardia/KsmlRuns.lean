import Kardia.Ksml
import Kardia.Runs

namespace Kardia.Ksml

open GoStrings Runs

/-!
# Runs of the KSML interpreter

The step lemmas of the interpreter's calls, each for the branch a run takes,
and from them what whole loops do.  A script of plain patterns (no ${...}, no
mention of defineFunc, no signal) returns its patterns as strings, in a
parser of its own or in a block.  forEach takes as its body every pattern
after it that is no end marker of the loop, so the patterns after
fn:endForEach run once per item, inside the loop, and never after it.

addFunction starts over whenever a pattern mentions defineFunc, whether or not
handling it defined anything.  A script whose first pattern mentions
defineFunc and whose handling changes nothing makes ParseParams run out of
every fuel: the Go call recurses until its stack is exhausted.
-/

/-- A pattern ParseParams takes as its own value, without defining a function or signalling. -/
structure PlainPattern (pattern : List Char) : Prop where
  notContent :
    ¬(pattern.length ≥ elMinLength ∧ hasPrefix pattern "$\x7b".toList ∧ hasSuffix pattern "\x7d".toList)
  noDefinition : contains pattern "defineFunc".toList = false
  notSignal : pattern ∉ signals

/-- The signal test by comparing with each signal, so that it decides without a lawful BEq. -/
theorem all_ne_iff_not_mem {pattern : List Char} : signals.all (· ≠ pattern) = true ↔ pattern ∉ signals := by
  simpa using List.forall_mem_ne'

instance (pattern : List Char) : Decidable (PlainPattern pattern) :=
  decidable_of_iff
    (¬(pattern.length ≥ elMinLength ∧ hasPrefix pattern "$\x7b".toList ∧ hasSuffix pattern "\x7d".toList) ∧
      contains pattern "defineFunc".toList = false ∧ signals.all (· ≠ pattern) = true)
    ⟨fun ⟨notContent, noDefinition, notSignal⟩ => ⟨notContent, noDefinition, all_ne_iff_not_mem.mp notSignal⟩,
      fun plain => ⟨plain.notContent, plain.noDefinition, all_ne_iff_not_mem.mpr plain.notSignal⟩⟩

/-- A value list whose last entry is no signal: ParseParams appends it whole. -/
def EndsWithoutSignal (val : List Value) : Prop :=
  ∀ signal, val.getLast? = some (.str signal) → signal ∉ signals

theorem endsWithoutSignal_of_plain {patterns : List (List Char)}
    (plain : ∀ pattern ∈ patterns, PlainPattern pattern) :
    EndsWithoutSignal (patterns.map .str) := by
  intro signal last
  obtain ⟨pattern, inPatterns, named⟩ := List.mem_map.mp (List.mem_of_getLast? last)
  cases named
  exact (plain _ inPatterns).notSignal

theorem endsWithoutSignal_flatten_replicate {patterns : List (List Char)}
    (plain : ∀ pattern ∈ patterns, PlainPattern pattern) (count : Nat) :
    EndsWithoutSignal (List.replicate count (patterns.map .str)).flatten := by
  intro signal last
  obtain ⟨chunk, copied, inChunk⟩ := List.mem_flatten.mp (List.mem_of_getLast? last)
  rw [List.eq_of_mem_replicate copied] at inChunk
  obtain ⟨pattern, inPatterns, named⟩ := List.mem_map.mp inChunk
  cases named
  exact (plain _ inPatterns).notSignal

/-! ## The scan of forEach -/

/-- A pattern forEach takes for the end of the loop named name. -/
def endsForEach (name pattern : List Char) : Bool :=
  contains pattern name && contains pattern "endForEach".toList

/-- The body forEach collects is every pattern after Pc that is no end marker of the loop. -/
theorem forEachScan_eq (name : List Char) (patterns : List (List Char)) :
    forEachScan name patterns =
      (patterns.filter fun pattern => !endsForEach name pattern, patterns.any (endsForEach name)) := by
  induction patterns with
  | nil => rfl
  | cons pattern rest ih =>
      rw [forEachScan, ih, List.filter_cons, List.any_cons]
      by_cases marker : endsForEach name pattern
      · simp only [endsForEach] at marker
        simp only [marker, if_true, Bool.not_true, Bool.false_eq_true, if_false, endsForEach, Bool.true_or]
      · simp only [endsForEach, Bool.not_eq_true] at marker
        simp only [marker, Bool.false_eq_true, if_false, endsForEach, Bool.not_false, if_true,
          Bool.false_or]

/-! ## Step lemmas -/

section Steps

variable (env : Environment) {fuel : Nat} {p : Parser}

theorem parseLoop_of_end (finished : p.globalPatterns[p.pc]? = none) :
    (parseLoop env (fuel + 1)).run p = .ok () p := by
  simp only [parseLoop, EStateM.run_bind, EStateM.run_get, finished, EStateM.run_pure]

/-- A plain pattern is appended as a string, and the loop goes on at the next pattern. -/
theorem parseLoop_plain_step {pattern : List Char}
    (current : p.globalPatterns[p.pc]? = some pattern) (plain : PlainPattern pattern) :
    (parseLoop env (fuel + 1)).run p =
      (parseLoop env fuel).run { p with globalParams := p.globalParams ++ [.str pattern], pc := p.pc + 1 } := by
  have notSignal := plain.notSignal
  simp only [signals, List.mem_cons, not_or, List.not_mem_nil] at notSignal
  simp only [parseLoop, EStateM.run_bind, EStateM.run_get, current, if_neg plain.notContent,
    EStateM.run_pure, List.getLast?_singleton, if_neg notSignal.1, if_neg notSignal.2.1,
    if_neg notSignal.2.2.1, EStateM.run_modify]

/-- A ${...} pattern whose content returns values without a signal last appends them. -/
theorem parseLoop_content_step {pattern : List Char} {val : List Value} {handled : Parser}
    (current : p.globalPatterns[p.pc]? = some pattern)
    (content : pattern.length ≥ elMinLength ∧ hasPrefix pattern "$\x7b".toList ∧
      hasSuffix pattern "\x7d".toList)
    (returned : (handleContent env fuel (slice pattern 2 (pattern.length - 1))).run p = .ok val handled)
    (noSignal : EndsWithoutSignal val) :
    (parseLoop env (fuel + 1)).run p =
      (parseLoop env fuel).run
        { handled with globalParams := handled.globalParams ++ val, pc := handled.pc + 1 } := by
  simp only [parseLoop, EStateM.run_bind, EStateM.run_get, current, if_pos content, run_tryCatch,
    returned]
  cases last : val.getLast? with
  | none => simp only [EStateM.run_bind, EStateM.run_modify]
  | some value =>
      cases value with
      | str signal =>
          have notSignal := noSignal signal last
          simp only [signals, List.mem_cons, not_or, List.not_mem_nil] at notSignal
          simp only [if_neg notSignal.1, if_neg notSignal.2.1, if_neg notSignal.2.2.1,
            EStateM.run_bind, EStateM.run_modify]
      | bool _ => simp only [EStateM.run_bind, EStateM.run_modify]
      | int _ => simp only [EStateM.run_bind, EStateM.run_modify]
      | list _ => simp only [EStateM.run_bind, EStateM.run_modify]

/-- A pattern that does not mention defineFunc is passed over by addFunction. -/
theorem addFunctionLoop_step {pattern : List Char}
    (current : p.globalPatterns[p.pc]? = some pattern)
    (noDefinition : contains pattern "defineFunc".toList = false) :
    (addFunctionLoop env (fuel + 1)).run p = (addFunctionLoop env fuel).run { p with pc := p.pc + 1 } := by
  simp only [addFunctionLoop, EStateM.run_bind, EStateM.run_get, current, noDefinition,
    Bool.false_eq_true, if_false, EStateM.run_modify]

theorem addFunctionLoop_of_end (finished : p.globalPatterns[p.pc]? = none) :
    (addFunctionLoop env (fuel + 1)).run p = .ok () p := by
  simp only [addFunctionLoop, EStateM.run_bind, EStateM.run_get, finished, EStateM.run_pure]

/-- handleContent of a built-in call is the predefined function. -/
theorem handleContent_of_builtIn {content builtInPrefix method : List Char} {patterns : List (List Char)}
    (parsed : getPrefix content = .ok (builtInPrefix, method, patterns)) (named : builtInPrefix ≠ []) :
    handleContent env (fuel + 1) content = applyPredefinedFunction env fuel builtInPrefix method patterns := by
  simp only [handleContent, parsed, List.isEmpty_iff, named, if_false]

/-- handleContent of any other content is CEL. -/
theorem handleContent_of_cel {content method : List Char} {patterns : List (List Char)}
    (parsed : getPrefix content = .ok ([], method, patterns)) :
    handleContent env (fuel + 1) content = cel env content := by
  simp only [handleContent, parsed, List.isEmpty_nil, if_true]

/-- CEL on a nonempty source returns the one value the environment gives it. -/
theorem cel_eq_ok {src : List Char} {value : Value} (nonempty : src ≠ [])
    (evaluated : env.cel p.userDefinedVariables p.globalParams src = .ok value) :
    (cel env src).run p = .ok [value] p := by
  simp only [cel, List.isEmpty_iff, nonempty, if_false, EStateM.run_bind, EStateM.run_pure,
    EStateM.run_get, evaluated]

/-- fn:ping returns pong. -/
theorem applyPredefinedFunction_pong {method : List Char} {patterns : List (List Char)}
    (selected : builtInFuncMap method = some .pong) :
    applyPredefinedFunction env (fuel + 1) "fn".toList method patterns = pure [.str "pong".toList] := by
  simp only [applyPredefinedFunction, true_or, if_true, selected]

/-- fn:forEach calls forEach. -/
theorem applyPredefinedFunction_forEach {method : List Char} {patterns : List (List Char)}
    (selected : builtInFuncMap method = some .forEach) :
    applyPredefinedFunction env (fuel + 1) "fn".toList method patterns = forEach env fuel patterns := by
  simp only [applyPredefinedFunction, true_or, if_true, selected]

/--
forEach with a list and an end marker after Pc: Pc moves over every later
pattern, and the loop runs the scanned body once per item.
-/
theorem forEach_eq {name list index : List Char} {items : List Value} {rest : List Value}
    (evaluated : (handleContent env fuel list).run p = .ok (.list items :: rest) p)
    (marked : (p.globalPatterns.drop (p.pc + 1)).any (endsForEach name)) :
    (forEach env (fuel + 1) [name, list, index]).run p =
      (forEachLoop env fuel
          ((p.globalPatterns.drop (p.pc + 1)).filter fun pattern => !endsForEach name pattern)
          index 0 items []).run
        { p with pc := p.pc + (p.globalPatterns.drop (p.pc + 1)).length } := by
  simp only [forEach, EStateM.run_bind, evaluated, EStateM.run_get, forEachScan_eq, EStateM.run_set,
    marked, Bool.not_true, Bool.false_eq_true, if_false]

end Steps

/-! ## Plain scripts -/

section Plain

variable (env : Environment)

/-- addFunction passes over patterns that do not mention defineFunc, to the end. -/
theorem addFunctionLoop_no_definition :
    ∀ (rest : List (List Char)) (fuel : Nat) (p : Parser),
      p.globalPatterns.drop p.pc = rest →
      (∀ pattern ∈ rest, contains pattern "defineFunc".toList = false) →
      rest.length < fuel →
      (addFunctionLoop env fuel).run p = .ok () { p with pc := p.pc + rest.length } := by
  intro rest
  induction rest with
  | nil =>
      intro fuel p remaining _ enough
      obtain ⟨fuel, rfl⟩ : ∃ less, fuel = less + 1 := ⟨fuel - 1, by simp at enough; omega⟩
      have finished : p.globalPatterns[p.pc]? = none := by
        rw [← List.head?_drop, remaining, List.head?_nil]
      rw [addFunctionLoop_of_end env finished]
      simp
  | cons pattern rest ih =>
      intro fuel p remaining noDefinition enough
      obtain ⟨fuel, rfl⟩ : ∃ less, fuel = less + 1 := ⟨fuel - 1, by simp at enough; omega⟩
      have current : p.globalPatterns[p.pc]? = some pattern := by
        rw [← List.head?_drop, remaining, List.head?_cons]
      rw [addFunctionLoop_step env current (noDefinition pattern List.mem_cons_self)]
      have later : p.globalPatterns.drop (p.pc + 1) = rest := by
        rw [← List.tail_drop, remaining, List.tail_cons]
      rw [ih fuel _ later (fun other member => noDefinition other (List.mem_cons_of_mem _ member))
        (by simp at enough; omega)]
      simp only [List.length_cons]
      congr 2
      omega

/-- addFunction on a script that does not mention defineFunc returns with Pc back at 0. -/
theorem addFunction_no_definition {fuel : Nat} {p : Parser}
    (nonempty : p.globalPatterns ≠ [])
    (noDefinition : ∀ pattern ∈ p.globalPatterns, contains pattern "defineFunc".toList = false)
    (enough : p.globalPatterns.length < fuel) :
    (addFunction env (fuel + 1)).run p = .ok () { p with pc := 0 } := by
  have noneLater : ∀ pattern ∈ p.globalPatterns.drop p.pc, contains pattern "defineFunc".toList = false :=
    fun pattern member => noDefinition pattern (List.mem_of_mem_drop member)
  have shorter : (p.globalPatterns.drop p.pc).length < fuel := by
    simp only [List.length_drop]
    omega
  simp only [addFunction, EStateM.run_bind, EStateM.run_get, List.isEmpty_iff, nonempty, if_false,
    addFunctionLoop_no_definition env _ fuel p rfl noneLater shorter, EStateM.run_modify]

/-- The loop of ParseParams appends plain patterns as strings, to the end. -/
theorem parseLoop_plain :
    ∀ (rest : List (List Char)) (fuel : Nat) (p : Parser),
      p.globalPatterns.drop p.pc = rest →
      (∀ pattern ∈ rest, PlainPattern pattern) →
      rest.length < fuel →
      (parseLoop env fuel).run p =
        .ok () { p with globalParams := p.globalParams ++ rest.map .str, pc := p.pc + rest.length } := by
  intro rest
  induction rest with
  | nil =>
      intro fuel p remaining _ enough
      obtain ⟨fuel, rfl⟩ : ∃ less, fuel = less + 1 := ⟨fuel - 1, by simp at enough; omega⟩
      have finished : p.globalPatterns[p.pc]? = none := by
        rw [← List.head?_drop, remaining, List.head?_nil]
      rw [parseLoop_of_end env finished]
      simp
  | cons pattern rest ih =>
      intro fuel p remaining plain enough
      obtain ⟨fuel, rfl⟩ : ∃ less, fuel = less + 1 := ⟨fuel - 1, by simp at enough; omega⟩
      have current : p.globalPatterns[p.pc]? = some pattern := by
        rw [← List.head?_drop, remaining, List.head?_cons]
      rw [parseLoop_plain_step env current (plain pattern List.mem_cons_self)]
      have later : p.globalPatterns.drop (p.pc + 1) = rest := by
        rw [← List.tail_drop, remaining, List.tail_cons]
      rw [ih fuel _ later (fun other member => plain other (List.mem_cons_of_mem _ member))
        (by simp at enough; omega)]
      simp only [List.length_cons, List.map_cons, List.append_assoc, List.singleton_append]
      congr 2
      omega

/-- ParseParams on a nonempty script of plain patterns returns them as strings. -/
theorem parseParams_plain {fuel : Nat} {p : Parser}
    (nonempty : p.globalPatterns ≠ [])
    (plain : ∀ pattern ∈ p.globalPatterns, PlainPattern pattern)
    (enough : p.globalPatterns.length + 1 < fuel) :
    (parseParams env (fuel + 1)).run p =
      .ok () { p with
        globalParams := p.globalParams ++ p.globalPatterns.map .str
        pc := p.globalPatterns.length } := by
  obtain ⟨fuel, rfl⟩ : ∃ less, fuel = less + 1 := ⟨fuel - 1, by omega⟩
  have added := addFunction_no_definition env nonempty
    (fun pattern member => (plain pattern member).noDefinition) (by omega : p.globalPatterns.length < fuel)
  have looped := parseLoop_plain env p.globalPatterns (fuel + 1) { p with pc := 0 } (by simp)
    plain (by omega)
  simp only [parseParams, run_tryCatch, EStateM.run_bind, EStateM.run_get, List.isEmpty_iff, nonempty,
    if_false, added, looped, zero_add]

/-- The write-back of a block run changes no variable of a caller that has none. -/
theorem foldl_updateExisting_nil (entries : List (List Char × Value)) :
    entries.foldl updateExisting [] = [] := by
  induction entries with
  | nil => rfl
  | cons entry rest ih =>
      simp only [List.foldl_cons, updateExisting, List.map_nil, List.not_mem_nil, if_false, ih]

/-- A block of plain patterns returns them as strings, in a caller without variables unchanged. -/
theorem parseBlockPatterns_plain {fuel : Nat} {p : Parser} {patterns : List (List Char)}
    {extrasVar : List (List Char × Value)}
    (nonempty : patterns ≠ [])
    (plain : ∀ pattern ∈ patterns, PlainPattern pattern)
    (noVariables : p.userDefinedVariables = [])
    (enough : patterns.length + 1 < fuel) :
    (parseBlockPatterns env (fuel + 2) patterns extrasVar).run p = .ok (patterns.map .str) p := by
  simp only [parseBlockPatterns, EStateM.run_bind, EStateM.run_get]
  rw [parseParams_plain env nonempty plain enough]
  simp only [EStateM.run_bind, EStateM.run_set, EStateM.run_pure, noVariables, foldl_updateExisting_nil,
    newParser, List.nil_append]
  rw [← noVariables]

/-- The loop of forEach over plain patterns returns them once per item. -/
theorem forEachLoop_plain {newPatterns : List (List Char)} (index : List Char)
    (nonempty : newPatterns ≠ [])
    (plain : ∀ pattern ∈ newPatterns, PlainPattern pattern) :
    ∀ (items : List Value) (fuel position : Nat) (results : List Value) (p : Parser),
      p.userDefinedVariables = [] →
      items.length + newPatterns.length + 3 < fuel →
      (forEachLoop env fuel newPatterns index position items results).run p =
        .ok (results ++ (List.replicate items.length (newPatterns.map .str)).flatten) p := by
  intro items
  induction items with
  | nil =>
      intro fuel position results p _ enough
      obtain ⟨fuel, rfl⟩ : ∃ less, fuel = less + 1 := ⟨fuel - 1, by simp at enough; omega⟩
      simp [forEachLoop]
  | cons item rest ih =>
      intro fuel position results p noVariables enough
      obtain ⟨fuel, rfl⟩ : ∃ less, fuel = less + 3 := ⟨fuel - 3, by simp at enough; omega⟩
      have ran : (parseBlockPatterns env (fuel + 2) newPatterns [(index, .int position)]).run p =
          .ok (newPatterns.map .str) p :=
        parseBlockPatterns_plain env nonempty plain noVariables (by simp at enough; omega)
      rw [forEachLoop]
      simp only [EStateM.run_bind, ran]
      rw [ih (fuel + 2) (position + 1) _ p noVariables (by simp at enough; omega)]
      simp only [List.length_cons, List.replicate_succ, List.flatten_cons, List.append_assoc]

end Plain

/-! ## forEach takes the rest of the script -/

namespace ForEachScript

/-- fn:forEach over the CEL list [1]+[2], with the loop named n and the index i. -/
def start : List Char := "$\x7bfn:forEach(n,[1]+[2],i)\x7d".toList

/-- The end marker of the loop named n. -/
def stop : List Char := "$\x7bfn:endForEach(n)\x7d".toList

/-- The script: the loop, its body, the end marker, the patterns after it. -/
def script (body post : List (List Char)) : List (List Char) :=
  start :: (body ++ stop :: post)

theorem content_start :
    start.length ≥ elMinLength ∧ hasPrefix start "$\x7b".toList ∧ hasSuffix start "\x7d".toList := by
  decide

theorem getPrefix_start :
    getPrefix (slice start 2 (start.length - 1)) =
      .ok ("fn".toList, "forEach".toList, ["n".toList, "[1]+[2]".toList, "i".toList]) := by
  decide +kernel

theorem getPrefix_list : getPrefix "[1]+[2]".toList = .ok ([], "[1]+[2]".toList, []) := by
  decide +kernel

end ForEachScript

open ForEachScript in
/--
ParseParams on fn:forEach, a body, fn:endForEach and more patterns after it:
the loop runs the body and the patterns after the end marker once per item,
and nothing after the loop.
-/
theorem forEach_runs_rest_of_script (env : Environment) {body post : List (List Char)}
    {items : List Value}
    (plain : ∀ pattern ∈ body ++ post, PlainPattern pattern ∧ contains pattern "n".toList = false)
    (nonempty : body ++ post ≠ [])
    (evaluated : env.cel [] [] "[1]+[2]".toList = .ok (.list items)) :
    (parseParams env (items.length + (body ++ post).length + 12)).run (newParser (script body post)) =
      .ok () { newParser (script body post) with
        globalParams := (List.replicate items.length ((body ++ post).map .str)).flatten
        pc := (script body post).length } := by
  have plainPatterns : ∀ pattern ∈ body ++ post, PlainPattern pattern := fun pattern member =>
    (plain pattern member).1
  have unnamed : ∀ pattern ∈ body ++ post, endsForEach "n".toList pattern = false := by
    intro pattern member
    rw [endsForEach, (plain pattern member).2, Bool.false_and]
  have scriptPlain : ∀ pattern ∈ script body post, contains pattern "defineFunc".toList = false := by
    intro pattern member
    simp only [script, List.mem_cons, List.mem_append] at member
    rcases member with rfl | inBody | rfl | inPost
    · decide
    · exact (plainPatterns pattern (List.mem_append_left _ inBody)).noDefinition
    · decide
    · exact (plainPatterns pattern (List.mem_append_right _ inPost)).noDefinition
  -- the loop scans everything after fn:forEach: the end marker goes, the rest is the body
  have later : (script body post).drop 1 = body ++ stop :: post := rfl
  have stopMarks : endsForEach "n".toList stop = true := by decide
  have marked : ((script body post).drop 1).any (endsForEach "n".toList) := by
    rw [later, List.any_append, List.any_cons, stopMarks, Bool.true_or, Bool.or_true]
  have scanned :
      ((script body post).drop (0 + 1)).filter (fun pattern => !endsForEach "n".toList pattern) =
        body ++ post := by
    rw [zero_add, later, List.filter_append, List.filter_cons, stopMarks, List.filter_eq_self.mpr,
      List.filter_eq_self.mpr]
    · rfl
    · intro pattern member
      rw [unnamed pattern (List.mem_append_right _ member)]
      rfl
    · intro pattern member
      rw [unnamed pattern (List.mem_append_left _ member)]
      rfl
  have listed : (handleContent env (items.length + (body ++ post).length + 7)
      "[1]+[2]".toList).run (newParser (script body post)) =
        .ok [.list items] (newParser (script body post)) := by
    rw [handleContent_of_cel env getPrefix_list]
    exact cel_eq_ok env (by decide) evaluated
  have looped := forEachLoop_plain env "i".toList nonempty plainPatterns items
    (items.length + (body ++ post).length + 7) 0 []
    { newParser (script body post) with pc := 0 + ((script body post).drop (0 + 1)).length } rfl (by omega)
  have handled : (handleContent env (items.length + (body ++ post).length + 10)
      (slice start 2 (start.length - 1))).run (newParser (script body post)) =
        .ok (List.replicate items.length ((body ++ post).map .str)).flatten
          { newParser (script body post) with pc := (body ++ post).length + 1 } := by
    rw [handleContent_of_builtIn env getPrefix_start (by decide),
      applyPredefinedFunction_forEach env (by decide), forEach_eq env listed marked]
    rw [show (newParser (script body post)).pc = 0 from rfl,
      show (newParser (script body post)).globalPatterns = script body post from rfl, scanned]
    refine looped.trans ?_
    rw [List.nil_append, later]
    simp only [List.length_append, List.length_cons]
    congr 2
    omega
  have added : (addFunction env (items.length + (body ++ post).length + 11)).run (newParser (script body post)) =
      .ok () (newParser (script body post)) :=
    addFunction_no_definition env (List.cons_ne_nil _ _) scriptPlain (by simp [script, newParser]; omega)
  have stepped := parseLoop_content_step env (p := newParser (script body post)) rfl content_start handled
    (endsWithoutSignal_flatten_replicate plainPatterns _)
  rw [parseParams, run_tryCatch, EStateM.run_bind, EStateM.run_get]
  simp only [show (newParser (script body post)).globalPatterns.isEmpty = false from rfl,
    Bool.false_eq_true, if_false, EStateM.run_bind, added, stepped]
  rw [parseLoop_of_end env (by simp [script, newParser]; omega)]
  simp only [newParser, script, List.nil_append, List.length_cons, List.length_append]
  congr 2

/--
fn:forEach over a two-element list with body a and b after fn:endForEach: a
and b both run inside the loop, twice, where the block structure runs a twice
and b once after it.
-/
theorem forEach_runs_post_in_loop (env : Environment)
    (evaluated : env.cel [] [] "[1]+[2]".toList = .ok (.list [.int 1, .int 2])) :
    ∃ final,
      (parseParams env 16).run (newParser (ForEachScript.script ["a".toList] ["b".toList])) = .ok () final ∧
        final.globalParams = [.str "a".toList, .str "b".toList, .str "a".toList, .str "b".toList] ∧
        final.globalParams ≠ [.str "a".toList, .str "a".toList, .str "b".toList] := by
  have ran := forEach_runs_rest_of_script env
    (by decide : ∀ pattern ∈ ["a".toList] ++ ["b".toList], PlainPattern pattern ∧ contains pattern "n".toList = false)
    (by simp) evaluated
  exact ⟨_, ran, by decide, by decide⟩

/-- A CEL that evaluates [1]+[2] to its list and takes any other source for a bare string. -/
def listLiteralEnvironment : Environment where
  cel _ _ src := if src = "[1]+[2]".toList then .ok (.list [.int 1, .int 2]) else .ok (.str src)
  builtIn method _ _ := .error method
  convert _ _ := none

theorem forEach_runs_post_in_loop_listLiteral :
    listLiteralEnvironment.cel [] [] "[1]+[2]".toList = .ok (.list [.int 1, .int 2]) ∧
      ∃ final,
        (parseParams listLiteralEnvironment 16).run
            (newParser (ForEachScript.script ["a".toList] ["b".toList])) = .ok () final ∧
          final.globalParams = [.str "a".toList, .str "b".toList, .str "a".toList, .str "b".toList] ∧
          final.globalParams ≠ [.str "a".toList, .str "a".toList, .str "b".toList] :=
  ⟨rfl, forEach_runs_post_in_loop listLiteralEnvironment rfl⟩

/-! ## addFunction restarts without end -/

section Restart

variable (env : Environment) {p : Parser} {pattern : List Char}

/--
addFunction on a script whose first pattern mentions defineFunc, where
handling that pattern changes nothing or runs out, runs out for every fuel.
-/
theorem addFunction_never_returns
    (first : p.globalPatterns[0]? = some pattern)
    (mentions : contains pattern "defineFunc".toList = true)
    (start : p.pc = 0)
    (unchanged : ∀ fuel,
      (∃ stuck, (handleContent env fuel (slice pattern 2 (pattern.length - 1))).run p = .error .outOfFuel stuck) ∨
        ∃ val, (handleContent env fuel (slice pattern 2 (pattern.length - 1))).run p = .ok val p) :
    ∀ fuel, ∃ stuck, (addFunction env fuel).run p = .error .outOfFuel stuck := by
  have current : p.globalPatterns[p.pc]? = some pattern := start ▸ first
  have nonempty : p.globalPatterns.isEmpty = false := by
    cases patterns : p.globalPatterns with
    | nil => simp [patterns] at first
    | cons _ _ => rfl
  have restarted : { p with pc := 0 } = p := by
    rw [← start]
  intro fuel
  induction fuel using Nat.strong_induction_on with
  | _ fuel ih =>
      match fuel with
      | 0 => exact ⟨p, rfl⟩
      | 1 =>
          refine ⟨p, ?_⟩
          simp only [addFunction, EStateM.run_bind, EStateM.run_get, nonempty, Bool.false_eq_true, if_false]
          rfl
      | less + 2 =>
          -- the pattern at Pc mentions defineFunc: handle it, reset Pc, start over
          simp only [addFunction, addFunctionLoop, EStateM.run_bind, EStateM.run_get, nonempty,
            Bool.false_eq_true, if_false, current, mentions, if_true, run_discard]
          rcases unchanged less with ⟨stuck, ranOut⟩ | ⟨val, returned⟩
          · refine ⟨stuck, ?_⟩
            rw [ranOut]
          · obtain ⟨stuck, again⟩ := ih less (by omega)
            refine ⟨stuck, ?_⟩
            simp only [returned, EStateM.run_modify, restarted, again]

/-- ParseParams runs out for every fuel where addFunction does. -/
theorem parseParams_never_returns
    (first : p.globalPatterns[0]? = some pattern)
    (mentions : contains pattern "defineFunc".toList = true)
    (start : p.pc = 0)
    (unchanged : ∀ fuel,
      (∃ stuck, (handleContent env fuel (slice pattern 2 (pattern.length - 1))).run p = .error .outOfFuel stuck) ∨
        ∃ val, (handleContent env fuel (slice pattern 2 (pattern.length - 1))).run p = .ok val p) :
    ∀ fuel, ∃ stuck, (parseParams env fuel).run p = .error .outOfFuel stuck
  | 0 => ⟨p, rfl⟩
  | fuel + 1 => by
      have nonempty : p.globalPatterns.isEmpty = false := by
        cases patterns : p.globalPatterns with
        | nil => simp [patterns] at first
        | cons _ _ => rfl
      obtain ⟨stuck, ranOut⟩ := addFunction_never_returns env first mentions start unchanged fuel
      refine ⟨stuck, ?_⟩
      simp only [parseParams, run_tryCatch, EStateM.run_bind, EStateM.run_get, nonempty, Bool.false_eq_true,
        if_false, ranOut]
      rfl

end Restart

namespace PingScript

/-- fn:ping with the word defineFunc as its argument. -/
def pattern : List Char := "$\x7bfn:ping(defineFunc)\x7d".toList

theorem getPrefix_pattern :
    getPrefix (slice pattern 2 (pattern.length - 1)) = .ok ("fn".toList, "ping".toList, ["defineFunc".toList]) := by
  decide +kernel

end PingScript

/-- Handling fn:ping(defineFunc) returns pong and changes nothing, or runs out. -/
theorem handleContent_ping (env : Environment) (p : Parser) : ∀ fuel,
    (∃ stuck, (handleContent env fuel (slice PingScript.pattern 2 (PingScript.pattern.length - 1))).run p =
        .error .outOfFuel stuck) ∨
      ∃ val, (handleContent env fuel (slice PingScript.pattern 2 (PingScript.pattern.length - 1))).run p =
        .ok val p
  | 0 => .inl ⟨p, rfl⟩
  | 1 => by
      left
      rw [handleContent_of_builtIn env PingScript.getPrefix_pattern (by decide)]
      exact ⟨p, rfl⟩
  | fuel + 2 => by
      right
      rw [handleContent_of_builtIn env PingScript.getPrefix_pattern (by decide),
        applyPredefinedFunction_pong env (by decide)]
      exact ⟨_, rfl⟩

/--
ParseParams on the one pattern fn:ping(defineFunc) runs out for every fuel:
addFunction handles the pattern, which defines nothing, and starts over.
-/
theorem ping_defineFunc_never_returns (env : Environment) (fuel : Nat) :
    ∃ stuck, (parseParams env fuel).run (newParser [PingScript.pattern]) = .error .outOfFuel stuck :=
  parseParams_never_returns env rfl (by decide) rfl (handleContent_ping env _) fuel

/-! ## Argument splitting -/

/-- The repository's sample of nested calls: five params, nested calls kept whole. -/
example : getPrefix ("smc:getData(getParams, fn:getTimeStamp(), fn:float(message.amount), " ++
      "fn:int(smc:getData(getAge,John)), fn:mul(fn:int(message.amount),fromAmount))").toList =
    .ok ("smc".toList, "getData".toList, ["getParams".toList, "fn:getTimeStamp()".toList,
      "fn:float(message.amount)".toList, "fn:int(smc:getData(getAge,John))".toList,
      "fn:mul(fn:int(message.amount),fromAmount)".toList]) := by
  decide +kernel

/--
A nested call whose text up to its first comma has at most six characters is
not seen by hasBuiltIn, and GetPrefix splits it at that comma:
fn:m(fn:a(b,c)) has the one param fn:a(b,c), and GetPrefix returns two.
-/
theorem getPrefix_splits_short_nested_call :
    getPrefix "fn:m(fn:a(b,c))".toList = .ok ("fn".toList, "m".toList, ["fn:a(b".toList, "c)".toList]) ∧
      ["fn:a(b,c)".toList] ≠ ["fn:a(b".toList, "c)".toList] :=
  ⟨by decide +kernel, by decide⟩

end Kardia.Ksml
