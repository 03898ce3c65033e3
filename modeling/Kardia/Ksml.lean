import Kardia.GoStrings
import Kardia.KeyedList

namespace Kardia.Ksml

open GoStrings

/-!
# The KSML interpreter

A KSML script is a list of patterns.  Parser.ParseParams reads them from the
program counter Pc: a pattern of the form ${content} is handed to
handleContent, any other pattern is its own value, and the values collect in
GlobalParams.  A content fn:method(params) or smc:method(params) calls an
entry of BuiltInFuncMap; any other content is a CEL expression.

The block built-ins scan the patterns after the counter themselves and move
it: executeIf up to fn:endif, forEach over the rest of the script,
defineFunction up to fn:endDefineFunc, which it cuts out.  The bodies of
blocks and functions run in a fresh parser made by parseBlockPatterns, with
the caller's variables and functions.  Before its loop ParseParams runs
addFunction, which handles every pattern that mentions defineFunc and starts
over from the first after each.

The calls in this module are mutually recursive through handleContent.  Each
takes a fuel argument and ends with outOfFuel when it runs out: a run that
runs out for every fuel is one that never returns.  What the package calls
outside itself (CEL, the built-ins on chains and numbers, the conversions of
supportedTypes) is an environment the run is given.
-/

/-- A Go value a pattern produces. -/
inductive Value where
  | str (s : List Char)
  | bool (b : Bool)
  | int (n : Int)
  | list (items : List Value)
  deriving Repr

mutual

/-- Equality of values, decided constructor by constructor. -/
def Value.decEq : (a b : Value) → Decidable (a = b)
  | .str s, .str t => decidable_of_iff (s = t) (by simp)
  | .bool x, .bool y => decidable_of_iff (x = y) (by simp)
  | .int m, .int n => decidable_of_iff (m = n) (by simp)
  | .list xs, .list ys =>
      match Value.decEqList xs ys with
      | isTrue same => isTrue (same ▸ rfl)
      | isFalse differ => isFalse fun equal => differ (Value.list.inj equal)
  | .str _, .bool _ | .str _, .int _ | .str _, .list _ | .bool _, .str _ | .bool _, .int _
  | .bool _, .list _ | .int _, .str _ | .int _, .bool _ | .int _, .list _ | .list _, .str _
  | .list _, .bool _ | .list _, .int _ => isFalse (by simp)

/-- Equality of lists of values, element by element. -/
def Value.decEqList : (xs ys : List Value) → Decidable (xs = ys)
  | [], [] => isTrue rfl
  | x :: xs, y :: ys =>
      match Value.decEq x y, Value.decEqList xs ys with
      | isTrue sameHead, isTrue sameTail => isTrue (sameHead ▸ sameTail ▸ rfl)
      | isFalse differ, _ => isFalse fun equal => differ (List.cons.inj equal).1
      | _, isFalse differ => isFalse fun equal => differ (List.cons.inj equal).2
  | [], _ :: _ => isFalse (by simp)
  | _ :: _, [] => isFalse (by simp)

end

instance : DecidableEq Value := Value.decEq

/-- function: a function defined by a script. -/
structure Function where
  name : List Char
  args : List (List Char)
  patterns : List (List Char)
  deriving Repr, DecidableEq

/--
The errors of the package.  foreign carries the message of an error from CEL
or from a built-in this model does not run.
-/
inductive KsmlError where
  | sourceIsEmpty
  | invalidBuiltInFuncSync
  | invalidIfParams
  | invalidIfStatement
  | incorrectReturnedValueInIFFunc
  | invalidSignal
  | stopSignal
  | invalidVariables
  | variableNotFound
  | invalidForEachParam
  | invalidForEachStatement
  | invalidDefineFunc
  | methodNotFound
  | cannotBeCalled
  | returnedValueIsEmpty
  | atLine (pc : Nat) (err : KsmlError)
  | foreign (message : List Char)
  deriving Repr, DecidableEq

/-- How a call ends other than by returning: an error, a Go panic, or the fuel running out. -/
inductive Fault where
  | error (err : KsmlError)
  | panic
  | outOfFuel
  deriving Repr, DecidableEq

/-- The fields of Parser the interpreter reads and writes; Go maps are lists with distinct keys. -/
structure Parser where
  globalPatterns : List (List Char)
  globalParams : List Value
  userDefinedFunction : List (List Char × Function)
  userDefinedVariables : List (List Char × Value)
  pc : Nat
  deriving Repr, DecidableEq

/-- NewParser: a script, no params, functions or variables, the counter at 0. -/
def newParser (globalPatterns : List (List Char)) : Parser :=
  ⟨globalPatterns, [], [], [], 0⟩

abbrev KsmlM := EStateM Fault Parser

/--
What the interpreter calls outside the package: CEL on a source with the
parser's variables and params, a built-in this model does not run, and the
conversion supportedTypes has for a type name (none for a name it lacks).
-/
structure Environment where
  cel : List (List Char × Value) → List Value → List Char → Except (List Char) Value
  builtIn : List Char → List (List Char) → Parser → Except (List Char) (List Value)
  convert : List Char → Value → Option (Except (List Char) Value)

/-! ## Names and signals -/

def elMinLength : Nat := 8

def signalContinue : List Char := "SIGNAL_CONTINUE".toList

def signalReturn : List Char := "SIGNAL_RETURN".toList

def signalStop : List Char := "SIGNAL_STOP".toList

def signals : List (List Char) := [signalContinue, signalReturn, signalStop]

/-- The entries of BuiltInFuncMap, by what the interpreter does with them. -/
inductive BuiltIn where
  | pong
  | validateFunc
  | executeIf
  | emptyFunc
  | addVar
  | forEach
  | defineFunction
  | callFunction
  | foreign
  deriving Repr, DecidableEq

/-- BuiltInFuncMap: the built-in a method name selects, none for a name it lacks. -/
def builtInFuncMap (method : List Char) : Option BuiltIn :=
  if method = "ping".toList then some .pong
  else if method = "validate".toList then some .validateFunc
  else if method = "if".toList then some .executeIf
  else if method ∈ ["endif", "elif", "else", "endForEach", "endDefineFunc"].map String.toList then
    some .emptyFunc
  else if method = "var".toList then some .addVar
  else if method = "forEach".toList then some .forEach
  else if method = "defineFunc".toList then some .defineFunction
  else if method = "call".toList then some .callFunction
  else if method ∈ ["currentTimeStamp", "currentBlockHeight", "split", "getData", "trigger",
      "publish", "cmp", "mul", "div", "int", "float", "exp", "format", "round",
      "replace"].map String.toList then
    some .foreign
  else none

/-! ## GetPrefix -/

/-- hasBuiltIn: longer than 6 and starting with fn: or smc:. -/
def hasBuiltIn (content : List Char) : Bool :=
  decide (content.length > 6) &&
    (hasPrefix content "fn:".toList || hasPrefix content "smc:".toList)

/--
The inner loop of GetPrefix: from the parenthesis at i, the index where the
parentheses balance, or the last index, with the count of those still open.
The characters after i are the first argument.
-/
def closeParen : List Char → Nat → Int → Nat × Int
  | [], i, count => (i, count)
  | c :: rest, i, count =>
      let count := if c = ')' then count - 1 else if c = '(' then count + 1 else count
      if count = 0 then (i + 1, count) else closeParen rest (i + 1) count

/-- The outer loop of GetPrefix: the params of a call, split at the commas outside nested calls. -/
def getParams (content : List Char) (params : List (List Char)) :
    Except KsmlError (List (List Char)) :=
  let spaceless := replaceAll content " ".toList []
  let idx := index spaceless ",".toList
  if idx < 0 then .ok (params ++ [spaceless])
  else
    let nested := spaceless.take idx.toNat
    if hasBuiltIn nested then
      let paren := index spaceless "(".toList
      if paren < 0 then .error .invalidBuiltInFuncSync
      else
        let (i, count) := closeParen (spaceless.drop (paren.toNat + 1)) paren.toNat 1
        if count ≠ 0 then .error .invalidBuiltInFuncSync
        else if i + 1 = spaceless.length then .ok (params ++ [spaceless])
        else if spaceless[i + 1]? ≠ some ',' then .error .invalidBuiltInFuncSync
        else if i + 2 ≤ spaceless.length then
          getParams (spaceless.drop (i + 2)) (params ++ [spaceless.take (i + 1)])
        else .error .invalidBuiltInFuncSync
    else
      let params := params ++ [nested]
      if fits : idx.toNat + 1 ≤ spaceless.length then getParams (spaceless.drop (idx.toNat + 1)) params
      else .ok params
termination_by content.length
decreasing_by
  all_goals
    have removed := length_replaceAll_nil_le content " ".toList
    simp only [spaceless, List.length_drop] at *
    omega

/-- GetPrefix: the prefix, the method and the params of a built-in call; a CEL content is its own method. -/
def getPrefix (content : List Char) :
    Except KsmlError (List Char × List Char × List (List Char)) :=
  if hasBuiltIn content then
    let firstParen := index content "(".toList
    if firstParen < 0 ∨ !hasSuffix content ")".toList then .error .invalidBuiltInFuncSync
    else
      let colon := (index content ":".toList).toNat
      let method := slice content (colon + 1) firstParen.toNat
      let inner := slice content (firstParen.toNat + 1) (content.length - 1)
      if inner.isEmpty then .ok (content.take colon, method, [])
      else (getParams inner []).map fun params => (content.take colon, method, params)
  else .ok ([], content, [])

/-! ## The scans of the block built-ins -/

/-- What the scan of executeIf collects: the blocks by condition, the conditions, and how far it moved Pc. -/
structure IfScan where
  blocks : List (List Char × List (List Char))
  listCond : List (List Char)
  validIfStatement : Bool
  advance : Nat
  deriving Repr, DecidableEq

/--
The scan of executeIf over the patterns after Pc: the patterns of each branch
under the key of its condition, up to fn:endif of the block.  The fault is the
error of GetPrefix or the panic of a branch marker without a condition.
-/
def ifScan (name : List Char) :
    List (List Char) → List Char → List (List Char) → IfScan → IfScan × Option Fault
  | [], _, _, scan => (scan, none)
  | pattern :: rest, key, newPatterns, scan =>
      if contains pattern name ∧ (contains pattern "endif".toList ∨ contains pattern "elif".toList ∨
          contains pattern "else".toList) then
        let scan :=
          { scan with
            blocks := KeyedList.set Prod.fst scan.blocks (key, newPatterns)
            listCond := scan.listCond ++ [key] }
        match getPrefix (replaceAll (replaceAll pattern "\x7d".toList []) "$\x7b".toList []) with
        | .error err => (scan, some (.error err))
        | .ok (_, method, results) =>
            if method = "else".toList then
              ifScan name rest ("else(".toList ++ name ++ ")".toList) [] { scan with advance := scan.advance + 1 }
            else if method = "endif".toList then
              ({ scan with validIfStatement := true, advance := scan.advance + 1 }, none)
            else
              match results[1]? with
              | none => (scan, some .panic)
              | some key => ifScan name rest key [] { scan with advance := scan.advance + 1 }
      else ifScan name rest key (newPatterns ++ [pattern]) { scan with advance := scan.advance + 1 }

/-- The scan of forEach over the patterns after Pc: all but the markers of the loop, and whether one was seen. -/
def forEachScan (name : List Char) : List (List Char) → List (List Char) × Bool
  | [] => ([], false)
  | pattern :: rest =>
      let (newPatterns, validForEach) := forEachScan name rest
      if contains pattern name && contains pattern "endForEach".toList then (newPatterns, true)
      else (pattern :: newPatterns, validForEach)

/-- The scan of defineFunction: the patterns before the end marker, and how many it scanned through the marker. -/
def defineScan (marker : List Char) : List (List Char) → List (List Char) × Option Nat
  | [] => ([], none)
  | pattern :: rest =>
      if contains pattern marker then ([], some 1)
      else
        let (body, scanned) := defineScan marker rest
        (pattern :: body, scanned.map (· + 1))

/-- The block of a condition in the map of executeIf; a missing key reads as nil. -/
def blockOf (blocks : List (List Char × List (List Char))) (cond : List Char) : List (List Char) :=
  ((KeyedList.find Prod.fst blocks cond).map Prod.snd).getD []

/-- The variables a block run leaves, written back where the caller has them. -/
def updateExisting (vars : List (List Char × Value)) (entry : List Char × Value) :
    List (List Char × Value) :=
  if entry.1 ∈ vars.map Prod.fst then KeyedList.set Prod.fst vars entry else vars

/-- defineFunction: the patterns up to fn:endDefineFunc(method) become a function and are cut out. -/
def defineFunction (extras : List (List Char)) : KsmlM (List Value) :=
  match extras with
  | [] => throw .panic
  | method :: args => do
      let p ← get
      let startPos := p.pc
      let later := p.globalPatterns.drop (startPos + 1)
      match defineScan ("endDefineFunc(".toList ++ method ++ ")".toList) later with
      | (_, none) =>
          set { p with pc := startPos + later.length }
          throw (.error .invalidDefineFunc)
      | (body, some scanned) =>
          let endPos := startPos + scanned
          set { p with
            pc := endPos
            userDefinedFunction :=
              if method ∈ p.userDefinedFunction.map Prod.fst then p.userDefinedFunction
              else p.userDefinedFunction ++ [(method, Function.mk method args body)]
            globalPatterns := p.globalPatterns.take startPos ++ p.globalPatterns.drop (endPos + 1) }
          pure []

section Interpreter

variable (env : Environment)

/-- CEL: the value of a nonempty source under the parser's variables and params. -/
def cel (src : List Char) : KsmlM (List Value) := do
  if src.isEmpty then throw (.error .sourceIsEmpty)
  let p ← get
  match env.cel p.userDefinedVariables p.globalParams src with
  | .ok value => pure [value]
  | .error message => throw (.error (.foreign message))

/-- A built-in this model does not run, as the environment answers it. -/
def foreignBuiltIn (method : List Char) (patterns : List (List Char)) : KsmlM (List Value) := do
  match env.builtIn method patterns (← get) with
  | .ok val => pure val
  | .error message => throw (.error (.foreign message))

mutual

/--
ParseParams: addFunction, then the patterns from Pc.  The deferred recover
turns a panic into a return, with the state the panic left.
-/
def parseParams : Nat → KsmlM Unit
  | 0 => throw .outOfFuel
  | fuel + 1 =>
      tryCatch
        (do
          if (← get).globalPatterns.isEmpty then throw (.error .sourceIsEmpty)
          addFunction fuel
          parseLoop fuel)
        fun fault =>
          match fault with
          | .panic => pure ()
          | _ => throw fault

/-- The loop of ParseParams: a pattern's values are appended, a signal last among them ends or skips. -/
def parseLoop : Nat → KsmlM Unit
  | 0 => throw .outOfFuel
  | fuel + 1 => do
      let p ← get
      match p.globalPatterns[p.pc]? with
      | none => pure ()
      | some pattern =>
          let val ←
            if pattern.length ≥ elMinLength ∧ hasPrefix pattern "$\x7b".toList ∧
                hasSuffix pattern "\x7d".toList then
              tryCatch (handleContent fuel (slice pattern 2 (pattern.length - 1))) fun fault =>
                match fault with
                | .error err => do throw (.error (.atLine (← get).pc err))
                | _ => throw fault
            else pure [.str pattern]
          match val.getLast? with
          | some (.str signal) =>
              if signal = signalContinue then
                modify fun p => { p with globalParams := p.globalParams ++ val.dropLast, pc := p.pc + 1 }
                parseLoop fuel
              else if signal = signalReturn then
                modify fun p => { p with globalParams := p.globalParams ++ val.dropLast }
              else if signal = signalStop then
                throw (.error .stopSignal)
              else
                modify fun p => { p with globalParams := p.globalParams ++ val, pc := p.pc + 1 }
                parseLoop fuel
          | _ =>
              modify fun p => { p with globalParams := p.globalParams ++ val, pc := p.pc + 1 }
              parseLoop fuel

/-- addFunction: handles each pattern that mentions defineFunc and starts over after it. -/
def addFunction : Nat → KsmlM Unit
  | 0 => throw .outOfFuel
  | fuel + 1 => do
      if (← get).globalPatterns.isEmpty then throw (.error .sourceIsEmpty)
      addFunctionLoop fuel
      modify fun p => { p with pc := 0 }

/-- The loop of addFunction over the patterns from Pc. -/
def addFunctionLoop : Nat → KsmlM Unit
  | 0 => throw .outOfFuel
  | fuel + 1 => do
      let p ← get
      match p.globalPatterns[p.pc]? with
      | none => pure ()
      | some pattern =>
          if contains pattern "defineFunc".toList then
            discard <| handleContent fuel (slice pattern 2 (pattern.length - 1))
            modify fun p => { p with pc := 0 }
            addFunction fuel
          modify fun p => { p with pc := p.pc + 1 }
          addFunctionLoop fuel

/-- handleContent: a built-in call, or a CEL expression. -/
def handleContent : Nat → List Char → KsmlM (List Value)
  | 0, _ => throw .outOfFuel
  | fuel + 1, content =>
      match getPrefix content with
      | .error err => throw (.error err)
      | .ok (builtInPrefix, method, patterns) =>
          if builtInPrefix.isEmpty then cel env content
          else applyPredefinedFunction fuel builtInPrefix method patterns

/-- applyPredefinedFunction: the entry of BuiltInFuncMap; calling one it lacks calls a nil func. -/
def applyPredefinedFunction : Nat → List Char → List Char → List (List Char) → KsmlM (List Value)
  | 0, _, _, _ => throw .outOfFuel
  | fuel + 1, builtInPrefix, method, patterns =>
      if builtInPrefix = "fn".toList ∨ builtInPrefix = "smc".toList then
        match builtInFuncMap method with
        | none => throw .panic
        | some .pong => pure [.str "pong".toList]
        | some .validateFunc => validateFunc fuel patterns
        | some .executeIf => executeIf fuel patterns
        | some .emptyFunc => throw (.error .cannotBeCalled)
        | some .addVar => addVar fuel patterns
        | some .forEach => forEach fuel patterns
        | some .defineFunction => defineFunction patterns
        | some .callFunction => callFunction fuel patterns
        | some .foreign => foreignBuiltIn env method patterns
      else pure []

/-- validateFunc: one of two signals, by a condition. -/
def validateFunc : Nat → List (List Char) → KsmlM (List Value)
  | 0, _ => throw .outOfFuel
  | fuel + 1, extras =>
      match extras with
      | [ifSrc, trueSignal, falseSignal] => do
          if trueSignal ∉ signals ∨ falseSignal ∉ signals then throw (.error .invalidSignal)
          let ifResult ← handleContent fuel ifSrc
          match ifResult with
          | [.bool b] => pure [.str (if b then trueSignal else falseSignal)]
          | _ => throw (.error .incorrectReturnedValueInIFFunc)
      | _ => throw (.error .invalidIfParams)

/-- executeIf: scans its block up to fn:endif, then runs the first branch whose condition holds. -/
def executeIf : Nat → List (List Char) → KsmlM (List Value)
  | 0, _ => throw .outOfFuel
  | fuel + 1, extras =>
      match extras with
      | [name, condition] => do
          let p ← get
          let (scan, stopped) := ifScan name (p.globalPatterns.drop (p.pc + 1)) condition [] ⟨[], [], false, 0⟩
          set { p with pc := p.pc + scan.advance }
          if let some fault := stopped then throw fault
          if !scan.validIfStatement then throw (.error .invalidIfStatement)
          ifBranches fuel scan.listCond scan.blocks
      | _ => throw (.error .invalidIfParams)

/-- The loop of executeIf over the conditions: an else branch runs, another runs if its condition holds. -/
def ifBranches : Nat → List (List Char) → List (List Char × List (List Char)) → KsmlM (List Value)
  | 0, _, _ => throw .outOfFuel
  | _ + 1, [], _ => pure []
  | fuel + 1, cond :: rest, blocks =>
      if contains cond "else".toList then parseBlockPatterns fuel (blockOf blocks cond) []
      else do
        let val ← handleContent fuel cond
        match val with
        | [.bool true] => parseBlockPatterns fuel (blockOf blocks cond) []
        | [.bool false] => ifBranches fuel rest blocks
        | _ => throw (.error .incorrectReturnedValueInIFFunc)

/--
parseBlockPatterns: runs patterns in a new parser with the caller's variables,
the extra ones over them, and the caller's functions; the caller's variables
take the values the run leaves.
-/
def parseBlockPatterns : Nat → List (List Char) → List (List Char × Value) → KsmlM (List Value)
  | 0, _, _ => throw .outOfFuel
  | fuel + 1, patterns, extrasVar => do
      let p ← get
      let nested : Parser :=
        { newParser patterns with
          userDefinedFunction := p.userDefinedFunction
          userDefinedVariables := extrasVar.foldl (KeyedList.set Prod.fst) p.userDefinedVariables }
      match (parseParams fuel).run nested with
      | .error fault _ => throw fault
      | .ok () finished =>
          set { p with
            userDefinedVariables := finished.userDefinedVariables.foldl updateExisting p.userDefinedVariables }
          pure finished.globalParams

/-- forEach: scans the patterns after Pc and runs the ones that are no end marker once per item. -/
def forEach : Nat → List (List Char) → KsmlM (List Value)
  | 0, _ => throw .outOfFuel
  | fuel + 1, extras =>
      match extras with
      | [name, list, index] => do
          let val ← handleContent fuel list
          match val with
          | .list items :: _ => do
              let p ← get
              let later := p.globalPatterns.drop (p.pc + 1)
              let (newPatterns, validForEach) := forEachScan name later
              set { p with pc := p.pc + later.length }
              if !validForEach then throw (.error .invalidForEachStatement)
              forEachLoop fuel newPatterns index 0 items []
          | _ => throw (.error .invalidForEachParam)
      | _ => throw (.error .invalidForEachParam)

/-- The loop of forEach: the body once per item, with the index variable at its position. -/
def forEachLoop : Nat → List (List Char) → List Char → Nat → List Value → List Value → KsmlM (List Value)
  | 0, _, _, _, _, _ => throw .outOfFuel
  | _ + 1, _, _, _, [], results => pure results
  | fuel + 1, newPatterns, index, i, _ :: rest, results => do
      let val ← parseBlockPatterns fuel newPatterns [(index, .int i)]
      forEachLoop fuel newPatterns index (i + 1) rest (results ++ val)

/-- callFunction: runs a defined function's patterns with its arguments bound. -/
def callFunction : Nat → List (List Char) → KsmlM (List Value)
  | 0, _ => throw .outOfFuel
  | _ + 1, [] => throw .panic
  | fuel + 1, method :: args => do
      match KeyedList.find Prod.fst (← get).userDefinedFunction method with
      | none => throw (.error .methodNotFound)
      | some (_, f) =>
          if args.length ≠ f.args.length then throw (.error .invalidVariables)
          let vars ← bindArgs fuel (f.args.zip args) []
          parseBlockPatterns fuel f.patterns vars

/-- The loop of callFunction binding each argument to the first value of its content. -/
def bindArgs : Nat → List (List Char × List Char) → List (List Char × Value) →
    KsmlM (List (List Char × Value))
  | 0, _, _ => throw .outOfFuel
  | _ + 1, [], vars => pure vars
  | fuel + 1, (arg, content) :: rest, vars => do
      let val ← handleContent fuel content
      match val with
      | v :: _ => bindArgs fuel rest (KeyedList.set Prod.fst vars (arg, v))
      | [] => bindArgs fuel rest vars

/-- addVar: a variable set to the converted first value of a content. -/
def addVar : Nat → List (List Char) → KsmlM (List Value)
  | 0, _ => throw .outOfFuel
  | fuel + 1, extras =>
      match extras with
      | [varName, varType, varVal] => do
          let val ← handleContent fuel varVal
          match val with
          | [] => throw (.error .returnedValueIsEmpty)
          | first :: _ =>
              match env.convert varType first with
              | none => throw (.error .variableNotFound)
              | some (.error message) => throw (.error (.foreign message))
              | some (.ok v) => do
                  modify fun p =>
                    { p with userDefinedVariables := KeyedList.set Prod.fst p.userDefinedVariables (varName, v) }
                  pure []
      | _ => throw (.error .invalidVariables)

end

end Interpreter

end Kardia.Ksml
