import Docker.Dockerfile.Flags
import Docker.Lib.Fallible

/-!
# The Dockerfile parser

`Parse` and `ParseLine` of `builder/dockerfile/parser`, with the line parsers. A line has no
newline. `Parse` is a machine that is fed what `scanner.Scan()` returns: its two nested loops each
wait at such a call.
-/

namespace Docker.Dockerfile

open Utf8 List

def str (s : String) : Bytes := encode s.toList

abbrev Attributes := List (Bytes × Bool)

/-- A nil pointer in `Children` is `none`. -/
structure Node where
  value : Bytes := []
  next : Option Node := none
  children : List (Option Node) := []
  attributes : Attributes := []
  original : Bytes := []
  flags : List Bytes := []
  startLine : Int := 0
  endLine : Int := 0

structure Directive where
  escapeToken : EscapeToken := .backslash
  lookingForDirectives : Bool := true
  escapeSeen : Bool := false
  deriving DecidableEq

inductive ParseError where
  /-- `only one escape parser directive can be used`. -/
  | secondEscape
  /-- ``invalid ESCAPE '%s'. Must be ` or \``. -/
  | invalidEscape (s : Bytes)
  /-- `%s must have two arguments`. -/
  | twoArguments (key : Bytes)
  /-- `Syntax error - can't find = in %q. Must be of the form: name=value`. -/
  | noEquals (word : Bytes)
  /-- `errDockerfileNotStringArray`. -/
  | notStringArray
  deriving DecidableEq

/-- What the parser takes from other packages. -/
structure Context where
  tables : Tables
  /-- `json` decodes an array: the strings in it, and `none` for what is no string. -/
  decodeArray : Bytes → Option (List (Option Bytes))

/-! ## Lines -/

def isBlank (b : UInt8) : Bool := b = 32 ∨ b = 9

def isTokenWhitespace (b : UInt8) : Bool := b = 9 ∨ b = 11 ∨ b = 12 ∨ b = 13 ∨ b = 32

def splitTwo (s : Bytes) : Bytes × Option Bytes :=
  (s.takeWhile (!isTokenWhitespace ·),
    if s.any isTokenWhitespace then some ((s.dropWhile (!isTokenWhitespace ·)).dropWhile
      isTokenWhitespace) else none)

/-- `tokenWhitespace.Split(s, -1)`, with the piece `cur` begun; `run` is true in the middle of a
separator. -/
def splitAll : Bytes → Bool → Bytes → List Bytes
  | cur, _, [] => [cur]
  | cur, run, b :: s =>
    if isTokenWhitespace b then if run then splitAll [] true s else cur :: splitAll [] true s
    else splitAll (cur ++ [b]) false s

/-- A line that begins with `#` is a comment. -/
def stripComments (line : Bytes) : Bytes := if line.head? = some 35 then [] else line

def EscapeToken.byte : EscapeToken → UInt8
  | backslash => 92
  | backquote => 96

/-- The line without the match of `LineContinuationRegex`, if there is one. -/
def continuation (e : EscapeToken) (line : Bytes) : Option Bytes :=
  if (line.rdropWhile isBlank).getLast? =
    some e.byte then some (line.rdropWhile isBlank).dropLast else none

structure CommandLine where
  cmd : Bytes
  flags : List Bytes
  args : Bytes

def splitCommand (u : Tables) (line : Bytes) : CommandLine :=
  match splitTwo (trimSpace line) with
  | (cmd, none) => ⟨toLower u cmd, [], []⟩
  | (cmd, some args) =>
    ⟨toLower u cmd, (extractBuilderFlags args).2, trimSpace (extractBuilderFlags args).1⟩

/-! ## Line parsers -/

/-- The nodes of a list of values, each the next one of the node before. -/
def chain : List Bytes → Option Node
  | [] => none
  | value :: values => some { value, next := chain values }

/-- `strings.SplitN(word, "=", 2)`. -/
def splitNameVal (word : Bytes) : Except ParseError (List Bytes) :=
  if 61 ∈ word then .ok [word.takeWhile (· ≠ 61), (word.dropWhile (· ≠ 61)).tail]
    else .error (.noEquals word)

def parseNameVal (e : EscapeToken) (key rest : Bytes) :
    Except ParseError (Option Node × Attributes) :=
  match parseWords rest e with
  | [] => .ok (none, [])
  | word :: words =>
    -- Old format (KEY name value)
    if 61 ∉ word then
      match splitTwo rest with
      | (_, none) => .error (.twoArguments key)
      | (name, some value) => .ok (chain [name, value], [])
    else do
      let parts ← (word :: words).mapM splitNameVal
      .ok (chain parts.flatten, [])

def parseNameOrNameVal (e : EscapeToken) (rest : Bytes) : Option Node × Attributes :=
  (chain (parseWords rest e), [])

def parseStringsWhitespaceDelimited (rest : Bytes) : Option Node × Attributes :=
  (if rest = [] then none else chain (splitAll [] false rest), [])

def parseString (rest : Bytes) : Option Node × Attributes :=
  (if rest = [] then none else chain [rest], [])

inductive JSONError where
  /-- `rest` does not begin with `[`, or is no JSON. -/
  | other
  | notStringArray

def parseJSON (cx : Context) (rest : Bytes) : Except JSONError (Option Node × Attributes) :=
  if (trimLeft rest).head? ≠ some 91 then .error .other
  else
    match cx.decodeArray (trimLeft rest) with
    | none => .error .other
    | some values =>
      match values.mapM id with
      | none => .error .notStringArray
      | some values => .ok (chain values, [(str "json", true)])

def orJSON (cx : Context) (rest : Bytes) (other : Option Node × Attributes) :
    Except ParseError (Option Node × Attributes) :=
  match parseJSON cx rest with
  | .ok result => .ok result
  | .error .notStringArray => .error .notStringArray
  | .error .other => .ok other

def parseMaybeJSON (cx : Context) (rest : Bytes) : Except ParseError (Option Node × Attributes) :=
  if rest = [] then .ok (none, []) else orJSON cx rest (chain [rest], [])

def parseMaybeJSONToList (cx : Context) (rest : Bytes) :
    Except ParseError (Option Node × Attributes) :=
  orJSON cx rest (parseStringsWhitespaceDelimited rest)

/-- The arguments are read byte by byte. -/
def parseHealthConfig (cx : Context) (rest : Bytes) :
    Except ParseError (Option Node × Attributes) :=
  let typ := rest.takeWhile fun b => !isSpace (byteRune b)
  let cmd := (rest.dropWhile fun b => !isSpace (byteRune b)).dropWhile fun b => isSpace (byteRune b)
  if typ = [] then .ok (none, [])
  else do
    let (next, attributes) ← parseMaybeJSON cx cmd
    .ok (some { value := typ, next, attributes }, [])

/-- What a call of `ParseLine` returns: the line that is to be continued, and the node. -/
abbrev LineResult := Except ParseError (Bytes × Option Node)

def parseSubCommand (parseLine : Bytes → LineResult) (rest : Bytes) :
    Except ParseError (Option Node × Attributes) :=
  if rest = [] then .ok (none, [])
  else do
    let (_, child) ← parseLine rest
    .ok (some { children := [child] }, [])

inductive LineParser where
  | maybeJSONToList
  | nameOrNameVal
  | maybeJSON
  | env
  | stringsWhitespaceDelimited
  | string
  | healthConfig
  | label
  | subCommand
  deriving DecidableEq

def LineParser.run (cx : Context) (e : EscapeToken) (parseLine : Bytes → LineResult)
    (rest : Bytes) :
    LineParser → Except ParseError (Option Node × Attributes)
  | maybeJSONToList => parseMaybeJSONToList cx rest
  | nameOrNameVal => .ok (parseNameOrNameVal e rest)
  | maybeJSON => parseMaybeJSON cx rest
  | env => parseNameVal e (str "ENV") rest
  | stringsWhitespaceDelimited => .ok (parseStringsWhitespaceDelimited rest)
  | string => .ok (parseString rest)
  | healthConfig => parseHealthConfig cx rest
  | label => parseNameVal e (str "LABEL") rest
  | subCommand => parseSubCommand parseLine rest

def dispatch : List (Bytes × LineParser) :=
  [(str "add", .maybeJSONToList), (str "arg", .nameOrNameVal), (str "cmd", .maybeJSON),
    (str "copy", .maybeJSONToList),
    (str "entrypoint", .maybeJSON), (str "env", .env), (str "expose", .stringsWhitespaceDelimited),
      (str "from", .string),
    (str "healthcheck", .healthConfig), (str "label", .label), (str "maintainer", .string),
      (str "onbuild", .subCommand),
    (str "run", .maybeJSON), (str "shell", .maybeJSON), (str "stopsignal", .string),
      (str "user", .string),
    (str "volume", .maybeJSONToList), (str "workdir", .string)]

def fullDispatch (cx : Context) (e : EscapeToken) (parseLine : Bytes → LineResult)
    (cmd args : Bytes) :
    Except ParseError (Option Node × Attributes) :=
  match dispatch.lookup cmd with
  -- Ignore invalid Dockerfile instructions
  | none => .ok (some {}, [])
  | some parser => parser.run cx e parseLine args

/-! ## `ParseLine` -/

def commandNode (c : CommandLine) (line : Bytes) (sexp : Option Node × Attributes) : Node :=
  { value := c.cmd, next := sexp.1, attributes := sexp.2, original := line, flags := c.flags }

/-- `ParseLine` behind the directives; `parseLine` is the call for the argument of an `ONBUILD`. -/
def instructionStep (cx : Context) (e : EscapeToken) (parseLine : Bytes → LineResult)
    (line : Bytes) : LineResult :=
  if stripComments line = [] then .ok ([], none)
  else
    match continuation e line with
    | some line => .ok (line, none)
    | none =>
      (fullDispatch cx e parseLine (splitCommand cx.tables line).cmd
        (splitCommand cx.tables line).args).map fun sexp =>
        ([], some (commandNode (splitCommand cx.tables line) line sexp))

/-- `ONBUILD` within `ONBUILD`, at most `n` deep. -/
def instructionWithin (cx : Context) (e : EscapeToken) : Nat → Bytes → LineResult
  | 0, _ => .ok ([], none)
  | n + 1, line => instructionStep cx e (instructionWithin cx e n) line

/-- `ParseLine` when no directive is looked for. `instruction_eq` says that the bound on the depth
is none. -/
def instruction (cx : Context) (e : EscapeToken) (line : Bytes) : LineResult :=
  instructionWithin cx e (line.length + 1) line

/-- The `escapechar` of `tokenEscapeCommand`. Among blanks only, it is the last of them. -/
def escapeCommand (line : Bytes) : Option Bytes :=
  match line with
  | 35 :: rest =>
    match (rest.dropWhile isBlank).dropPrefix? (str "escape") with
    | some rest =>
      match rest.dropWhile isBlank with
      | 61 :: rest =>
        match pieces (rest.dropWhile isBlank) with
        | p :: _ => some p.2
        | [] => rest.getLast?.map ([·])
      | _ => none
    | none => none
  | _ => none

def setEscapeToken (s : Bytes) : Except ParseError EscapeToken :=
  if s = str "`" then .ok .backquote else if s = str "\\" then .ok .backslash
    else .error (.invalidEscape s)

def parseLine (cx : Context) (d : Directive) (line : Bytes) :
    Except ParseError (Directive × Bytes × Option Node) :=
  match if d.lookingForDirectives then escapeCommand (toLower cx.tables line) else none with
  | some s =>
    if d.escapeSeen then .error .secondEscape
    else do
      let escapeToken ← setEscapeToken s
      .ok ({ d with escapeToken, escapeSeen := true }, [], none)
  | none => do
    let (line, node) ← instruction cx d.escapeToken line
    .ok ({ d with lookingForDirectives := false }, line, node)

/-! ## `Parse` -/

inductive Loop where
  | outer
  /-- `line` is continued. -/
  | inner (line : Bytes) (startLine : Nat)
  | done
  deriving DecidableEq

structure ParseState where
  directive : Directive
  currentLine : Nat := 0
  root : Node := { startLine := -1 }
  loop : Loop := .outer

def addChild (root child : Node) (startLine currentLine : Nat) : Node :=
  { root with
    startLine := if root.startLine < 0 then currentLine else root.startLine
    endLine := currentLine
    children :=
      root.children ++ [some { child with startLine := startLine, endLine := currentLine }] }

def ParseState.finish (st : ParseState) (child : Option Node) (startLine : Nat) : ParseState :=
  match child with
  | none => { st with loop := .outer }
  | some child =>
    { st with loop := .outer, root := addChild st.root child startLine st.currentLine }

def utf8bom : Bytes := [0xEF, 0xBB, 0xBF]

/-- What is parsed of a line that begins an instruction. -/
def lineStart (first : Bool) (bytes : Bytes) : Bytes :=
  trimLeft (if first ∧ utf8bom <+: bytes then bytes.drop utf8bom.length else bytes)

/-- A line is parsed. If it gives no node, it may be continued. -/
def ParseState.parseLine (cx : Context) (st : ParseState) (line : Bytes) (startLine : Nat)
    (more : Bytes → Bool) :
    Except ParseError ParseState := do
  let (directive, line, child) ← Dockerfile.parseLine cx st.directive line
  if child.isNone ∧ more line then .ok { st with directive, loop := .inner line startLine }
  else .ok ({ st with directive }.finish child startLine)

/-- From one call of `scanner.Scan()` to the next one. -/
def ParseState.scanned (cx : Context) (st : ParseState) (token : Option Bytes) :
    Except ParseError ParseState :=
  match st.loop, token with
  | .done, _ => .ok st
  | .outer, none => .ok { st with loop := .done }
  | .outer, some bytes =>
    { st with currentLine := st.currentLine + 1 }.parseLine cx
      (lineStart (st.currentLine = 0) bytes) (st.currentLine + 1) (· ≠ [])
  | .inner line startLine, none =>
    if line ≠ [] then st.parseLine cx line startLine fun _ =>
      false else .ok (st.finish none startLine)
  | .inner line startLine, some newline =>
    if stripComments (trimSpace newline) = [] then .ok { st with currentLine := st.currentLine + 1 }
    else { st with currentLine := st.currentLine + 1 }.parseLine cx
      (line ++ newline) startLine fun _ => true

def maxScanTokenSize : Nat := 65536

def dropCR (line : Bytes) : Bytes := if line.getLast? = some 13 then line.dropLast else line

/-- The lines of a file, with their carriage returns. There is none behind the last newline. -/
def rawLines (file : Bytes) : List Bytes :=
  if (file.splitOn 10).getLast? = some [] then (file.splitOn 10).dropLast else file.splitOn 10

/-- What the calls of `scanner.Scan()` return. A line that is too long ends the scan, but one more
call gives what is in the buffer. -/
def scanLines : List Bytes → List (Option Bytes)
  | [] => []
  | line :: lines =>
    if line.length < maxScanTokenSize then some (dropCR line) :: scanLines lines
    else [none, some (dropCR (line.take maxScanTokenSize))]

def readTokens (cx : Context) (st : ParseState) (tokens : List (Option Bytes)) :
    Except ParseError ParseState :=
  tokens.foldlM (ParseState.scanned cx) st

/-- At the end of the file, each loop is told so. The error of the scanner is not looked at. -/
def parse (cx : Context) (d : Directive) (file : Bytes) : Except ParseError ParseState :=
  readTokens cx { directive := d } (scanLines (rawLines file) ++ [none, none])

/-! ## The depth of `ONBUILD` -/

theorem splitTwo_lt (h : splitTwo s = (first, some rest)) (hne : first ≠ []) :
    rest.length < s.length := by
  obtain ⟨hfirst, hrest⟩ := Prod.mk.inj h
  split at hrest
  · have hdrop :=
      (dropWhile_suffix (l := s.dropWhile (!isTokenWhitespace ·)) isTokenWhitespace).length_le
    have hsplit := congrArg List.length
      (takeWhile_append_dropWhile (p := (!isTokenWhitespace ·)) (l := s))
    rw [hfirst, length_append] at hsplit
    rw [Option.some.inj hrest] at hdrop
    have hpos := length_pos_iff.2 hne
    omega
  · cases hrest

theorem toLower_ne_nil (h : toLower u s ≠ []) : s ≠ [] := by
  rintro rfl
  exact h rfl

theorem length_args_lt (h : (splitCommand u line).cmd ≠ []) :
    (splitCommand u line).args.length < line.length := by
  have hline := length_trimSpace_le line
  rw [splitCommand] at h ⊢
  cases hsplit : splitTwo (trimSpace line) with
  | mk cmd rest =>
    rw [hsplit] at h
    cases rest with
    | none =>
      have hcmd : cmd ≠ [] := toLower_ne_nil h
      refine length_pos_iff.2 ?_
      rintro rfl
      exact hcmd (Prod.mk.inj hsplit).1.symm
    | some args =>
      have hlt := splitTwo_lt hsplit (toLower_ne_nil h)
      have hargs : (extractBuilderFlags args).1.length ≤ args.length :=
        (flagsLoop_suffix {} args).length_le
      have htrim := length_trimSpace_le (extractBuilderFlags args).1
      show (trimSpace (extractBuilderFlags args).1).length < line.length
      omega

theorem instructionStep_congr (h : ∀ l, l.length < line.length → f l = g l) :
    instructionStep cx e f line = instructionStep cx e g line := by
  have hdispatch : fullDispatch cx e f (splitCommand cx.tables line).cmd
      (splitCommand cx.tables line).args =
      fullDispatch cx e g (splitCommand cx.tables line).cmd (splitCommand cx.tables line).args := by
    by_cases hcmd : (splitCommand cx.tables line).cmd = []
    · rw [hcmd]
      rfl
    · rw [fullDispatch, fullDispatch]
      split
      · rfl
      · next parser _ =>
        cases parser with
        | subCommand =>
          rw [LineParser.run, LineParser.run, parseSubCommand, parseSubCommand,
            h _ (length_args_lt hcmd)]
        | _ => rfl
  rw [instructionStep, instructionStep, hdispatch]

theorem instructionWithin_eq (h : line.length < n) :
    instructionWithin cx e n line = instruction cx e line := by
  induction hn : line.length using Nat.strong_induction_on generalizing line n with
  | _ k ih =>
    subst hn
    obtain ⟨n, rfl⟩ := Nat.exists_eq_add_one_of_ne_zero (Nat.ne_of_gt (Nat.zero_lt_of_lt h))
    refine instructionStep_congr fun l hl => ?_
    rw [ih l.length hl (Nat.lt_of_lt_of_le hl (Nat.le_of_lt_succ h)) rfl, ih l.length hl hl rfl]

/-- `ParseLine` calls itself for the argument of an `ONBUILD`, however deep. -/
theorem instruction_eq (line : Bytes) :
    instruction cx e line = instructionStep cx e (instruction cx e) line := by
  exact instructionStep_congr fun l hl => instructionWithin_eq hl

end Docker.Dockerfile
