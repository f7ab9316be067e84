import Docker.Lib.Filepath
import Docker.Lib.Utf8

/-!
# Exclude patterns

Model of `CleanPatterns`, `Matches`, `OptimizedMatches` and `regexpMatch` in
`pkg/fileutils/fileutils.go` on Unix, for text without invalid UTF-8. What `filepath.Match` and
`regexp.MatchString` answer is a parameter.
-/

namespace Docker.Fileutils

open Filepath

/-- The matchers of the standard library, for a pattern and a text. `none` is an error. -/
structure Matchers where
  filepathMatch : Str → Str → Option Bool
  matchString : Str → Str → Option Bool

inductive MatchError where
  /-- `Illegal exclusion pattern: !`. -/
  | illegalExclusion
  /-- `Error in pattern (%s): syntax error in pattern`. -/
  | badPattern (pattern : Str)
  deriving DecidableEq

/-- The source panics for an empty pattern, and asks no such question. -/
def exclusion (pattern : Str) : Bool := pattern.head? == some '!'

def trimSpace (s : Str) : Str := (s.dropWhile Utf8.isSpace).rdropWhile Utf8.isSpace

/-- The elements of `cleanedPatterns` with those of `patternDirs`, which are as many, and
`exceptions`. -/
structure Cleaned where
  patterns : List (Str × List Str) := []
  exceptions : Bool := false
  deriving DecidableEq

def unmarked (pattern : Str) : Str := if exclusion pattern then pattern.tail else pattern

/-- What the loop adds to `regStr`, when the next `skip` characters have been read already. -/
def regexpFrom (skip : Nat) : Str → Str
  | [] => []
  | ch :: rest =>
    match skip with
    | skip + 1 => regexpFrom skip rest
    | 0 =>
      if ch = '*' then
        if rest.head? = some '*' then
          (if rest.tail = [] then ".*" else "((.*/)|([^/]*))").toList ++
            regexpFrom (if rest.tail.head? = some '/' then 2 else 1) rest
        else "[^/]*".toList ++ regexpFrom 0 rest
      else if ch = '?' then "[^/]".toList ++ regexpFrom 0 rest
      else if ch = '.' ∨ ch = '$' then '\\' :: ch :: regexpFrom 0 rest
      else if ch = '\\' then '\\' :: (rest.head?.toList ++ regexpFrom 1 rest)
      else ch :: regexpFrom 0 rest

/-- The regular expression for a pattern, without `^` and `$`. -/
def regexpText (pattern : Str) : Str := regexpFrom 0 pattern

/-- The scanner ignores a byte order mark at the beginning. -/
def scanned (pattern : Str) : Str := if pattern.head? = some '\uFEFF' then pattern.tail else pattern

def regexpMatch (m : Matchers) (pattern path : Str) : Option Bool :=
  match m.filepathMatch pattern path with
  | none => none
  | some _ => m.matchString ('^' :: (regexpText (scanned pattern) ++ ['$'])) path

/-! ## `Matches` -/

/-- The test of the directories above the file. An error is no match there. -/
def parentMatch (m : Matchers) (file : Str) (dirs : List Str) : Bool :=
  let parentPath := dir file
  let parentPathDirs := parentPath.splitOn '/'
  parentPath ≠ dot && dirs.length ≤ parentPathDirs.length &&
    (regexpMatch m (['/'].intercalate dirs)
      (['/'].intercalate (parentPathDirs.take dirs.length))).getD false

def patternMatch (m : Matchers) (file pattern : Str) (dirs : List Str) : Option Bool :=
  (regexpMatch m pattern file).map (· || parentMatch m file dirs)

def matchTurn (m : Matchers) (file : Str) (matched : Bool) (p : Str × List Str) :
    Except MatchError Bool :=
  match patternMatch m file (unmarked p.1) p.2 with
  | none => .error (.badPattern (unmarked p.1))
  | some true => .ok !exclusion p.1
  | some false => .ok matched

def optimizedMatches (m : Matchers) (file : Str) (patterns : List (Str × List Str)) :
    Except MatchError Bool :=
  patterns.foldlM (matchTurn m file) false

end Docker.Fileutils
