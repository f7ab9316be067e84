import Docker.Lib.Utf8

/-!
# The word expander

`builder/dockerfile/shell_parser.go`. The scanner is the list of runes that are left. The recursion
is bounded by a number of steps; `ShellError.outOfSteps` is the model's own, and never comes out
(`process_ne_outOfSteps`).
-/

namespace Docker.Dockerfile

open Utf8 List

inductive ShellError where
  /-- `Unsupported modifier (%c) in substitution: %s`; there is no modifier at the end of the
  word. -/
  | unsupportedModifier (modifier : Option Char) (word : Bytes)
  /-- `Missing ':' in substitution: %s`. -/
  | missingColon (word : Bytes)
  | outOfSteps
  deriving DecidableEq

/-- A byte order mark, which a `scanner.Scanner` ignores in front of its text. -/
def bom : Char := '\uFEFF'

/-- The runes that a `scanner.Scanner` gives. -/
def scan (s : Bytes) : List Char :=
  match runes s with
  | [] => []
  | ch :: rest => if ch = bom then rest else ch :: rest

structure WordsStruct where
  word : Bytes := []
  words : List Bytes := []
  inWord : Bool := false
  deriving DecidableEq

namespace WordsStruct

def addRawString (w : WordsStruct) (str : Bytes) : WordsStruct :=
  { w with word := w.word ++ str, inWord := true }

def addRawChar (w : WordsStruct) (ch : Char) : WordsStruct := w.addRawString (encodeRune ch)

def addChar (w : WordsStruct) (ch : Char) : WordsStruct :=
  if isSpace ch ∧ w.inWord then
    if w.word ≠ [] then { w with words := w.words ++ [w.word], word := [], inWord := false } else w
  else if ¬isSpace ch then w.addRawChar ch
  else w

def addString (w : WordsStruct) (str : Bytes) : WordsStruct := (scan str).foldl addChar w

def getWords (w : WordsStruct) : List Bytes := if w.word ≠ [] then w.words ++ [w.word] else w.words

end WordsStruct

structure ShellWord where
  word : Bytes
  envs : List Bytes
  tables : Tables

namespace ShellWord

/-- The loop of `getEnv`. A variable without `=` counts as empty. -/
def lookup (name : Bytes) : List Bytes → Bytes
  | [] => []
  | env :: envs =>
    if 61 ∈ env then
      if name = env.takeWhile (· ≠ 61) then (env.dropWhile (· ≠ 61)).tail else lookup name envs
    else if name = env then [] else lookup name envs

def getEnv (sw : ShellWord) (name : Bytes) : Bytes := lookup name sw.envs

/-- The name that the scanner stands at, and what is left. A digit is a name of its own. -/
def processName (sw : ShellWord) : Bytes → List Char → Bytes × List Char
  | name, [] => (name, [])
  | name, ch :: rest =>
    if name = [] ∧ sw.tables.isDigit ch then (encodeRune ch, rest)
    else if ¬sw.tables.isLetter ch ∧ ¬sw.tables.isDigit ch ∧ ch ≠ '_' then (name, ch :: rest)
    else processName sw (name ++ encodeRune ch) rest

def processSingleQuote : Bytes → List Char → Bytes × List Char
  | result, [] => (result, [])
  | result, ch :: rest =>
    if ch = '\'' then (result, rest) else processSingleQuote (result ++ encodeRune ch) rest

/-- The value of a `${name:modifier word}`. -/
def substitute (sw : ShellWord) (name : Bytes) (modifier : Option Char) (word : Bytes) :
    Except ShellError Bytes :=
  if modifier = some '+' then .ok (if sw.getEnv name ≠ [] then word else sw.getEnv name)
  else if modifier = some '-' then .ok (if sw.getEnv name = [] then word else sw.getEnv name)
  else .error (.unsupportedModifier modifier sw.word)

mutual

def processStopOn (sw : ShellWord) (stopChar : Option Char) :
    Nat → Bytes → WordsStruct → List Char → Except ShellError ((Bytes × List Bytes) × List Char)
  | 0, _, _, _ => .error .outOfSteps
  | _ + 1, result, words, [] => .ok ((result, words.getWords), [])
  | n + 1, result, words, ch :: rest =>
    if stopChar = some ch then .ok ((result, words.getWords), rest)
    else if ch = '\'' then
      let (tmp, rest) := processSingleQuote [] rest
      processStopOn sw stopChar n (result ++ tmp) (words.addRawString tmp) rest
    else if ch = '"' then do
      let (tmp, rest) ← processDoubleQuote sw n [] rest
      processStopOn sw stopChar n (result ++ tmp) (words.addRawString tmp) rest
    else if ch = '$' then do
      let (tmp, rest) ← processDollar sw n rest
      processStopOn sw stopChar n (result ++ tmp) (words.addString tmp) rest
    else if ch = '\\' then
      -- '\' escapes, except end of line
      match rest with
      | [] => .ok ((result, words.getWords), [])
      | ch :: rest =>
        processStopOn sw stopChar n (result ++ encodeRune ch) (words.addRawChar ch) rest
    else processStopOn sw stopChar n (result ++ encodeRune ch) (words.addChar ch) rest

/-- The loop of `processDoubleQuote`, behind the `"`. -/
def processDoubleQuote (sw : ShellWord) :
    Nat → Bytes → List Char → Except ShellError (Bytes × List Char)
  | 0, _, _ => .error .outOfSteps
  | _ + 1, result, [] => .ok (result, [])
  | n + 1, result, ch :: rest =>
    if ch = '"' then .ok (result, rest)
    else if ch = '$' then do
      let (tmp, rest) ← processDollar sw n rest
      processDoubleQuote sw n (result ++ tmp) rest
    else if ch = '\\' then
      match rest with
      -- Ignore \ at end of word
      | [] => .ok (result, [])
      | next :: rest =>
        -- \" and \$ can be escaped, all other \'s are left as-is
        if next = '"' ∨ next = '$' then processDoubleQuote sw n (result ++ encodeRune next) rest
        else processDoubleQuote sw n (result ++ encodeRune ch) (next :: rest)
    else processDoubleQuote sw n (result ++ encodeRune ch) rest

def processDollar (sw : ShellWord) : Nat → List Char → Except ShellError (Bytes × List Char)
  | 0, _ => .error .outOfSteps
  | n + 1, scanner =>
    match scanner with
    | '{' :: rest =>
      match sw.processName [] rest with
      | (name, '}' :: rest) => .ok (sw.getEnv name, rest)
      | (name, ':' :: rest) => do
        let ((word, _), rest') ← processStopOn sw (some '}') n [] {} rest.tail
        let value ← sw.substitute name rest.head? word
        .ok (value, rest')
      | _ => .error (.missingColon sw.word)
    | scanner =>
      match sw.processName [] scanner with
      | ([], rest) => .ok ([36], rest)
      | (name, rest) => .ok (sw.getEnv name, rest)

end

/-- `process`: the expanded word, and the words that it is split into. -/
def process (sw : ShellWord) : Except ShellError (Bytes × List Bytes) :=
  (sw.processStopOn none ((scan sw.word).length + 1) [] {} (scan sw.word)).map Prod.fst

end ShellWord

def processWord (u : Tables) (word : Bytes) (env : List Bytes) : Except ShellError Bytes :=
  (ShellWord.process ⟨word, env, u⟩).map Prod.fst

def processWords (u : Tables) (word : Bytes) (env : List Bytes) : Except ShellError (List Bytes) :=
  (ShellWord.process ⟨word, env, u⟩).map Prod.snd

/-! ## A run takes few steps -/

namespace ShellWord

/-- A run gives a text of `T` and what is left of its input. -/
def Runs {α : Type} (T : α → Prop) (input : List Char) : Except ShellError (α × List Char) → Prop
  | .ok (a, rest) => T a ∧ rest <:+ input
  | .error err => err ≠ .outOfSteps

/-- A kind of texts that the expander stays in. -/
structure Closed (T : Bytes → Prop) (sw : ShellWord) (input : List Char) : Prop where
  nil : T []
  append : ∀ {a b}, T a → T b → T (a ++ b)
  dollar : T [36]
  env : ∀ name, T (sw.getEnv name)
  rune : ∀ ch ∈ input, T (encodeRune ch)

section
variable {sw : ShellWord} {stopChar : Option Char} {result name : Bytes} {words : WordsStruct}
  {r : Except ShellError (α × List Char)}

theorem Closed.suffix (h : Closed T sw input) (hrest : rest <:+ input) : Closed T sw rest :=
  ⟨h.nil, h.append, h.dollar, h.env, fun ch hch => h.rune ch (hrest.subset hch)⟩

theorem Closed.tail (h : Closed T sw (ch :: rest)) : Closed T sw rest :=
  h.suffix (suffix_cons ch rest)

theorem Closed.append_rune (h : Closed T sw input) (hch : ch ∈ input) (hresult : T result) :
    T (result ++ encodeRune ch) :=
  h.append hresult (h.rune ch hch)

theorem Runs.mono (h : Runs P rest r) (hrest : rest <:+ input) : Runs P input r := by
  cases r with
  | ok a => exact ⟨h.1, h.2.trans hrest⟩
  | error err => exact h

theorem Runs.bind (h : Runs P input r)
    (hf : ∀ a rest, P a → rest <:+ input → Runs Q rest (f (a, rest))) : Runs Q input (r >>= f) := by
  cases r with
  | ok a => exact (hf a.1 a.2 h.1 h.2).mono h.2
  | error err => exact h

theorem processName_suffix : (sw.processName name input).2 <:+ input := by
  fun_induction processName sw name input with
  | case1 | case3 => exact suffix_rfl
  | case2 name ch rest => exact suffix_cons ch rest
  | case4 name ch rest _ _ ih => exact ih.trans (suffix_cons ch rest)

theorem processSingleQuote_runs (h : Closed T sw input) (hresult : T result) :
    T (processSingleQuote result input).1 ∧ (processSingleQuote result input).2 <:+ input := by
  fun_induction processSingleQuote result input with
  | case1 => exact ⟨hresult, suffix_rfl⟩
  | case2 result rest => exact ⟨hresult, suffix_cons _ rest⟩
  | case3 result ch rest _ ih =>
    obtain ⟨htext, hsuffix⟩ := ih h.tail (h.append_rune mem_cons_self hresult)
    exact ⟨htext, hsuffix.trans (suffix_cons ch rest)⟩

theorem substitute_runs {word : Bytes} (h : Closed T sw input) (hword : T word) :
    Runs T input ((sw.substitute name modifier word).map (·, input)) := by
  rw [substitute]
  split
  · refine ⟨?_, suffix_rfl⟩
    split
    · exact hword
    · exact h.env name
  · split
    · refine ⟨?_, suffix_rfl⟩
      split
      · exact hword
      · exact h.env name
    · exact nofun

/-- `n` steps are enough for an input shorter than `n`. -/
structure RunsWithin (T : Bytes → Prop) (sw : ShellWord) (n : Nat) : Prop where
  stopOn : ∀ {stopChar result words input}, input.length < n → Closed T sw input → T result →
    Runs (T ·.1) input (processStopOn sw stopChar n result words input)
  doubleQuote : ∀ {result input}, input.length < n → Closed T sw input → T result →
    Runs T input (processDoubleQuote sw n result input)
  dollar : ∀ {input}, input.length < n → Closed T sw input → Runs T input (processDollar sw n input)

section
variable (ih : RunsWithin T sw n) (hlen : input.length < n + 1) (h : Closed T sw input)
include ih hlen h

theorem RunsWithin.stopOn_succ (hresult : T result) :
    Runs (T ·.1) input (processStopOn sw stopChar (n + 1) result words input) := by
  cases input with
  | nil =>
    exact ⟨hresult, suffix_rfl⟩
  | cons ch rest =>
    have hlen' : rest.length < n := Nat.lt_of_succ_lt_succ hlen
    have hsuffix : rest <:+ ch :: rest := suffix_cons ch rest
    rw [processStopOn.eq_def]
    dsimp only
    split
    · exact ⟨hresult, hsuffix⟩
    split
    · obtain ⟨htmp, hrest⟩ := processSingleQuote_runs h.tail h.nil
      exact (ih.stopOn (Nat.lt_of_le_of_lt hrest.length_le hlen') (h.tail.suffix hrest)
        (h.append hresult htmp)).mono
        (hrest.trans hsuffix)
    split
    · refine ((ih.doubleQuote hlen' h.tail h.nil).bind fun tmp rest' htmp hrest => ?_).mono hsuffix
      exact ih.stopOn (Nat.lt_of_le_of_lt hrest.length_le hlen') (h.tail.suffix hrest)
        (h.append hresult htmp)
    split
    · refine ((ih.dollar hlen' h.tail).bind fun tmp rest' htmp hrest => ?_).mono hsuffix
      exact ih.stopOn (Nat.lt_of_le_of_lt hrest.length_le hlen') (h.tail.suffix hrest)
        (h.append hresult htmp)
    split
    · cases rest with
      | nil => exact ⟨hresult, hsuffix⟩
      | cons ch' rest =>
        refine (ih.stopOn (Nat.lt_of_succ_lt hlen') h.tail.tail ?_).mono
          ((suffix_cons ch' rest).trans hsuffix)
        exact h.tail.append_rune mem_cons_self hresult
    · exact (ih.stopOn hlen' h.tail (h.append_rune mem_cons_self hresult)).mono hsuffix

theorem RunsWithin.doubleQuote_succ (hresult : T result) :
    Runs T input (processDoubleQuote sw (n + 1) result input) := by
  cases input with
  | nil =>
    exact ⟨hresult, suffix_rfl⟩
  | cons ch rest =>
    have hlen' : rest.length < n := Nat.lt_of_succ_lt_succ hlen
    have hsuffix : rest <:+ ch :: rest := suffix_cons ch rest
    rw [processDoubleQuote.eq_def]
    dsimp only
    split
    · exact ⟨hresult, hsuffix⟩
    split
    · refine ((ih.dollar hlen' h.tail).bind fun tmp rest' htmp hrest => ?_).mono hsuffix
      exact ih.doubleQuote (Nat.lt_of_le_of_lt hrest.length_le hlen') (h.tail.suffix hrest)
        (h.append hresult htmp)
    split
    · cases rest with
      | nil => exact ⟨hresult, hsuffix⟩
      | cons ch' rest =>
        dsimp only
        split
        · refine (ih.doubleQuote (Nat.lt_of_succ_lt hlen') h.tail.tail ?_).mono
            ((suffix_cons ch' rest).trans hsuffix)
          exact h.tail.append_rune mem_cons_self hresult
        · exact (ih.doubleQuote hlen' h.tail (h.append_rune mem_cons_self hresult)).mono hsuffix
    · exact (ih.doubleQuote hlen' h.tail (h.append_rune mem_cons_self hresult)).mono hsuffix

theorem RunsWithin.dollar_succ : Runs T input (processDollar sw (n + 1) input) := by
  rw [processDollar.eq_def]
  dsimp only
  split
  · next rest =>
    have hname : (sw.processName [] rest).2 <:+ '{' :: rest :=
      processName_suffix.trans (suffix_cons _ rest)
    split
    · next name rest' heq =>
      rw [heq] at hname
      exact ⟨h.env name, (suffix_cons _ rest').trans hname⟩
    · next name rest' heq =>
      rw [heq] at hname
      have htail : rest'.tail <:+ '{' :: rest :=
        (tail_suffix rest').trans ((suffix_cons ':' rest').trans hname)
      have hlt : rest'.tail.length < n := by
        have hle := hname.length_le
        simp only [length_cons] at hle hlen
        rw [length_tail]
        omega
      refine ((ih.stopOn hlt (h.suffix htail) h.nil).bind fun tmp rest'' htmp hrest =>
        ?_).mono htail
      exact substitute_runs (h.suffix (hrest.trans htail)) htmp
    · exact nofun
  · have hname : (sw.processName [] input).2 <:+ input := processName_suffix
    split
    · next rest heq =>
      rw [heq] at hname
      exact ⟨h.dollar, hname⟩
    · next name rest _ heq =>
      rw [heq] at hname
      exact ⟨h.env name, hname⟩

end

theorem runsWithin (T : Bytes → Prop) (sw : ShellWord) (n : Nat) : RunsWithin T sw n := by
  induction n with
  | zero => exact ⟨nofun, nofun, nofun⟩
  | succ n ih => exact ⟨ih.stopOn_succ, ih.doubleQuote_succ, ih.dollar_succ⟩

theorem closed_true : Closed (fun _ => True) sw input :=
  ⟨trivial, fun _ _ => trivial, trivial, fun _ => trivial, fun _ _ => trivial⟩

theorem process_ne_outOfSteps (sw : ShellWord) : sw.process ≠ .error .outOfSteps := by
  have hruns : Runs (fun _ => True) (scan sw.word)
      (sw.processStopOn none ((scan sw.word).length + 1) [] {} (scan sw.word)) :=
    (runsWithin (fun _ => True) sw _).stopOn (Nat.lt_succ_self _) closed_true trivial
  rw [process]
  cases h : sw.processStopOn none ((scan sw.word).length + 1) [] {} (scan sw.word) with
  | ok r => nofun
  | error err =>
    rw [h] at hruns
    intro herr
    cases herr
    exact hruns rfl

end

end ShellWord

/-! ## Quoted text -/

open ShellWord

section
variable {sw : ShellWord} {words : WordsStruct} {c : Char}

theorem scan_encode_cons (h : c ≠ bom) : scan (encode (c :: cs)) = c :: cs := by
  rw [scan, runes_encode]
  exact if_neg h

theorem scan_encode (h : bom ∉ cs) : scan (encode cs) = cs := by
  cases cs with
  | nil => rfl
  | cons c cs => exact scan_encode_cons (ne_of_not_mem_cons h).symm

theorem getWords_addRawString (h : s ≠ []) : (({} : WordsStruct).addRawString s).getWords = [s] :=
  if_pos h

theorem processStopOn_backslashes (h : 2 * cs.length < n) :
    sw.processStopOn none n result words (cs.flatMap fun c => ['\\', c]) =
      .ok ((result ++ encode cs, (cs.foldl .addRawChar words).getWords), []) := by
  induction cs generalizing n result words with
  | nil =>
    obtain ⟨n, rfl⟩ := Nat.exists_eq_add_one_of_ne_zero (Nat.ne_of_gt h)
    simp [processStopOn]
  | cons c cs ih =>
    obtain ⟨n, rfl⟩ := Nat.exists_eq_add_one_of_ne_zero (Nat.ne_of_gt (Nat.zero_lt_of_lt h))
    rw [length_cons] at h
    rw [flatMap_cons, encode_cons, ← append_assoc, foldl_cons, ← ih (n := n) (by omega)]
    rfl

theorem foldl_addRawChar : cs.foldl .addRawChar words = if cs = [] then words
    else words.addRawString (encode cs) := by
  induction cs generalizing words with
  | nil => rfl
  | cons c cs ih =>
    rw [foldl_cons, ih, if_neg (cons_ne_nil c cs)]
    split
    · next hcs => simp [hcs, WordsStruct.addRawChar]
    · simp [WordsStruct.addRawChar, WordsStruct.addRawString]

theorem processSingleQuote_append (h : '\'' ∉ cs) (rest : List Char) :
    processSingleQuote result (cs ++ '\'' :: rest) = (result ++ encode cs, rest) := by
  induction cs generalizing result with
  | nil => simp [processSingleQuote]
  | cons c cs ih =>
    rw [cons_append, processSingleQuote, if_neg (ne_of_not_mem_cons h).symm,
      ih (not_mem_of_not_mem_cons h), encode_cons, append_assoc]

theorem processDoubleQuote_append (hquote : '"' ∉ cs) (hdollar : '$' ∉ cs) (hbackslash : '\\' ∉ cs)
    (rest : List Char) (h : cs.length < n) : sw.processDoubleQuote n result (cs ++ '"' :: rest) =
      .ok (result ++ encode cs, rest) := by
  induction cs generalizing n result with
  | nil =>
    obtain ⟨n, rfl⟩ := Nat.exists_eq_add_one_of_ne_zero (Nat.ne_of_gt h)
    simp [processDoubleQuote]
  | cons c cs ih =>
    obtain ⟨n, rfl⟩ := Nat.exists_eq_add_one_of_ne_zero (Nat.ne_of_gt (Nat.zero_lt_of_lt h))
    rw [cons_append, processDoubleQuote.eq_def]
    dsimp only
    rw [if_neg (ne_of_not_mem_cons hquote).symm, if_neg (ne_of_not_mem_cons hdollar).symm,
      if_neg (ne_of_not_mem_cons hbackslash).symm, ih (not_mem_of_not_mem_cons hquote)
      (not_mem_of_not_mem_cons hdollar) (not_mem_of_not_mem_cons hbackslash)
        (Nat.lt_of_succ_lt_succ h),
      encode_cons, append_assoc]

theorem processWord_of_run (hc : c ≠ bom)
    (h : processStopOn ⟨encode (c :: cs), env, u⟩ none ((c :: cs).length + 1) [] {} (c :: cs) =
      .ok ((result, ws), [])) :
    processWord u (encode (c :: cs)) env = .ok result ∧
      processWords u (encode (c :: cs)) env = .ok ws := by
  rw [processWord, processWords, process, scan_encode_cons hc, h]
  exact ⟨rfl, rfl⟩

end

/-- Quoting in each of the three ways is undone. -/
theorem processWord_quoted (u : Tables) (s : List Char) (hs : s ≠ []) (env : List Bytes) :
    (processWord u (encode (s.flatMap fun c => ['\\', c])) env = .ok (encode s) ∧
      processWords u (encode (s.flatMap fun c => ['\\', c])) env = .ok [encode s]) ∧
    ('\'' ∉ s → processWord u (encode ('\'' :: (s ++ ['\'']))) env = .ok (encode s) ∧
      processWords u (encode ('\'' :: (s ++ ['\'']))) env = .ok [encode s]) ∧
    ('"' ∉ s → '$' ∉ s → '\\' ∉ s → processWord u (encode ('"' :: (s ++ ['"']))) env =
      .ok (encode s) ∧
      processWords u (encode ('"' :: (s ++ ['"']))) env = .ok [encode s]) := by
  have hne : encode s ≠ [] := by simpa using hs
  have hfinish (sw : ShellWord) n :
      sw.processStopOn none (n + 1) (encode s) (({} : WordsStruct).addRawString (encode s)) [] =
        .ok ((encode s, [encode s]), []) := by
    rw [ShellWord.processStopOn, getWords_addRawString hne]
  refine ⟨?_, fun hquote => ?_, fun hquote hdollar hbackslash => ?_⟩
  · obtain ⟨c, cs, hcs⟩ := List.exists_cons_of_ne_nil hs
    have hlen : 2 * s.length < (s.flatMap fun c => ['\\', c]).length + 1 := by
      simp [Nat.mul_comm]
    have hrun : ShellWord.processStopOn ⟨encode (s.flatMap fun c => ['\\', c]), env, u⟩ none _
        [] {} _ = _ :=
      processStopOn_backslashes hlen
    rw [foldl_addRawChar, if_neg hs, getWords_addRawString hne] at hrun
    rw [hcs] at hrun ⊢
    exact processWord_of_run (by decide) hrun
  · refine processWord_of_run (by decide) ?_
    rw [ShellWord.processStopOn.eq_def]
    dsimp only
    rw [if_neg nofun, if_pos rfl, processSingleQuote_append hquote, List.nil_append]
    exact hfinish _ _
  · refine processWord_of_run (by decide) ?_
    have hlen : s.length < ('"' :: (s ++ ['"'])).length := by
      rw [List.length_cons, List.length_append]
      omega
    rw [ShellWord.processStopOn.eq_def]
    dsimp only
    rw [if_neg nofun, if_neg (by decide), if_pos rfl,
      processDoubleQuote_append hquote hdollar hbackslash [] hlen,
      List.nil_append]
    exact hfinish ⟨encode ('"' :: (s ++ ['"'])), env, u⟩ (s ++ ['"']).length

theorem processWord_quoted_space : processWord asciiTables (encode "\"a 'b\"".toList) [] =
    .ok (encode "a 'b".toList) :=
  ((processWord_quoted _ "a 'b".toList (by decide) []).2.2 (by decide) (by decide) (by decide)).1

end Docker.Dockerfile
