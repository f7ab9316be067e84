import Docker.Fileutils.Basic

/-!
# `regexpMatch` and `filepath.Match`

What the two matchers of the standard library are documented to do, on patterns and regular
expressions without alternatives. `regexpMatch` leaves the characters alone that mean something in a
regular expression only.
-/

namespace Docker.Fileutils

open Filepath List

inductive Dialect where
  | glob
  | regexp
  deriving DecidableEq

/-! ## Sets of characters -/

/-- A character between brackets. One that would mean something there is marked if it is escaped. -/
abbrev SetChar := Bool × Char

def setItems : List SetChar → Option (Char → Bool)
  | [] => some fun _ => false
  | lo :: (false, '-') :: hi :: rest =>
    if lo.2 ≤ hi.2 ∧ lo ≠ (false, '-') ∧ hi ≠ (false, '-') then
      (setItems rest).map fun f c => lo.2 ≤ c && c ≤ hi.2 || f c
    else none
  | c :: rest => if c ≠ (false, '-') then (setItems rest).map fun f x => x == c.2 || f x else none

/-- The characters of a set, from what is between the brackets. -/
def setChars : List SetChar → Option (Char → Bool)
  | [] => none
  | [(false, '^')] => none
  | (false, '^') :: body => (setItems body).map fun f c => !f c
  | body => setItems body

/-- A regular expression may have a class such as `[:alpha:]` between brackets: `[:` that begins an
item, with a `:]` somewhere behind it, also behind the brackets. -/
def hasClass (rest : Str) : List SetChar → Bool
  | [] => false
  | _ :: (false, '-') :: _ :: body => hasClass rest body
  | (false, '[') :: (false, ':') :: body =>
    body.getLast?.any (·.2 == ':') || decide ([':', ']'] <:+: rest)
  | _ :: body => hasClass rest body

/-- Characters that stand for themselves behind a backslash, in both dialects. -/
def isPunct (c : Char) : Bool := c.toNat < 128 && !c.isAlphanum

def escapedInSet (c : Char) : SetChar := (c ∈ ['-', '^', '[', ':'], c)

/-! ## Steps -/

/-- A pattern without alternatives is a list of steps, each of which takes one character or any
number of them. -/
inductive Step where
  | one (p : Char → Bool)
  | many (p : Char → Bool)

/-- Some characters with `p`, and then `k`. -/
def manyThen (p : Char → Bool) (k : Str → Bool) : Str → Bool
  | [] => k []
  | c :: s => k (c :: s) || (p c && manyThen p k s)

def Step.run : Step → (Str → Bool) → Str → Bool
  | one _, _, [] => false
  | one p, k, c :: s => p c && k s
  | many p, k, s => manyThen p k s

def accepts (steps : List Step) : Str → Bool := steps.foldr Step.run isEmpty

def notSlash (c : Char) : Bool := c != '/'

inductive Token where
  | atom (p : Char → Bool)
  /-- Any number of characters. -/
  | any (p : Char → Bool)
  /-- Any number of times what is before, or at least once. -/
  | again (once : Bool)
  | other

def isSpecial (c : Char) : Bool := c ∈ ['\\', '.', '+', '*', '?', '(', ')', '|', '[', '^', '$']

def isRepeatChar (c : Char) : Bool := c.isDigit || c == ',' || c == '\x7d'

/-- A number without leading zeros, and what is behind it. -/
def afterNumber (t : Str) : Option Str :=
  let ds := t.takeWhile Char.isDigit
  if ds = [] ∨ 1 < ds.length ∧ ds.head? = some '0' then none else some (t.dropWhile Char.isDigit)

/-- What is behind a brace makes it a number of repetitions. Another brace stands for itself. -/
def isRepeat (rest : Str) : Bool :=
  (afterNumber (rest.takeWhile isRepeatChar)).any fun u =>
    u.head? = some '\x7d' || u.head? = some ',' &&
      (u.tail.head? = some '\x7d' || (afterNumber u.tail).any (·.head? = some '\x7d'))

def Dialect.token (rest : Str) : Dialect → Char → Token
  | glob, '*' => .any notSlash
  | glob, '?' => .atom notSlash
  | glob, '\\' => .other
  | glob, c => .atom (· == c)
  | regexp, '*' => .again false
  | regexp, '+' => .again true
  | regexp, '.' => .atom (· != '\n')
  | regexp, c => if isSpecial c ∨ c = '\x7b' ∧ isRepeat rest then .other else .atom (· == c)

/-- Where in a pattern: behind an atom that may be repeated, or between brackets. -/
inductive Place where
  | text (pending : Option (Char → Bool))
  | set (body : List SetChar)

def flush (pending : Option (Char → Bool)) (r : List Step) : List Step :=
  (pending.map Step.one).toList ++ r

/-- The steps from a character on, with those of what is behind it. -/
def Token.steps (pending : Option (Char → Bool)) (k : Option (Char → Bool) → Option (List Step)) :
    Token → Option (List Step)
  | atom p => (k (some p)).map (flush pending)
  | any p => (k none).map fun r => flush pending (.many p :: r)
  | again once =>
    pending.bind fun p => (k none).map fun r =>
      if once then .one p :: .many p :: r else .many p :: r
  | other => none

/-- The steps of a pattern or regular expression, if it has none of the other constructs. -/
def stepsFrom (d : Dialect) : Place → Str → Option (List Step)
  | .text pending, [] => some (flush pending [])
  | .set _, [] => none
  | .set body, '\\' :: c :: rest =>
    if d = .glob ∨ isPunct c then stepsFrom d (.set (body ++ [escapedInSet c])) rest else none
  | .set body, c :: rest =>
    if c = ']' then
      if d = .regexp ∧ hasClass rest body then none
      else (setChars body).bind fun f => stepsFrom d (.text (some f)) rest
    else stepsFrom d (.set (body ++ [(false, c)])) rest
  | .text pending, '[' :: rest => (stepsFrom d (.set []) rest).map (flush pending)
  | .text pending, '\\' :: c :: rest =>
    (if d = .glob ∨ isPunct c then Token.atom (· == c) else .other).steps pending fun pending =>
      stepsFrom d (.text pending) rest
  | .text pending, c :: rest =>
    (d.token rest c).steps pending fun pending => stepsFrom d (.text pending) rest

/-- The text of a set of characters, some of them with a backslash. -/
def setText (escape : SetChar → Bool) (body : List SetChar) : Str :=
  body.flatMap fun e => if escape e then ['\\', e.2] else [e.2]

def inSet (e : SetChar) : SetChar := if e.1 then escapedInSet e.2 else e

/-- Between brackets, punctuation may be escaped, and `*` and `?` must be. -/
def isPlainInSet (e : SetChar) : Bool := if e.1 then isPunct e.2 else e.2 ∉ ['*', '?', '\\', ']']

/-- Patterns of characters that mean nothing in a regular expression, or that `regexpMatch` escapes,
escaped punctuation, `?`, single `*` and sets of characters. -/
inductive Simple : Str → List Step → Prop
  | nil : Simple [] []
  | char {c : Char} {p : Str} {r : List Step} : c = '.' ∨ c = '$' ∨ isSpecial c = false →
    (c = '\x7b' → isRepeat p = false) → Simple p r → Simple (c :: p) (.one (· == c) :: r)
  | escaped {c : Char} {p : Str} {r : List Step} : isPunct c = true → Simple p r →
    Simple ('\\' :: c :: p) (.one (· == c) :: r)
  | any {p : Str} {r : List Step} : Simple p r → Simple ('?' :: p) (.one notSlash :: r)
  | star {p : Str} {r : List Step} : p.head? ≠ some '*' → Simple p r →
    Simple ('*' :: p) (.many notSlash :: r)
  | set {body : List SetChar} {p : Str} {f : Char → Bool} {r : List Step} :
    (∀ e ∈ body, isPlainInSet e = true) → hasClass (regexpText p) (body.map inSet) = false →
    setChars (body.map inSet) = some f → Simple p r →
      Simple ('[' :: (setText Prod.fst body ++ ']' :: p)) (.one f :: r)

section
variable {p q : Str} {r : List Step} {body : List SetChar}

/-- A set is read as it is written. -/
theorem stepsFrom_set (acc : List SetChar) {escape : SetChar → Bool}
    (h : ∀ e ∈ body, if escape e then
      isPunct e.2 = true ∧ inSet e = escapedInSet e.2 else e.2 ≠ '\\' ∧ e.2 ≠ ']' ∧
        inSet e = (false, e.2)) :
    stepsFrom d (.set acc) (setText escape body ++ q) =
      stepsFrom d (.set (acc ++ body.map inSet)) q := by
  induction body generalizing acc with
  | nil => simp [setText]
  | cons e body ih =>
    obtain ⟨he, hbody⟩ := forall_mem_cons.1 h
    rw [setText, flatMap_cons, map_cons, append_assoc, ← setText]
    split at he
    · next hesc =>
      rw [if_pos hesc, cons_append, singleton_append, stepsFrom, if_pos (.inr he.1),
        ih _ hbody, he.2]
      simp
    · next hesc =>
      obtain ⟨hb, hclose, hin⟩ := he
      rw [if_neg hesc, singleton_append, stepsFrom, if_neg hclose, ih _ hbody, hin]
      · simp
      · rintro c rest h -
        exact absurd h hb

theorem stepsFrom_bracket (escape : SetChar → Bool) (h : ∀ e ∈ body, if escape e then
      isPunct e.2 = true ∧ inSet e = escapedInSet e.2 else e.2 ≠ '\\' ∧ e.2 ≠ ']' ∧
        inSet e = (false, e.2))
    (hclass : d = .regexp → hasClass q (body.map inSet) = false)
    (hf : setChars (body.map inSet) = some f) :
    stepsFrom d (.text pending) ('[' :: (setText escape body ++ ']' :: q)) =
      (stepsFrom d (.text (some f)) q).map (flush pending) := by
  have hnone : ¬(d = .regexp ∧ hasClass q (body.map inSet) = true) := by
    rintro ⟨hd, hc⟩
    cases (hclass hd).symm.trans hc
  rw [stepsFrom, stepsFrom_set [] h, nil_append, stepsFrom, if_pos rfl, if_neg hnone, hf,
    Option.bind_some]
  intro _ _ h
  exact absurd h (by decide)

/-- The characters that are escaped between the brackets of a regular expression. -/
def escapedForRegexp (e : SetChar) : Bool := e.1 || e.2 == '.' || e.2 == '$'

theorem regexpText_set (h : ∀ e ∈ body, isPlainInSet e = true) :
    regexpText (setText Prod.fst body ++ q) = setText escapedForRegexp body ++ regexpText q := by
  induction body with
  | nil => rfl
  | cons e body ih =>
    obtain ⟨he, hbody⟩ := forall_mem_cons.1 h
    obtain ⟨esc, c⟩ := e
    have htail := ih hbody
    rw [regexpText] at htail
    cases esc with
    | true => simpa [setText, escapedForRegexp, regexpText, regexpFrom] using htail
    | false =>
      simp only [isPlainInSet, mem_cons, not_mem_nil, or_false, not_or, decide_eq_true_eq,
        Bool.false_eq_true, if_false] at he
      by_cases hdot : c = '.' ∨ c = '$'
      · simpa [setText, escapedForRegexp, regexpText, regexpFrom, he, hdot] using htail
      · simpa [setText, escapedForRegexp, regexpText, regexpFrom, he, hdot] using htail

theorem stepsFrom_char (hc : c ≠ '[') (hb : c ≠ '\\') :
    stepsFrom d (.text pending) (c :: q) = (d.token q c).steps pending fun pending =>
      stepsFrom d (.text pending) q := by
  rw [stepsFrom]
  · exact hc
  · intro _ _ h
    exact absurd h hb

theorem stepsFrom_escaped (hc : isPunct c = true) : stepsFrom d (.text pending) ('\\' :: c :: q) =
    (stepsFrom d (.text (some (· == c))) q).map (flush pending) := by
  rw [stepsFrom, if_pos (.inr hc)]
  rfl

theorem Simple.glob (h : Simple p r) (pending : Option (Char → Bool)) :
    stepsFrom .glob (.text pending) p = some (flush pending r) := by
  induction h generalizing pending with
  | nil => rfl
  | @char c p r hc _ _ ih =>
    obtain ⟨h1, h2, h3, h4⟩ : c ≠ '[' ∧ c ≠ '\\' ∧ c ≠ '*' ∧ c ≠ '?' := by
      refine ⟨?_, ?_, ?_, ?_⟩ <;> (rintro rfl; exact absurd hc (by decide))
    have htoken : Dialect.glob.token p c = .atom (· == c) := by
      rw [Dialect.token] <;> assumption
    rw [stepsFrom_char h1 h2, htoken, Token.steps, ih]
    rfl
  | escaped hc _ ih =>
    rw [stepsFrom_escaped hc, ih]
    rfl
  | any _ ih | star _ _ ih =>
    rw [stepsFrom_char (by decide) (by decide), Dialect.token, Token.steps, ih]
    rfl
  | @set body p f r hbody _ hf _ ih =>
    rw [stepsFrom_bracket _ (fun e he => ?_) (by rintro ⟨⟩) hf, ih]
    · rfl
    · have hplain := hbody e he
      obtain ⟨esc, c⟩ := e
      cases esc <;> simp_all [isPlainInSet, inSet]

/-- What `regexpMatch` puts in the place of other characters does not count repetitions. -/
theorem isRepeat_regexpText (p : Str) : isRepeat (regexpText p) = isRepeat p := by
  have htake : (regexpText p).takeWhile isRepeatChar = p.takeWhile isRepeatChar := by
    induction p with
    | nil => rfl
    | cons c p ih =>
      rw [regexpText] at ih
      rw [regexpText, regexpFrom]
      split
      · next hstar =>
        subst hstar
        split <;> [split; skip] <;> simp [isRepeatChar]
      · split
        · next hany => simp [hany, isRepeatChar]
        · split
          · next hdot => rcases hdot with rfl | rfl <;> simp [isRepeatChar]
          · split
            · next hesc => simp [hesc, isRepeatChar]
            · rw [takeWhile_cons, takeWhile_cons, ih]
  rw [isRepeat, isRepeat, htake]

theorem setChars_slash : setChars ([(false, '^'), (false, '/')].map inSet) = some notSlash := by
  refine congrArg some (funext fun c => ?_)
  simp [notSlash, bne, inSet]

theorem Simple.regexp (h : Simple p r) (pending : Option (Char → Bool)) :
    stepsFrom .regexp (.text pending) (regexpText p) = some (flush pending r) := by
  have hslash : ∀ pending q, stepsFrom .regexp (.text pending) ("[^/]".toList ++ q) =
      (stepsFrom .regexp (.text (some notSlash)) q).map (flush pending) := fun pending q =>
    stepsFrom_bracket Prod.fst (by decide) (fun _ => rfl) setChars_slash
  induction h generalizing pending with
  | nil => rfl
  | @char c p r hc hbrace _ ih =>
    obtain ⟨h1, h2, h3⟩ : c ≠ '*' ∧ c ≠ '?' ∧ c ≠ '\\' := by
      refine ⟨?_, ?_, ?_⟩ <;> (rintro rfl; exact absurd hc (by decide))
    rw [regexpText, regexpFrom, if_neg h1, if_neg h2]
    split
    · next hdot =>
      have hpunct : isPunct c = true := by rcases hdot with rfl | rfl <;> decide
      rw [stepsFrom_escaped hpunct]
      exact congrArg (Option.map (flush pending)) (ih _)
    · next hdot =>
      have hspecial : isSpecial c = false := (or_assoc.2 hc).resolve_left hdot
      have hrepeat : ¬(isSpecial c = true ∨ c = '\x7b' ∧ isRepeat (regexpText p) = true) := by
        rw [hspecial, isRepeat_regexpText]
        rintro (h | ⟨h, hr⟩)
        · cases h
        · cases (hbrace h).symm.trans hr
      have htoken : Dialect.regexp.token (regexpText p) c = .atom (· == c) := by
        rw [Dialect.token, if_neg hrepeat] <;> (rintro rfl; exact absurd hspecial (by decide))
      rw [stepsFrom_char (fun h => absurd hspecial (by rw [h]; decide)) h3]
      exact (congrArg (Token.steps pending _) htoken).trans
        (congrArg (Option.map (flush pending)) (ih _))
  | @escaped c p r hc _ ih =>
    have htext : regexpText ('\\' :: c :: p) = '\\' :: c :: regexpText p := rfl
    rw [htext, stepsFrom_escaped hc, ih]
    rfl
  | @any p r _ ih =>
    have htext : regexpText ('?' :: p) = "[^/]".toList ++ regexpText p := rfl
    rw [htext, hslash, ih]
    rfl
  | @star p r hp _ ih =>
    have htext : regexpText ('*' :: p) = "[^/]".toList ++ '*' :: regexpText p := by
      rw [regexpText, regexpFrom, if_pos rfl, if_neg hp]
      rfl
    rw [htext, hslash, stepsFrom_char (by decide) (by decide), Dialect.token, Token.steps,
      Option.bind_some, ih]
    rfl
  | @set body p f r hbody hclass hf _ ih =>
    have htext : regexpText ('[' :: (setText Prod.fst body ++ ']' :: p)) =
        '[' :: (setText escapedForRegexp body ++ ']' :: regexpText p) :=
      congrArg (List.cons '[') (regexpText_set (q := ']' :: p) hbody)
    rw [htext, stepsFrom_bracket _ (fun e he => ?_) (fun _ => hclass) hf, ih]
    · rfl
    · have hplain := hbody e he
      obtain ⟨esc, c⟩ := e
      cases esc with
      | true => exact ⟨hplain, rfl⟩
      | false =>
        by_cases hdot : c = '.' ∨ c = '$'
        · rcases hdot with rfl | rfl <;> decide
        · simp_all [isPlainInSet, escapedForRegexp, inSet]

end

end Docker.Fileutils
