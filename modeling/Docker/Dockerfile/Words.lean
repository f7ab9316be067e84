import Docker.Lib.Utf8

/-!
# `parseWords`

The words of an instruction in `builder/dockerfile/parser`. What counts as quoted and as escaped is
said by `marks`, without the phases of the loop.
-/

namespace Docker.Dockerfile

open Utf8 List

inductive EscapeToken where
  | backslash
  | backquote
  deriving DecidableEq

def EscapeToken.char : EscapeToken → Char
  | backslash => '\\'
  | backquote => '`'

inductive Phase where
  /-- looking for start of a word -/
  | inSpaces
  | inWord
  | inQuote
  deriving DecidableEq

structure WordState where
  words : List Bytes := []
  phase : Phase := .inSpaces
  word : Bytes := []
  quote : Char := '\x00'
  blankOK : Bool := false
  deriving DecidableEq

namespace WordState

def add (s : WordState) (ch : Char) : WordState := { s with word := s.word ++ encodeRune ch }

def addWord (s : WordState) : List Bytes :=
  if s.blankOK ∨ s.word ≠ [] then s.words ++ [s.word] else s.words

def finish (s : WordState) : List Bytes := if s.phase = .inSpaces then s.words else s.addWord

def endWord (s : WordState) : WordState :=
  { s with phase := .inSpaces, words := s.addWord, word := [], blankOK := false }

def start (s : WordState) (ch : Char) : WordState :=
  if ch = '\'' ∨ ch = '"' then { s with phase := .inQuote, quote := ch, blankOK := true }
    else { s with phase := .inWord }

def inside (s : WordState) (ch : Char) : WordState :=
  if ch = s.quote then { s with phase := .inWord } else s

end WordState

/-- What a turn of the loop does with a rune. -/
inductive Turn where
  | go (s : WordState)
  /-- An escape token: the next rune is added as it is. If there is none, the loop ends in
  `last`. -/
  | escape (s last : WordState)

def WordState.turn (e : EscapeToken) (s : WordState) (ch : Char) : Turn :=
  if s.phase = .inSpaces ∧ isSpace ch then .go s
  else if s.phase ≠ .inQuote then
    if isSpace ch then .go s.endWord
    -- just skip an escape token at end of line
    else if ch = e.char then .escape ((s.start ch).add ch) (s.start ch)
    else .go ((s.start ch).add ch)
  -- The escape token is special except for ' quotes
  else if ch = e.char ∧ s.quote ≠ '\'' then .escape ((s.inside ch).add ch)
    { s.inside ch with phase := .inWord }
  else .go ((s.inside ch).add ch)

/-- The loop of `parseWords`, on the runes that are left. -/
def wordsLoop (e : EscapeToken) : WordState → List Char → List Bytes
  | s, [] => s.finish
  | s, ch :: rest =>
    match s.turn e ch, rest with
    | .go s, rest => wordsLoop e s rest
    | .escape _ last, [] => last.finish
    | .escape s _, ch' :: rest => wordsLoop e (s.add ch') rest

def parseWords (rest : Bytes) (e : EscapeToken) : List Bytes := wordsLoop e {} (runes rest)

/-! ## Quotes and escapes -/

inductive Quoting where
  | outside
  | single
  | double
  deriving DecidableEq

namespace Quoting

def after (q : Quoting) (ch : Char) : Quoting :=
  match q with
  | outside => if ch = '\'' then single else if ch = '"' then double else outside
  | single => if ch = '\'' then outside else single
  | double => if ch = '"' then outside else double

theorem after_of_isSpace (h : isSpace ch = true) : outside.after ch = outside := by
  have hsingle : ch ≠ '\'' := by
    rintro rfl
    cases h
  have hdouble : ch ≠ '"' := by
    rintro rfl
    cases h
  rw [after, if_neg hsingle, if_neg hdouble]

end Quoting

inductive Mark where
  /-- Outside quotes, and not escaped. -/
  | bare
  /-- Inside quotes, or the quote at their end. -/
  | quoted
  | escapeToken
  | escaped
  /-- An escape token with nothing behind it. -/
  | lastEscape
  deriving DecidableEq

/-- Each rune of a text with what it is. -/
def marks (e : EscapeToken) : Quoting → List Char → List (Char × Mark)
  | _, [] => []
  | q, ch :: rest =>
    if ch = e.char ∧ q ≠ .single then
      match rest with
      | [] => [(ch, .lastEscape)]
      | ch' :: rest => (ch, .escapeToken) :: (ch', .escaped) :: marks e q rest
    else (ch, if q = .outside then .bare else .quoted) :: marks e (q.after ch) rest

theorem marks_of_not (h : ¬(ch = e.char ∧ q ≠ .single)) :
    marks e q (ch :: rest) = (ch, if q = .outside then .bare else .quoted) ::
      marks e (q.after ch) rest := by
  rw [marks.eq_def]
  exact if_neg h

def separates (p : Char × Mark) : Bool := p.2 = .bare ∧ isSpace p.1

def text (ps : List (Char × Mark)) : Bytes := encode (ps.map Prod.fst)

/-- The runes between the separating spaces. -/
def markedWords (ps : List (Char × Mark)) : List (List (Char × Mark)) :=
  ((ps.filter (·.2 ≠ .lastEscape)).splitOnP separates).filter (· ≠ [])

open WordState

section
variable {e : EscapeToken} {s : WordState} {w ps : List (Char × Mark)} {s' : WordState}

theorem EscapeToken.char_cases (e : EscapeToken) :
    isSpace e.char = false ∧ e.char ≠ '\'' ∧ e.char ≠ '"' := by
  cases e <;> decide

theorem flatten_splitOnP (p : α → Bool) (l : List α) :
    (l.splitOnP p).flatten = l.filter (!p ·) := by
  induction l with
  | nil => simp
  | cons a l ih =>
    rw [List.splitOnP_cons_eq_if_modifyHead]
    split
    · next ha => simp [ha, ih]
    · next ha =>
      -- `a` goes to the front of the first piece
      obtain ⟨piece, pieces, hl⟩ := List.exists_cons_of_ne_nil (List.splitOnP_ne_nil p l)
      rw [hl] at ih ⊢
      rw [List.filter_cons_of_pos (by simpa using ha), ← ih]
      rfl

def kept (ps : List (Char × Mark)) : List (Char × Mark) :=
  ps.filter fun p => !separates p && p.2 ≠ .lastEscape

theorem flatten_markedWords : (markedWords ps).flatten = kept ps := by
  have hfilter : ∀ l : List (List (Char × Mark)), (l.filter (· ≠ [])).flatten = l.flatten := by
    intro l
    induction l with
    | nil => rfl
    | cons w l ih => cases w <;> simpa using ih
  rw [markedWords, hfilter, flatten_splitOnP, List.filter_filter, kept]

theorem mem_markedWords (h : w ∈ markedWords ps) : w ≠ [] ∧ ∀ p ∈ w, separates p = false := by
  refine ⟨by simpa using (List.mem_filter.1 h).2, fun p hp => ?_⟩
  have hkept : p ∈ kept ps := by
    rw [← flatten_markedWords]
    exact List.mem_flatten.2 ⟨w, h, hp⟩
  have hnot := (List.mem_filter.1 hkept).2
  rw [Bool.and_eq_true, Bool.not_eq_true'] at hnot
  exact hnot.1

theorem text_flatten (ws : List (List (Char × Mark))) :
    text ws.flatten = (ws.map text).flatten := by
  induction ws with
  | nil => rfl
  | cons w ws ih => simpa [text] using ih

theorem map_fst_marks : (marks e q rest).map Prod.fst = rest := by
  fun_induction marks e q rest with
  | case1 => rfl
  | case2 => rfl
  | case3 _ _ _ _ _ ih => simp [ih]
  | case4 _ _ _ _ ih => simp [ih]

theorem markedWords_append_cons (hp : separates p = true) :
    markedWords (w ++ p :: ps) = markedWords w ++ markedWords ps := by
  have hbare : p.2 ≠ .lastEscape := by
    intro h
    simp [separates, h] at hp
  rw [markedWords, List.filter_append, List.filter_cons_of_pos (by simpa using hbare),
    List.splitOnP_append_cons _ _ hp,
    List.filter_append]
  rfl

/-- No rune is left out, and no word ends. -/
def Joined (w : List (Char × Mark)) : Prop := ∀ p ∈ w, separates p = false ∧ p.2 ≠ .lastEscape

theorem Joined.append (hw : Joined w) (hps : Joined ps) : Joined (w ++ ps) := fun p hp =>
  (List.mem_append.1 hp).elim (hw p) (hps p)

theorem markedWords_append_lastEscape : markedWords (w ++ [(ch, .lastEscape)]) = markedWords w := by
  simp [markedWords]

theorem Joined.markedWords_eq (h : Joined w) : markedWords w = if w = [] then [] else [w] := by
  have hfilter : w.filter (·.2 ≠ .lastEscape) = w := List.filter_eq_self.2 fun p hp => by
    simpa using (h p hp).2
  rw [markedWords, hfilter, List.splitOnP_eq_singleton fun p hp => (h p hp).1]
  split <;> simp_all

section
variable {ch' : Char}

theorem wordsLoop_go (h : s.turn e ch = .go s') :
    wordsLoop e s (ch :: rest) = wordsLoop e s' rest := by
  rw [wordsLoop.eq_def]
  simp only [h]

theorem wordsLoop_last (h : s.turn e ch = .escape s' last) : wordsLoop e s [ch] = last.finish := by
  rw [wordsLoop.eq_def]
  simp only [h]

theorem wordsLoop_escape (h : s.turn e ch = .escape s' last) :
    wordsLoop e s (ch :: ch' :: rest) = wordsLoop e (s'.add ch') rest := by
  rw [wordsLoop.eq_def]
  simp only [h]

end

def WordState.quoting (s : WordState) : Quoting :=
  if s.phase = .inQuote then if s.quote = '\'' then .single else .double else .outside

def WordState.QuoteOK (s : WordState) : Prop := s.phase = .inQuote → s.quote = '\'' ∨ s.quote = '"'

structure Reads (s : WordState) (w : List (Char × Mark)) : Prop where
  joined : Joined w
  word : s.word = text w
  inSpaces : s.phase = .inSpaces → w = []
  quote : s.QuoteOK
  blankOK : s.blankOK = true → w ≠ []

namespace WordState

theorem quoting_of_ne (h : s.phase ≠ .inQuote) : s.quoting = .outside := if_neg h

theorem phase_of_quoting (h : s.quoting = .outside) : s.phase ≠ .inQuote := by
  intro hphase
  rw [quoting, if_pos hphase] at h
  split at h <;> cases h

theorem quoting_start : (s.start ch).quoting = Quoting.outside.after ch := by
  rw [start, Quoting.after]
  split
  · next hch =>
    rcases hch with rfl | rfl <;> rfl
  · next hch =>
    rw [not_or] at hch
    rw [if_neg hch.1, if_neg hch.2]
    rfl

theorem quoteOK_start : (s.start ch).QuoteOK := by
  rw [start]
  split
  · next hch => exact fun _ => hch
  · exact nofun

theorem quoting_inside (h : s.phase = .inQuote) (hs : s.QuoteOK) :
    (s.inside ch).quoting = s.quoting.after ch := by
  have hquoting : s.quoting = if s.quote = '\'' then .single else .double := if_pos h
  rw [hquoting, inside]
  split
  · next hch =>
    rcases hs h with hq | hq <;> rw [hch, hq] <;> rfl
  · next hch =>
    rw [hquoting]
    rcases hs h with hq | hq <;> rw [hq] at hch ⊢
    · exact (if_neg hch).symm
    · exact (if_neg hch).symm

theorem quoteOK_inside (hs : s.QuoteOK) : (s.inside ch).QuoteOK := by
  rw [inside]
  split
  · exact nofun
  · exact hs

theorem phase_start : (s.start ch).phase ≠ .inSpaces := by
  rw [start]
  split <;> nofun

theorem phase_inside (h : s.phase = .inQuote) : (s.inside ch).phase ≠ .inSpaces := by
  rw [inside]
  split
  · nofun
  · rw [h]
    nofun

@[simp] theorem word_start : (s.start ch).word = s.word := by
  rw [start]
  split <;> rfl

@[simp] theorem words_start : (s.start ch).words = s.words := by
  rw [start]
  split <;> rfl

@[simp] theorem word_inside : (s.inside ch).word = s.word := by
  rw [inside]
  split <;> rfl

@[simp] theorem words_inside : (s.inside ch).words = s.words := by
  rw [inside]
  split <;> rfl

@[simp] theorem words_add : (s.add ch).words = s.words := rfl

@[simp] theorem quoting_add : (s.add ch).quoting = s.quoting := rfl

end WordState

namespace Reads

theorem addWord (h : Reads s w) : s.addWord = s.words ++ (markedWords w).map text := by
  rw [WordState.addWord, h.joined.markedWords_eq, h.word]
  by_cases hw : w = []
  · have hblank : ¬s.blankOK = true := fun hblank => h.blankOK hblank hw
    simp [hw, hblank, text]
  · have hword : text w ≠ [] := by simpa [text] using hw
    simp [hw, hword]

theorem finish (h : Reads s w) : s.finish = s.words ++ (markedWords w).map text := by
  rw [WordState.finish]
  split
  · next hphase =>
    rw [h.inSpaces hphase]
    exact (append_nil _).symm
  · exact h.addWord

theorem endWord : Reads s.endWord [] where
  joined := nofun
  word := rfl
  inSpaces _ := rfl
  quote := nofun
  blankOK := nofun

theorem add (h : Reads s w) (hword : s'.word = s.word) (hphase : s'.phase ≠ .inSpaces)
    (hquote : s'.QuoteOK) (hp : separates (ch, m) = false ∧ m ≠ .lastEscape) :
    Reads (s'.add ch) (w ++ [(ch, m)]) where
  joined := h.joined.append fun p hmem => by
    rw [mem_singleton.1 hmem]
    exact hp
  word := by simp [WordState.add, hword, h.word, text]
  inSpaces := fun hs => absurd hs hphase
  quote := hquote
  blankOK _ := by simp

theorem escape (h : Reads s w) (hword : s'.word = s.word) (hphase : s'.phase ≠ .inSpaces)
    (hquote : s'.QuoteOK) : Reads ((s'.add ch).add ch')
    (w ++ [(ch, .escapeToken), (ch', .escaped)]) := by
  have h' : Reads (s'.add ch) (w ++ [(ch, .escapeToken)]) := h.add hword hphase hquote ⟨rfl, nofun⟩
  have h'' : Reads ((s'.add ch).add ch') (w ++ [(ch, .escapeToken)] ++ [(ch', .escaped)]) :=
    h'.add rfl hphase hquote ⟨rfl, nofun⟩
  rwa [append_assoc] at h''

theorem skip (h : Reads s w) (hword : s'.word = s.word) (hphase : s'.phase = .inWord)
    (hblank : s'.blankOK = s.blankOK) : Reads s' w where
  joined := h.joined
  word := by rw [hword, h.word]
  inSpaces := fun hs => absurd (hphase.symm.trans hs) nofun
  quote := fun hq => absurd (hphase.symm.trans hq) nofun
  blankOK := fun hb => h.blankOK (hblank ▸ hb)

theorem turn_space (h : Reads s w) (hq : s.quoting = .outside) (hspace : isSpace ch = true) :
    ∃ s', s.turn e ch = .go s' ∧ Reads s' [] ∧ s'.quoting = .outside ∧
      s'.words = s.words ++ (markedWords w).map text := by
  by_cases hphase : s.phase = .inSpaces
  · obtain rfl : w = [] := h.inSpaces hphase
    refine ⟨s, if_pos ⟨hphase, hspace⟩, h, hq, ?_⟩
    exact (append_nil _).symm
  · refine ⟨s.endWord, ?_, .endWord, rfl, h.addWord⟩
    rw [turn, if_neg fun hs => hphase hs.1, if_pos (phase_of_quoting hq), if_pos hspace]

theorem turn_escape (h : Reads s w) (hq : s.quoting ≠ .single) :
    ∃ s' last, s.turn e e.char = .escape s' last ∧
    Reads last w ∧ last.words = s.words ∧ s'.words = s.words ∧ s'.quoting = s.quoting ∧
    ∀ ch', Reads (s'.add ch') (w ++ [(e.char, .escapeToken), (ch', .escaped)]) := by
  obtain ⟨hspace, hsingle, hdouble⟩ := e.char_cases
  have hnot : ¬(s.phase = .inSpaces ∧ isSpace e.char = true) := by simp [hspace]
  by_cases hphase : s.phase = .inQuote
  · have hdq : s.quote = '"' := by
      rcases h.quote hphase with hs | hd
      · exact absurd (by simp [quoting, hphase, hs]) hq
      · exact hd
    have hinside : s.inside e.char = s := if_neg (hdq ▸ hdouble)
    refine ⟨s.add e.char, { s with phase := .inWord }, ?_, h.skip rfl rfl rfl, rfl, rfl, rfl,
      fun ch' => ?_⟩
    · rw [turn, if_neg hnot, if_neg (not_not.2 hphase), if_pos ⟨rfl, hdq ▸ (by decide)⟩, hinside]
    · exact h.escape rfl (by rw [hphase]; nofun) h.quote
  · have hstart : s.start e.char = { s with phase := .inWord } :=
      if_neg (not_or.2 ⟨hsingle, hdouble⟩)
    refine ⟨{ s with phase := .inWord }.add e.char, { s with phase := .inWord }, ?_,
      h.skip rfl rfl rfl, rfl, rfl, ?_, fun ch' => ?_⟩
    · rw [turn, if_neg hnot, if_pos hphase, if_neg (by simp [hspace]), if_pos rfl, hstart]
    · exact (quoting_of_ne hphase).symm
    · exact h.escape rfl nofun nofun

theorem turn_go (h : Reads s w) (hesc : ¬(ch = e.char ∧ s.quoting ≠ .single))
    (hspace : ¬(s.quoting = .outside ∧ isSpace ch = true)) :
    ∃ s', s.turn e ch = .go s' ∧ Reads s'
      (w ++ [(ch, if s.quoting = .outside then .bare else .quoted)]) ∧
      s'.quoting = s.quoting.after ch ∧ s'.words = s.words := by
  have hjoined : separates (ch, if s.quoting = .outside then .bare else .quoted) = false ∧
      (if s.quoting = .outside then Mark.bare else .quoted) ≠ .lastEscape := by
    split <;> simp_all [separates]
  by_cases hphase : s.phase = .inQuote
  · refine ⟨(s.inside ch).add ch, ?_, h.add word_inside (phase_inside hphase)
      (quoteOK_inside h.quote) hjoined, quoting_inside hphase h.quote, words_inside⟩
    have hnot : ¬(ch = e.char ∧ s.quote ≠ '\'') :=
      fun ⟨hch, hs⟩ => hesc ⟨hch, by simp [quoting, hphase, hs]⟩
    rw [turn, if_neg (by simp [hphase]), if_neg (not_not.2 hphase), if_neg hnot]
  · have hq : s.quoting = .outside := quoting_of_ne hphase
    rw [hq] at hesc hspace
    refine ⟨(s.start ch).add ch, ?_, h.add word_start phase_start quoteOK_start hjoined,
      hq ▸ quoting_start, words_start⟩
    rw [turn, if_neg fun hs => hspace ⟨rfl, hs.2⟩, if_pos hphase, if_neg fun hs => hspace ⟨rfl, hs⟩,
      if_neg fun hch => hesc ⟨hch, nofun⟩]

theorem wordsLoop (h : Reads s w) :
    wordsLoop e s rest = s.words ++ (markedWords (w ++ marks e s.quoting rest)).map text := by
  induction hn : rest.length using Nat.strong_induction_on generalizing s w rest with
  | _ n ih =>
    subst hn
    cases rest with
    | nil => simpa [Dockerfile.wordsLoop, marks] using h.finish
    | cons ch rest =>
      by_cases hesc : ch = e.char ∧ s.quoting ≠ .single
      · obtain ⟨rfl, hq⟩ := hesc
        obtain ⟨s', last, hturn, hlast, hwords, hwords', hquoting, hreads⟩ := h.turn_escape hq
        cases rest with
        | nil =>
          rw [wordsLoop_last hturn, hlast.finish, hwords, marks, if_pos ⟨rfl, hq⟩,
            markedWords_append_lastEscape]
        | cons ch' rest =>
          rw [wordsLoop_escape hturn, ih _ (Nat.lt_succ_of_lt (Nat.lt_succ_self _))
            (hreads ch') rfl, marks, if_pos ⟨rfl, hq⟩]
          simp [hwords', hquoting]
      · rw [marks_of_not hesc]
        by_cases hspace : s.quoting = .outside ∧ isSpace ch = true
        · obtain ⟨s', hturn, hreads, hquoting, hwords⟩ := h.turn_space hspace.1 hspace.2
          have hsep : separates (ch, if s.quoting = .outside then .bare else .quoted) = true := by
            simp [separates, hspace]
          have hafter : s.quoting.after ch = .outside := by
            rw [hspace.1, Quoting.after_of_isSpace hspace.2]
          rw [wordsLoop_go hturn, ih _ (Nat.lt_succ_self _) hreads rfl,
            markedWords_append_cons hsep, hwords, hquoting, hafter]
          simp
        · obtain ⟨s', hturn, hreads, hquoting, hwords⟩ := h.turn_go hesc hspace
          rw [wordsLoop_go hturn, ih _ (Nat.lt_succ_self _) hreads rfl, hwords, hquoting]
          simp

end Reads

end

theorem parseWords_eq (cs : List Char) (e : EscapeToken) :
    parseWords (encode cs) e = (markedWords (marks e .outside cs)).map text := by
  have hstart : Reads {} [] := ⟨nofun, rfl, fun _ => rfl, nofun, nofun⟩
  rw [parseWords, runes_encode, hstart.wordsLoop]
  rfl

/-- `parseWords` loses nothing but the separating spaces and an escape token at the end. -/
theorem parseWords_flatten (cs : List Char) (e : EscapeToken) :
    (marks e .outside cs).map Prod.fst = cs ∧ ∃ ws :
    List (List (Char × Mark)), parseWords (encode cs) e = ws.map text ∧
      ws.flatten = (marks e .outside cs).filter (fun p => !separates p && p.2 ≠ .lastEscape) ∧
      (parseWords (encode cs) e).flatten =
        text ((marks e .outside cs).filter fun p => !separates p && p.2 ≠ .lastEscape) ∧
      ∀ w ∈ ws, text w ≠ [] ∧ ∀ p ∈ w, separates p = false := by
  refine ⟨map_fst_marks, markedWords (marks e .outside cs), parseWords_eq cs e,
    flatten_markedWords, ?_, ?_⟩
  · rw [parseWords_eq, ← text_flatten, flatten_markedWords]
    rfl
  · intro w hw
    obtain ⟨hne, hsep⟩ := mem_markedWords hw
    exact ⟨by simpa [text] using hne, hsep⟩

end Docker.Dockerfile
