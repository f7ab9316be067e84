import Docker.Dockerfile.Words

/-!
# `extractBuilderFlags`

The flags in front of the arguments of an instruction. The loop is that of `parseWords` with the
quotes left out, but it goes from byte to byte and takes every byte for a rune.
-/

namespace Docker.Dockerfile

open Utf8 WordState List

def dashes : Bytes := encode ['-', '-']

inductive FlagTurn where
  | go (s : WordState)
  /-- A backslash, and the state with the next byte still to be added. -/
  | escape (s last : WordState)
  /-- The rest of the line, from this byte on, is no flag. -/
  | stop (words : List Bytes)

namespace WordState

def flagTurn (s : WordState) (ch : Char) (next : Option Char) : FlagTurn :=
  if s.phase = .inSpaces ∧ isSpace ch then .go s
  -- Only keep going if the next word starts with --
  else if s.phase = .inSpaces ∧ (ch ≠ '-' ∨ next ≠ some '-') then .stop s.words
  else if s.phase ≠ .inQuote then
    if isSpace ch then
      if s.word = dashes then .stop s.words else .go s.endWord
    else if ch = '\'' ∨ ch = '"' then .go { s with phase := .inQuote, quote := ch, blankOK := true }
    -- just skip \ at end
    else if ch = '\\' then .escape { s with phase := .inWord } { s with phase := .inWord }
    else .go ({ s with phase := .inWord }.add ch)
  else if ch = s.quote then .go { s with phase := .inWord }
  else if ch = '\\' then .escape s { s with phase := .inWord }
  else .go (s.add ch)

def finishFlags (s : WordState) : List Bytes :=
  if s.phase = .inSpaces ∨ s.word = dashes then s.words else s.addWord

end WordState

/-- The loop of `extractBuilderFlags`, on the bytes that are left. -/
def flagsLoop : WordState → Bytes → Bytes × List Bytes
  | s, [] => ([], s.finishFlags)
  | s, b :: rest =>
    match s.flagTurn (byteRune b) (rest.head?.map byteRune), rest with
    | .go s, rest => flagsLoop s rest
    | .escape _ last, [] => ([], last.finishFlags)
    | .escape s _, b' :: rest => flagsLoop (s.add (byteRune b')) rest
    | .stop words, rest => (b :: rest, words)

/-- The rest of the line and the flags. The error is always nil. -/
def extractBuilderFlags (line : Bytes) : Bytes × List Bytes := flagsLoop {} line

variable {s s' : WordState} {b : UInt8} {c : Char} {f g cs : List Char} {t rest : Bytes}
  {words : List Bytes}

theorem flagsLoop_go (h : s.flagTurn (byteRune b) (rest.head?.map byteRune) = .go s') :
    flagsLoop s (b :: rest) = flagsLoop s' rest := by
  rw [flagsLoop.eq_def]
  simp only [h]

theorem flagsLoop_stop (h : s.flagTurn (byteRune b) (rest.head?.map byteRune) = .stop words) :
    flagsLoop s (b :: rest) = (b :: rest, words) := by
  rw [flagsLoop.eq_def]
  simp only [h]

theorem flagsLoop_suffix (s : WordState) (line : Bytes) : (flagsLoop s line).1 <:+ line := by
  induction hn : line.length using Nat.strong_induction_on generalizing s line with
  | _ n ih =>
    subst hn
    cases line with
    | nil => exact nil_suffix
    | cons b rest =>
      have hsuffix : rest <:+ b :: rest := suffix_cons b rest
      cases h : s.flagTurn (byteRune b) (rest.head?.map byteRune) with
      | go s' =>
        rw [flagsLoop_go h]
        exact (ih rest.length (Nat.lt_succ_self _) s' rest rfl).trans hsuffix
      | stop words => rw [flagsLoop_stop h]
      | escape s' last =>
        rw [flagsLoop.eq_def]
        simp only [h]
        cases rest with
        | nil => exact nil_suffix
        | cons b' rest =>
          exact (ih rest.length (Nat.lt_succ_of_lt (Nat.lt_succ_self _)) _ rest rfl).trans
            ((suffix_cons b' rest).trans hsuffix)

/-- A character that a flag holds as it is. -/
structure IsFlagChar (c : Char) : Prop where
  space : isSpace c = false
  single : c ≠ '\''
  double : c ≠ '"'
  backslash : c ≠ '\\'
  nul : c ≠ '\x00'

instance : DecidablePred IsFlagChar := fun c =>
  decidable_of_iff (isSpace c = false ∧ c ≠ '\'' ∧ c ≠ '"' ∧ c ≠ '\\' ∧ c ≠ '\x00')
    ⟨fun ⟨h1, h2, h3, h4, h5⟩ => ⟨h1, h2, h3, h4, h5⟩, fun ⟨h1, h2, h3, h4, h5⟩ =>
      ⟨h1, h2, h3, h4, h5⟩⟩

theorem flagTurn_word (hs : s.phase = .inWord) (hc : IsFlagChar c) (next : Option Char) :
    s.flagTurn c next = .go (s.add c) := by
  obtain ⟨hspace, hsingle, hdouble, hbackslash, -⟩ := hc
  cases s
  cases hs
  simp [flagTurn, hspace, hsingle, hdouble, hbackslash]

theorem flagsLoop_word (hs : s.phase = .inWord) (hcs : ∀ c ∈ cs, IsFlagChar c)
    (hascii : ∀ c ∈ cs, c.toNat < 128) :
    flagsLoop s (encode cs ++ t) = flagsLoop { s with word := s.word ++ encode cs } t := by
  induction cs generalizing s with
  | nil => simp
  | cons c cs ih =>
    have hc := hascii c mem_cons_self
    have hgo : flagsLoop s (UInt8.ofNat c.toNat :: (encode cs ++ t)) = flagsLoop (s.add c)
        (encode cs ++ t) := by
      have hturn := flagTurn_word hs (hcs c mem_cons_self) ((encode cs ++ t).head?.map byteRune)
      rw [← byteRune_ofNat hc] at hturn
      rw [flagsLoop_go hturn, byteRune_ofNat hc]
    rw [encode_cons, append_assoc, encodeRune_of_lt hc, singleton_append, hgo, ih (s := s.add c) hs
      (fun c' h => hcs c' (mem_cons_of_mem c h)) fun c' h => hascii c' (mem_cons_of_mem c h)]
    simp [add, encodeRune_of_lt hc]

/-- Text of a flag that is taken as it is. -/
structure IsFlag (f : List Char) : Prop where
  dashes : ['-', '-'] <+: f
  ne : f ≠ ['-', '-']
  chars : ∀ c ∈ f, IsFlagChar c

instance : DecidablePred IsFlag := fun f =>
  have := f.decidableBAll IsFlagChar
  decidable_of_iff (['-', '-'] <+: f ∧ f ≠ ['-', '-'] ∧ ∀ c ∈ f, IsFlagChar c)
    ⟨fun ⟨h1, h2, h3⟩ => ⟨h1, h2, h3⟩, fun ⟨h1, h2, h3⟩ => ⟨h1, h2, h3⟩⟩

def WordState.Between (s : WordState) : Prop :=
  s.phase = .inSpaces ∧ s.word = [] ∧ s.blankOK = false

theorem flagsLoop_space (hs : s.phase = .inSpaces) : flagsLoop s (32 :: t) = flagsLoop s t :=
  flagsLoop_go (if_pos ⟨hs, rfl⟩)

theorem flagsLoop_dashes (hs : s.Between) :
    flagsLoop s (encode ['-', '-'] ++ t) =
      flagsLoop { s with phase := .inWord, word := dashes } t := by
  obtain ⟨words, phase, word, quote, blankOK⟩ := s
  obtain ⟨rfl, rfl, rfl⟩ : phase = .inSpaces ∧ word = [] ∧ blankOK = false := hs
  exact (flagsLoop_go rfl).trans (flagsLoop_go rfl)

theorem flagsLoop_flag (hs : s.Between) (hf : IsFlag f) (hascii : ∀ c ∈ f, c.toNat < 128) :
    flagsLoop s (encode f ++ 32 :: t) = flagsLoop { s with words := s.words ++ [encode f] } t := by
  obtain ⟨g, rfl⟩ := hf.dashes
  have hne : encode (['-', '-'] ++ g) ≠ dashes := fun h => hf.ne (encode_injective h)
  rw [encode_append, append_assoc, flagsLoop_dashes hs, flagsLoop_word rfl
    (fun c h => hf.chars c (mem_append_right _ h)) fun c h => hascii c (mem_append_right _ h)]
  obtain ⟨words, phase, word, quote, blankOK⟩ := s
  obtain ⟨rfl, rfl, rfl⟩ : phase = .inSpaces ∧ word = [] ∧ blankOK = false := hs
  have hspace : flagTurn ⟨words, .inWord, encode (['-', '-'] ++ g), quote, false⟩ ' '
      (t.head?.map byteRune) =
      .go ⟨words ++ [encode (['-', '-'] ++ g)], .inSpaces, [], quote, false⟩ := by
    rw [flagTurn, if_neg nofun, if_neg nofun, if_pos nofun,
      if_pos (show isSpace ' ' = true from rfl), if_neg hne]
    rfl
  exact flagsLoop_go hspace

theorem flagsLoop_flags {flags : List (List Char)} (hs : s.Between) (hflags : ∀ f ∈ flags, IsFlag f)
    (hascii : ∀ f ∈ flags, ∀ c ∈ f, c.toNat < 128) :
    flagsLoop s (flags.flatMap (fun f => encode f ++ [32]) ++ t) =
      flagsLoop { s with words := s.words ++ flags.map encode } t := by
  induction flags generalizing s with
  | nil => simp
  | cons f flags ih =>
    have hs' : { s with words := s.words ++ [encode f] }.Between := hs
    rw [flatMap_cons, append_assoc, append_assoc, singleton_append,
      flagsLoop_flag hs (hflags f mem_cons_self) (hascii f mem_cons_self),
      ih hs' (fun f' h => hflags f' (mem_cons_of_mem f h)) fun f' h =>
        hascii f' (mem_cons_of_mem f h)]
    simp

theorem isFlagChar_byteRune (hb : 192 ≤ b.toNat) : IsFlagChar (byteRune b) := by
  have hlt : b.toNat < 256 := b.toNat_lt
  have hne : ∀ c : Char, c.toNat < 128 → byteRune b ≠ c := fun c hc he => by
    rw [← he, toNat_byteRune] at hc
    omega
  rw [← toNat_byteRune] at hb hlt
  refine ⟨?_, hne _ (by decide), hne _ (by decide), hne _ (by decide), hne _ (by decide)⟩
  simp only [isSpace, Bool.or_eq_false_iff, Bool.and_eq_false_iff, decide_eq_false_iff_not,
    beq_eq_false_iff_ne]
  omega

/-- A byte that begins an encoding is its character, or none that means anything here. -/
theorem byteRune_cases (h : encodeRune c = b :: bs) :
    byteRune b = c ∧ bs = [] ∨ isSpace (byteRune b) = false ∧ byteRune b ≠ '-' := by
  rcases Nat.lt_or_ge c.toNat 128 with hc | hc
  · rw [encodeRune_of_lt hc] at h
    cases h
    exact .inl ⟨byteRune_ofNat hc, rfl⟩
  · have hb := le_of_encodeRune_eq_cons hc h
    refine .inr ⟨(isFlagChar_byteRune hb).space, fun hdash => ?_⟩
    rw [← toNat_byteRune, hdash] at hb
    exact absurd hb (by decide)

/-! A byte outside ASCII is encoded again, and from then on the word is ahead of the flag. -/

/-- What the words of a later state say about those of an earlier one. -/
def WordState.Grows (s s' : WordState) : Prop :=
  s'.words = s.words ∧ s.word <+: s'.word ∨ s'.words = s.words ++ [s.word]

/-- The words so far stay, and the word that is being read only grows. -/
def WordState.Within (s : WordState) (out : List Bytes) : Prop :=
  ∃ ws, out = s.words ++ ws ∧ ∀ w ∈ ws.head?, s.word <+: w

theorem WordState.Grows.within (h : s.Grows s') (hout : s'.Within out) : s.Within out := by
  obtain ⟨ws, rfl, hw⟩ := hout
  rcases h with ⟨he, hp⟩ | he
  · exact ⟨ws, by rw [he], fun w hm => hp.trans (hw w hm)⟩
  · exact ⟨s.word :: ws, by simp [he], by simp⟩

theorem grows_endWord (s : WordState) : s.Grows s.endWord := by
  by_cases h : s.blankOK ∨ s.word ≠ []
  · exact .inr (if_pos h)
  · exact .inl ⟨if_neg h, by simp [not_not.1 (not_or.1 h).2]⟩

theorem flagTurn_cases (s : WordState) (c : Char) (next : Option Char) :
    match s.flagTurn c next with
    | .go s' => s.Grows s'
    | .escape s' last => s.Grows s' ∧ s.Grows last
    | .stop words => words = s.words := by
  have hphase : ∀ phase, s.Grows { s with phase } := fun _ => .inl ⟨rfl, prefix_rfl⟩
  unfold flagTurn
  split_ifs
  · exact hphase _
  · rfl
  · rfl
  · exact grows_endWord s
  · exact .inl ⟨rfl, prefix_rfl⟩
  · exact ⟨hphase _, hphase _⟩
  · exact .inl ⟨rfl, prefix_append _ _⟩
  · exact hphase _
  · exact ⟨hphase _, hphase _⟩
  · exact .inl ⟨rfl, prefix_append _ _⟩

theorem within_finishFlags (s : WordState) : s.Within s.finishFlags := by
  have hnone : s.Within s.words := ⟨[], by simp, by simp⟩
  unfold finishFlags addWord
  split_ifs
  · exact hnone
  · exact ⟨[s.word], rfl, by simp⟩
  · exact hnone

theorem within_flagsLoop (s : WordState) (line : Bytes) : s.Within (flagsLoop s line).2 := by
  fun_induction flagsLoop s line with
  | case1 s => exact within_finishFlags s
  | case2 s b s' rest hturn ih =>
    have hgrows := flagTurn_cases s (byteRune b) (rest.head?.map byteRune)
    rw [hturn] at hgrows ⊢
    exact hgrows.within ih
  | case3 s b s' last hturn =>
    have hgrows := flagTurn_cases s (byteRune b) (([] : Bytes).head?.map byteRune)
    rw [hturn] at hgrows ⊢
    exact hgrows.2.within (within_finishFlags last)
  | case4 s b s' last b' rest hturn ih =>
    have hgrows := flagTurn_cases s (byteRune b) ((b' :: rest).head?.map byteRune)
    rw [hturn] at hgrows ⊢
    have hadd : s'.Grows (s'.add (byteRune b')) := .inl ⟨rfl, prefix_append _ _⟩
    exact hgrows.1.within (hadd.within ih)
  | case5 s b words rest hturn =>
    have hstop := flagTurn_cases s (byteRune b) (rest.head?.map byteRune)
    rw [hturn] at hstop ⊢
    exact ⟨[], by simp [hstop], by simp⟩

/-- The bytes of the encodings of each other's runes. -/
def ahead : Bytes := [0xc2, 0xc3, 0x82, 0x83]

theorem word_within (h : (flagsLoop s line).2 = s.words ++ w :: ws) : s.word <+: w := by
  obtain ⟨ws', he, hw⟩ := within_flagsLoop s line
  exact hw w (by simp [append_cancel_left (he.symm.trans h)])

/-- A word that is ahead of its flag `u ++ r`, of which `r` is still to be read, stays ahead. -/
theorem flagsLoop_ahead (hs : s.phase = .inWord) (hword : s.word = u ++ x) (hne : x ≠ [])
    (hx : ∀ b ∈ x, b ∈ ahead) :
    (flagsLoop s (r ++ t)).2 ≠ s.words ++ (u ++ r) :: ws := by
  induction r generalizing s u x with
  | nil =>
    intro h
    obtain ⟨y, hy⟩ := word_within h
    rw [hword] at hy
    simp [hne] at hy
  | cons b r ih =>
    intro h
    obtain ⟨y, hy⟩ := word_within h
    obtain ⟨a, x, rfl⟩ := exists_cons_of_ne_nil hne
    rw [hword] at hy
    obtain rfl : a = b := by simp at hy; exact hy.1
    have hb : a ∈ ahead := hx a mem_cons_self
    have hchar : ∀ b ∈ ahead, IsFlagChar (byteRune b) := by decide +kernel
    have hruns : ∀ b ∈ ahead, encodeRune (byteRune b) ≠ [] ∧ ∀ b' ∈ encodeRune (byteRune b),
        b' ∈ ahead := by
      decide +kernel
    rw [cons_append, flagsLoop_go (flagTurn_word hs (hchar a hb) _)] at h
    refine ih (u := u ++ [a]) (x := x ++ encodeRune (byteRune a))
      (s := s.add (byteRune a)) hs ?_ ?_ ?_ ?_
    · simp [add, hword]
    · simp [(hruns a hb).1]
    · intro b hm
      rcases mem_append.1 hm with hm | hm
      · exact hx b (mem_cons_of_mem a hm)
      · exact (hruns a hb).2 b hm
    · simpa using h

/-- The encoding of a byte taken for a rune. -/
theorem encodeRune_byteRune_of_le (hb : 192 ≤ b.toNat) :
    encodeRune (byteRune b) = [0xc3, b - 0x40] := by
  have hlt : b.toNat < 256 := b.toNat_lt
  have hv : (byteRune b).val.toNat = b.toNat := toNat_byteRune b
  have h1 : ¬b.toNat ≤ 127 := by omega
  have h2 : b.toNat ≤ 0x7ff := by omega
  simp only [encodeRune, String.utf8EncodeChar, hv, h1, h2, if_false, if_true]
  congr 1
  · rw [← UInt8.toNat_inj]
    simp
    omega
  · congr 1
    rw [← UInt8.toNat_inj]
    simp [UInt8.toNat_sub]
    omega

theorem flagsLoop_word_ne (hs : s.phase = .inWord) (hcs : ∀ c ∈ cs, IsFlagChar c)
    (hascii : ¬∀ c ∈ cs, c.toNat < 128) :
    (flagsLoop s (encode cs ++ t)).2 ≠ s.words ++ (s.word ++ encode cs) :: ws := by
  induction cs generalizing s with
  | nil => exact absurd (fun _ hm => by cases hm) hascii
  | cons c cs ih =>
    have hcs' : ∀ c ∈ cs, IsFlagChar c := fun c' h => hcs c' (mem_cons_of_mem c h)
    rcases Nat.lt_or_ge c.toNat 128 with hc | hc
    · have hfirst : flagsLoop s (encode [c] ++ (encode cs ++ t)) = _ :=
        flagsLoop_word hs (by simpa using hcs c mem_cons_self) (by simpa using hc)
      have hascii' : ¬∀ c ∈ cs, c.toNat < 128 := fun h => hascii (forall_mem_cons.2 ⟨hc, h⟩)
      rw [← singleton_append, encode_append, append_assoc, hfirst, ← append_assoc]
      exact ih (s := { s with word := s.word ++ encode [c] }) hs hcs' hascii'
    · obtain ⟨b, bs, hbytes⟩ := exists_cons_of_ne_nil (@encodeRune_ne_nil c)
      have hb := le_of_encodeRune_eq_cons hc hbytes
      rw [encode_cons, hbytes, cons_append, cons_append,
        flagsLoop_go (flagTurn_word hs (isFlagChar_byteRune hb) _)]
      intro h
      -- the first byte of `c` is the first byte of its own encoding
      obtain ⟨y, hy⟩ := word_within h
      rw [add, encodeRune_byteRune_of_le hb, append_assoc, append_right_inj] at hy
      obtain ⟨rfl, -⟩ := cons.inj hy
      have hword : (s.add (byteRune 0xc3)).word = s.word ++ [0xc3] ++ [0x83] := by
        rw [add, encodeRune_byteRune_of_le hb, append_assoc]
        rfl
      exact flagsLoop_ahead (s := s.add (byteRune 0xc3)) (r := bs ++ encode cs) hs hword (by simp)
        (by simp [ahead]) (by simpa using h)

theorem ascii_of_flagsLoop {flags : List (List Char)} (hs : s.Between)
    (hflags : ∀ f ∈ flags, IsFlag f)
    (h : (flagsLoop s (flags.flatMap (fun f => encode f ++ [32]) ++ t)).2 = s.words ++
      flags.map encode) :
    ∀ f ∈ flags, ∀ c ∈ f, c.toNat < 128 := by
  induction flags generalizing s with
  | nil => exact fun _ hm => by cases hm
  | cons f flags ih =>
    have hf := hflags f mem_cons_self
    have hflags' : ∀ f ∈ flags, IsFlag f := fun f' h => hflags f' (mem_cons_of_mem f h)
    rw [flatMap_cons, append_assoc, append_assoc, singleton_append, map_cons] at h
    by_cases hascii : ∀ c ∈ f, c.toNat < 128
    · rw [flagsLoop_flag hs hf hascii] at h
      have hs' : { s with words := s.words ++ [encode f] }.Between := hs
      exact forall_mem_cons.2 ⟨hascii, ih hs' hflags' (by simpa using h)⟩
    · obtain ⟨g, rfl⟩ := hf.dashes
      rw [encode_append, append_assoc, flagsLoop_dashes hs] at h
      refine absurd h (flagsLoop_word_ne rfl (fun c hm => hf.chars c (mem_append_right _ hm))
        fun hg => hascii ?_)
      exact forall_mem_append.2 ⟨by simp, hg⟩

theorem flagsLoop_rest {rest : List Char} (hs : s.phase = .inSpaces)
    (hspace : ∀ c ∈ rest.head?, isSpace c = false)
    (hdashes : ¬['-', '-'] <+: rest) : flagsLoop s (encode rest) = (encode rest, s.words) := by
  cases rest with
  | nil => rw [encode_nil, flagsLoop, finishFlags, if_pos (.inl hs)]
  | cons c cs =>
    obtain ⟨b, bs, hb⟩ := exists_cons_of_ne_nil (@encodeRune_ne_nil c)
    rw [encode_cons, hb, cons_append]
    refine flagsLoop_stop ?_
    have hstop : isSpace (byteRune b) = false ∧
        (byteRune b ≠ '-' ∨ (bs ++ encode cs).head?.map byteRune ≠ some '-') := by
      rcases byteRune_cases hb with ⟨rfl, rfl⟩ | ⟨hspace', hdash⟩
      · refine ⟨hspace _ rfl, Classical.or_iff_not_imp_left.2 fun hdash hnext => ?_⟩
        cases cs with
        | nil => cases hnext
        | cons c' cs =>
          obtain ⟨b', bs', hb'⟩ := exists_cons_of_ne_nil (@encodeRune_ne_nil c')
          rw [encode_cons, hb'] at hnext
          have hdash' : byteRune b' = '-' := Option.some.inj hnext
          rcases byteRune_cases hb' with ⟨rfl, -⟩ | ⟨-, hne⟩
          · exact hdashes ⟨cs, by rw [not_not.1 hdash, hdash']; rfl⟩
          · exact hne hdash'
      · exact ⟨hspace', .inl hdash⟩
    rw [flagTurn, if_neg (by simp [hstop.1]), if_pos ⟨hs, hstop.2⟩]

theorem encode_intercalate_flags (f : List Char) (flags : List (List Char)) (rest : List Char) :
    encode (intercalate [' '] (f :: flags) ++ ' ' :: rest) =
      (f :: flags).flatMap (fun f => encode f ++ [32]) ++ encode rest := by
  have hspace : encodeRune ' ' = [32] := rfl
  induction flags generalizing f with
  | nil => simp [hspace]
  | cons f' flags ih =>
    rw [intercalate_cons_cons, flatMap_cons, append_assoc, append_assoc, append_assoc, ← ih f']
    simp [hspace]

/-- The flags are taken as they are if and only if they are in ASCII. -/
theorem extractBuilderFlags_flags (flags : List (List Char)) (rest : List Char)
    (hflags : ∀ f ∈ flags, IsFlag f)
    (hspace : ∀ c ∈ rest.head?, isSpace c = false) (hdashes : ¬['-', '-'] <+: rest) :
    extractBuilderFlags (encode (intercalate [' '] flags ++ ' ' :: rest)) =
      (encode rest, flags.map encode) ↔
      ∀ f ∈ flags, ∀ c ∈ f, c.toNat < 128 := by
  rw [extractBuilderFlags]
  cases flags with
  | nil =>
    have hfirst : flagsLoop {} (encode (intercalate [' '] [] ++ ' ' :: rest)) = flagsLoop {}
        (encode rest) :=
      flagsLoop_space rfl
    rw [hfirst, flagsLoop_rest rfl hspace hdashes]
    simp
  | cons f flags =>
    have hbetween : ({} : WordState).Between := ⟨rfl, rfl, rfl⟩
    rw [encode_intercalate_flags]
    refine ⟨fun h => ascii_of_flagsLoop hbetween hflags (congrArg Prod.snd h), fun hascii => ?_⟩
    rw [flagsLoop_flags hbetween hflags hascii, flagsLoop_rest rfl hspace hdashes]
    rfl

theorem extractBuilderFlags_two_flags :
    extractBuilderFlags (encode "--from=a --b=%* \"x\" --c".toList) =
      (encode "\"x\" --c".toList, [encode "--from=a".toList, encode "--b=%*".toList]) :=
  (extractBuilderFlags_flags ["--from=a".toList, "--b=%*".toList] "\"x\" --c".toList (by decide)
    (by simp; rfl)
    (by decide)).2 (by simp)

/-- Other flags are not: the bytes of a longer encoding are taken for runes. -/
theorem extractBuilderFlags_two_bytes : IsFlag "--a=é".toList ∧
    extractBuilderFlags (encode (intercalate [' '] ["--a=é".toList] ++ ' ' :: "x".toList)) ≠
      (encode "x".toList, ["--a=é".toList].map encode) := by
  decide

end Docker.Dockerfile
