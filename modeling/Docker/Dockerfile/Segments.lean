import Docker.Dockerfile.Shell

/-!
# Where the characters of an expanded word come from

`processStopOn` builds the expanded word and its words side by side, from the same pieces: the words
leave out the whitespace that comes from literal text and from substitutions.
-/

namespace Docker.Dockerfile

open Utf8 ShellWord WordsStruct List

inductive Origin where
  | literal
  | escaped
  | singleQuoted
  | doubleQuoted
  | substitution
  deriving DecidableEq

/-- Whitespace of this origin separates words. -/
def Origin.splits : Origin → Bool
  | literal | substitution => true
  | escaped | singleQuoted | doubleQuoted => false

/-- The pieces of a word, each with its text: the characters, the quotations and the substitutions
that it is made of. -/
def segments (sw : ShellWord) : Nat → List Char → Except ShellError (List (Origin × Bytes))
  | 0, _ => .error .outOfSteps
  | _ + 1, [] => .ok []
  | n + 1, '\'' :: rest =>
    let (tmp, rest) := ShellWord.processSingleQuote [] rest
    (segments sw n rest).map ((.singleQuoted, tmp) :: ·)
  | n + 1, '"' :: rest => do
    let (tmp, rest) ← sw.processDoubleQuote n [] rest
    (segments sw n rest).map ((.doubleQuoted, tmp) :: ·)
  | n + 1, '$' :: rest => do
    let (tmp, rest) ← sw.processDollar n rest
    (segments sw n rest).map ((.substitution, tmp) :: ·)
  | _ + 1, ['\\'] => .ok []
  | n + 1, '\\' :: ch :: rest => (segments sw n rest).map ((.escaped, encodeRune ch) :: ·)
  | n + 1, ch :: rest => (segments sw n rest).map ((.literal, encodeRune ch) :: ·)

def ShellWord.segments (sw : ShellWord) : Except ShellError (List (Origin × Bytes)) :=
  Dockerfile.segments sw ((scan sw.word).length + 1) (scan sw.word)

def WordsStruct.addSegment (w : WordsStruct) (p : Origin × Bytes) : WordsStruct :=
  if p.1.splits then w.addString p.2 else w.addRawString p.2

section
variable {words : WordsStruct} {ss : List (Origin × Bytes)}
  {r : Except ShellError (List (Origin × Bytes))}

theorem addString_encode (h : bom ∉ cs) :
    words.addString (encode cs) = cs.foldl .addChar words := by
  rw [addString, scan_encode h]

theorem addSegment_literal (h : ch ≠ bom) :
    words.addSegment (.literal, encodeRune ch) = words.addChar ch := by
  have hch : encodeRune ch = encode [ch] := by simp
  rw [addSegment, hch]
  exact addString_encode (by simpa using h.symm)

theorem segments_literal (h : ch ∉ ['\'', '"', '$', '\\']) :
    segments sw (n + 1) (ch :: rest) = (segments sw n rest).map
      ((.literal, encodeRune ch) :: ·) := by
  simp only [mem_cons, not_mem_nil, or_false, not_or] at h
  obtain ⟨hsingle, hdouble, hdollar, hbackslash⟩ := h
  rw [segments.eq_8 _ _ _ _ hsingle hdouble hdollar (fun hch _ => hbackslash hch) fun _ _ hch _ =>
    hbackslash hch]

/-- What the loop makes of the pieces of its input. -/
def ofSegments (result : Bytes) (words : WordsStruct) (ss : List (Origin × Bytes)) :
    (Bytes × List Bytes) × List Char :=
  ((result ++ (ss.map Prod.snd).flatten, (ss.foldl .addSegment words).getWords), [])

theorem map_ofSegments_cons :
    (r.map (p :: ·)).map (ofSegments result words) =
      r.map (ofSegments (result ++ p.2) (words.addSegment p)) := by
  cases r with
  | error err => rfl
  | ok ss => simp [Except.map, ofSegments]

/-- What is left is no longer than the input, and has no byte order mark. -/
theorem runs_input {r : Except ShellError (α × List Char)} (hruns : Runs P input r)
    (hlen : input.length < n) (hbom : bom ∉ input) (hr : r = .ok (a, rest)) :
    rest.length < n ∧ bom ∉ rest := by
  subst hr
  exact ⟨Nat.lt_of_le_of_lt hruns.2.length_le hlen, fun h => hbom (hruns.2.subset h)⟩

theorem processStopOn_segments (hlen : input.length < n) (hbom : bom ∉ input) :
    sw.processStopOn none n result words input = (segments sw n input).map
      (ofSegments result words) := by
  induction n generalizing result words input with
  | zero => cases hlen
  | succ n ih =>
    cases input with
    | nil =>
      rw [processStopOn, segments]
      simp [Except.map, ofSegments]
    | cons ch rest =>
      have hlen' : rest.length < n := Nat.lt_of_succ_lt_succ hlen
      have hbom' : bom ∉ rest := not_mem_of_not_mem_cons hbom
      have hwithin := runsWithin (fun _ => True) sw n
      rw [processStopOn.eq_def]
      dsimp only
      rw [if_neg (by simp)]
      split
      · next hch =>
        have hrest : (processSingleQuote [] rest).2 <:+ rest :=
          (processSingleQuote_runs (@closed_true sw rest) trivial).2
        subst hch
        rw [segments, map_ofSegments_cons]
        exact ih (Nat.lt_of_le_of_lt hrest.length_le hlen') fun h => hbom' (hrest.subset h)
      split
      · next hch =>
        subst hch
        rw [segments]
        cases hr : sw.processDoubleQuote n [] rest with
        | error err => rfl
        | ok r =>
          obtain ⟨hlt, hmem⟩ := runs_input (hwithin.doubleQuote hlen' closed_true trivial)
            hlen' hbom' hr
          exact (ih hlt hmem).trans (map_ofSegments_cons (p := (.doubleQuoted, r.1))).symm
      split
      · next hch =>
        subst hch
        rw [segments]
        cases hr : sw.processDollar n rest with
        | error err => rfl
        | ok r =>
          obtain ⟨hlt, hmem⟩ := runs_input (hwithin.dollar hlen' closed_true) hlen' hbom' hr
          exact (ih hlt hmem).trans (map_ofSegments_cons (p := (.substitution, r.1))).symm
      split
      · next hch =>
        subst hch
        cases rest with
        | nil =>
          rw [segments]
          simp [Except.map, ofSegments]
        | cons ch rest =>
          rw [segments, map_ofSegments_cons]
          exact ih (Nat.lt_of_succ_lt hlen') (not_mem_of_not_mem_cons hbom')
      · next hsingle hdouble hdollar hbackslash =>
        rw [segments_literal (by simp [hsingle, hdouble, hdollar, hbackslash]), map_ofSegments_cons,
          addSegment_literal (ne_of_not_mem_cons hbom).symm]
        exact ih hlen' hbom'

/-- A text without byte order marks. -/
def IsText (s : Bytes) : Prop := ∃ cs, bom ∉ cs ∧ s = encode cs

theorem IsText.append (hs : IsText s) (ht : IsText t) : IsText (s ++ t) := by
  obtain ⟨cs, hcs, rfl⟩ := hs
  obtain ⟨ds, hds, rfl⟩ := ht
  exact ⟨cs ++ ds, by simp [hcs, hds], encode_append.symm⟩

theorem isText_lookup {envs : List Bytes} (h : ∀ env ∈ envs, IsText env) :
    IsText (lookup name envs) := by
  have hnil : IsText [] := ⟨[], by simp, rfl⟩
  fun_induction lookup name envs with
  | case1 => exact hnil
  | case2 env envs hmem hname =>
    obtain ⟨cs, hcs, rfl⟩ := h env mem_cons_self
    rw [dropWhile_encode (by decide)]
    have hsuffix := dropWhile_suffix (l := cs) (· ≠ byteRune 61)
    cases hdrop : cs.dropWhile (· ≠ byteRune 61) with
    | nil => exact hnil
    | cons c ds =>
      have hhead := head?_dropWhile_not (· ≠ byteRune 61) cs
      rw [hdrop] at hhead
      have hc : c = byteRune 61 := by simpa using hhead
      rw [hdrop] at hsuffix
      refine ⟨ds, fun hbom => hcs (hsuffix.subset (mem_cons_of_mem c hbom)), ?_⟩
      rw [encode_cons, hc, encodeRune_byteRune (by decide)]
      rfl
  | case3 env envs _ _ ih | case5 env envs _ _ ih =>
    exact ih fun env' henv => h env' (mem_cons_of_mem env henv)
  | case4 => exact hnil

theorem closed_isText (henvs : ∀ env ∈ sw.envs, IsText env) (hbom : bom ∉ input) :
    Closed IsText sw input where
  nil := ⟨[], by simp, rfl⟩
  append := .append
  dollar := ⟨['$'], by decide, rfl⟩
  env _ := isText_lookup henvs
  rune ch hch := ⟨[ch], fun h => hbom (mem_singleton.1 h ▸ hch), by simp⟩

theorem eq_cons_of_map_eq_ok (h : r.map (p :: ·) = .ok ss) :
    ∃ ss', ss = p :: ss' ∧ r = .ok ss' := by
  cases r with
  | error err => cases h
  | ok ss' => exact ⟨ss', (Except.ok.inj h).symm, rfl⟩

theorem segments_cons (hlen : rest.length < n) (hT : Closed T sw (ch :: rest))
    (h : segments sw (n + 1) (ch :: rest) = .ok ss) :
    ss = [] ∨ ∃ p rest' ss', ss = p :: ss' ∧ T p.2 ∧ rest' <:+ rest ∧
      segments sw n rest' = .ok ss' := by
  have hwithin := runsWithin T sw n
  by_cases hsingle : ch = '\''
  · subst hsingle
    obtain ⟨htext, hrest⟩ := processSingleQuote_runs hT.tail hT.nil
    obtain ⟨ss', rfl, hss'⟩ := eq_cons_of_map_eq_ok h
    exact .inr ⟨_, _, ss', rfl, htext, hrest, hss'⟩
  by_cases hdouble : ch = '"'
  · subst hdouble
    have hruns := hwithin.doubleQuote hlen hT.tail hT.nil
    rw [segments] at h
    cases hr : sw.processDoubleQuote n [] rest with
    | error err =>
      rw [hr] at h
      cases h
    | ok r =>
      rw [hr] at h hruns
      obtain ⟨ss', rfl, hss'⟩ := eq_cons_of_map_eq_ok h
      exact .inr ⟨_, _, ss', rfl, hruns.1, hruns.2, hss'⟩
  by_cases hdollar : ch = '$'
  · subst hdollar
    have hruns := hwithin.dollar hlen hT.tail
    rw [segments] at h
    cases hr : sw.processDollar n rest with
    | error err =>
      rw [hr] at h
      cases h
    | ok r =>
      rw [hr] at h hruns
      obtain ⟨ss', rfl, hss'⟩ := eq_cons_of_map_eq_ok h
      exact .inr ⟨_, _, ss', rfl, hruns.1, hruns.2, hss'⟩
  by_cases hbackslash : ch = '\\'
  · subst hbackslash
    cases rest with
    | nil =>
      exact .inl (Except.ok.inj h).symm
    | cons ch rest =>
      obtain ⟨ss', rfl, hss'⟩ := eq_cons_of_map_eq_ok h
      exact .inr ⟨_, rest, ss', rfl, hT.tail.rune ch List.mem_cons_self,
        List.suffix_cons ch rest, hss'⟩
  · rw [segments_literal (by simp [hsingle, hdouble, hdollar, hbackslash])] at h
    obtain ⟨ss', rfl, hss'⟩ := eq_cons_of_map_eq_ok h
    exact .inr ⟨_, rest, ss', rfl, hT.rune ch List.mem_cons_self, List.suffix_rfl, hss'⟩

theorem segments_texts (hlen : input.length < n) (hT : Closed T sw input)
    (h : segments sw n input = .ok ss) : ∀ p ∈ ss, T p.2 := by
  induction n generalizing input ss with
  | zero => cases hlen
  | succ n ih =>
    cases input with
    | nil =>
      cases h
      exact nofun
    | cons ch rest =>
      have hlen' : rest.length < n := Nat.lt_of_succ_lt_succ hlen
      rcases segments_cons hlen' hT h with rfl | ⟨p, rest', ss', rfl, hp, hrest, hss'⟩
      · exact nofun
      · have hss := ih (Nat.lt_of_le_of_lt hrest.length_le hlen') (hT.tail.suffix hrest) hss'
        intro p' hp'
        rcases List.mem_cons.1 hp' with rfl | hmem
        · exact hp
        · exact hss p' hmem

structure Splits (w : WordsStruct) (kept : Bytes) : Prop where
  ne_nil : ∀ word ∈ w.words, word ≠ []
  text : w.words.flatten ++ w.word = kept

namespace Splits
variable {w : WordsStruct} {cs : List Char}

theorem addRawString (h : Splits w kept) (str : Bytes) :
    Splits (w.addRawString str) (kept ++ str) := by
  refine ⟨h.ne_nil, ?_⟩
  rw [← h.text, List.append_assoc]
  rfl

theorem addChar (h : Splits w kept) :
    Splits (w.addChar ch) (kept ++ encode ([ch].filter (!isSpace ·))) := by
  rw [WordsStruct.addChar]
  split
  · next hspace =>
    rw [List.filter_cons_of_neg (by simp [hspace.1]), List.filter_nil, encode_nil, List.append_nil]
    split
    · next hword =>
      refine ⟨fun word hmem => ?_, ?_⟩
      · rcases List.mem_append.1 hmem with hmem | hmem
        · exact h.ne_nil word hmem
        · rw [List.mem_singleton.1 hmem]
          exact hword
      · rw [← h.text]
        simp
    · exact h
  · split
    · next hspace =>
      rw [List.filter_cons_of_pos (by simpa using hspace), List.filter_nil, encode_cons, encode_nil,
        List.append_nil]
      exact h.addRawString _
    · next hspace =>
      rw [List.filter_cons_of_neg (by simpa using hspace), List.filter_nil, encode_nil,
        List.append_nil]
      exact h

theorem foldl_addChar (h : Splits w kept) :
    Splits (cs.foldl .addChar w) (kept ++ encode (cs.filter (!isSpace ·))) := by
  induction cs generalizing w kept with
  | nil => simpa using h
  | cons ch cs ih =>
    have hfilter : (ch :: cs).filter (!isSpace ·) = [ch].filter (!isSpace ·) ++
        cs.filter (!isSpace ·) :=
      List.filter_append [ch] cs
    rw [hfilter, encode_append, ← List.append_assoc]
    exact ih h.addChar

theorem getWords (h : Splits w kept) :
    (∀ word ∈ w.getWords, word ≠ []) ∧ w.getWords.flatten = kept := by
  rw [WordsStruct.getWords, ← h.text]
  split
  · next hword =>
    refine ⟨fun word hmem => ?_, by simp⟩
    rcases List.mem_append.1 hmem with hmem | hmem
    · exact h.ne_nil word hmem
    · rw [List.mem_singleton.1 hmem]
      exact hword
  · next hword =>
    refine ⟨h.ne_nil, ?_⟩
    rw [not_not.1 hword, List.append_nil]

end Splits

def keptOf (p : Origin × List Char) : List Char :=
  if p.1.splits then p.2.filter (!isSpace ·) else p.2

theorem Splits.foldl_addSegment {ss : List (Origin × List Char)} (h : Splits w kept)
    (hbom : ∀ p ∈ ss, bom ∉ p.2) :
    Splits ((ss.map fun p => (p.1, encode p.2)).foldl .addSegment w)
      (kept ++ encode (ss.flatMap keptOf)) := by
  induction ss generalizing w kept with
  | nil => simpa using h
  | cons p ss ih =>
    have hp : Splits (w.addSegment (p.1, encode p.2)) (kept ++ encode (keptOf p)) := by
      rw [addSegment, keptOf]
      split
      · rw [addString_encode (hbom p List.mem_cons_self)]
        exact h.foldl_addChar
      · exact h.addRawString _
    rw [List.flatMap_cons, encode_append, ← List.append_assoc]
    exact ih hp fun p' hp' => hbom p' (List.mem_cons_of_mem p hp')

theorem exists_chars (h : ∀ p ∈ ss, IsText p.2) :
    ∃ cs : List (Origin × List Char), ss = cs.map (fun p => (p.1, encode p.2)) ∧ ∀ p ∈ cs,
      bom ∉ p.2 := by
  induction ss with
  | nil => exact ⟨[], rfl, nofun⟩
  | cons p ss ih =>
    obtain ⟨cs, rfl, hcs⟩ := ih fun p' hp' => h p' (List.mem_cons_of_mem p hp')
    obtain ⟨text, htext, hp⟩ := h p List.mem_cons_self
    refine ⟨(p.1, text) :: cs, by rw [List.map_cons, ← hp], fun p' hp' => ?_⟩
    rcases List.mem_cons.1 hp' with rfl | hmem
    · exact htext
    · exact hcs p' hmem

end

/-- The words are the pieces of the expanded word, split at the whitespace of some of them. -/
theorem processWords_splits (u : Tables) (word : List Char) (envs : List (List Char))
    (hword : bom ∉ word) (henvs : ∀ env ∈ envs, bom ∉ env) :
    (∃ err, err ≠ .outOfSteps ∧ processWord u (encode word) (envs.map encode) = .error err ∧
      processWords u (encode word) (envs.map encode) = .error err) ∨
    ∃ (ss : List (Origin × List Char)) (words : List Bytes),
      ShellWord.segments ⟨encode word, envs.map encode, u⟩ =
        .ok (ss.map fun p => (p.1, encode p.2)) ∧
      processWord u (encode word) (envs.map encode) = .ok (encode (ss.flatMap Prod.snd)) ∧
      processWords u (encode word) (envs.map encode) = .ok words ∧ (∀ w ∈ words, w ≠ []) ∧
      words.flatten = encode (ss.flatMap fun p =>
        if p.1.splits then p.2.filter (!isSpace ·) else p.2) := by
  have hlen := Nat.lt_succ_self word.length
  have hprocess : ShellWord.process ⟨encode word, envs.map encode, u⟩ =
      (ShellWord.segments ⟨encode word, envs.map encode, u⟩).map fun ss =>
        (ofSegments [] {} ss).1 := by
    rw [ShellWord.process, ShellWord.segments, scan_encode hword, processStopOn_segments hlen hword]
    cases segments ⟨encode word, envs.map encode, u⟩ (word.length + 1) word <;> rfl
  rw [processWord, processWords]
  cases hss : ShellWord.segments ⟨encode word, envs.map encode, u⟩ with
  | error err =>
    rw [hss] at hprocess
    refine .inl ⟨err, ?_, by rw [hprocess]; rfl, by rw [hprocess]; rfl⟩
    rintro rfl
    exact ShellWord.process_ne_outOfSteps _ hprocess
  | ok ss =>
    have htexts : ∀ p ∈ ss, IsText p.2 := by
      rw [ShellWord.segments, scan_encode hword] at hss
      refine segments_texts hlen (closed_isText (fun env henv => ?_) hword) hss
      obtain ⟨cs, hcs, rfl⟩ := List.mem_map.1 henv
      exact ⟨cs, henvs cs hcs, rfl⟩
    obtain ⟨cs, rfl, hbom⟩ := exists_chars htexts
    have hsplits : Splits {} [] := ⟨by simp, rfl⟩
    obtain ⟨hne, hflatten⟩ := (hsplits.foldl_addSegment hbom).getWords
    refine .inr ⟨cs, _, rfl, ?_, by rw [hprocess, hss]; rfl, hne, hflatten⟩
    have htext : encode (cs.flatMap Prod.snd) =
        ((cs.map fun p => (p.1, encode p.2)).map Prod.snd).flatten := by
      rw [encode, List.flatMap_assoc, List.map_map, ← List.flatMap_def]
      rfl
    rw [hprocess, hss, htext]
    rfl

theorem processWords_splits_nested : ∃ words,
    processWords asciiTables (encode "a$\x7bx:-b c\x7d 'd e'".toList) [encode "y=1".toList] =
      .ok words ∧ ∀ w ∈ words, w ≠ [] := by
  have heval : processWord asciiTables (encode "a$\x7bx:-b c\x7d 'd e'".toList)
      [encode "y=1".toList] = .ok (encode "ab c d e".toList) := by
    decide +kernel
  rcases processWords_splits asciiTables "a$\x7bx:-b c\x7d 'd e'".toList ["y=1".toList] (by decide)
    (by decide) with ⟨err, -, herr, -⟩ | ⟨ss, words, -, -, hwords, hne, -⟩
  · cases heval.symm.trans herr
  · exact ⟨words, hwords, hne⟩

end Docker.Dockerfile
