import Docker.Dockerfile.Children

/-!
# The line numbers of the tree

`Parse` notes for each instruction the lines it is on. The root ends where the last instruction
ends, but it begins where the first instruction ends.
-/

namespace Docker.Dockerfile

open Fallible Utf8 List

/-- The first and the last line of each child. -/
def Node.spans (n : Node) : List (Option (Int × Int)) :=
  n.children.map (Option.map fun c => (c.startLine, c.endLine))

/-- The lines of the children and the root when `currentLine` lines are read. A line that is
continued began after the last child. -/
structure Lined (st : ParseState) (spans : List (Int × Int)) : Prop where
  children : st.root.spans = spans.map some
  increasing : spans.Pairwise fun a b => a.2 < b.1
  within : ∀ a ∈ spans, 1 ≤ a.1 ∧ a.1 ≤ a.2 ∧ a.2 ≤ st.currentLine
  first : st.root.startLine = spans.head?.elim (-1) Prod.snd
  last : ∀ a ∈ spans.getLast?, st.root.endLine = a.2
  begun : ∀ line n, st.loop = .inner line n → 0 < n ∧ n ≤ st.currentLine ∧ ∀ a ∈ spans, a.2 < n

namespace Lined
variable {cx : Context} {st st' : ParseState} {spans : List (Int × Int)} {n : Nat}

theorem init (d : Directive) : Lined { directive := d } [] := ⟨rfl, .nil, nofun, rfl, nofun, nofun⟩

theorem advance (h : Lined st spans) :
    Lined { st with currentLine := st.currentLine + 1 } spans where
  children := h.children
  increasing := h.increasing
  within a ha := by
    have := h.within a ha
    dsimp only
    omega
  first := h.first
  last := h.last
  begun line n hloop := by
    obtain ⟨hpos, hn, hafter⟩ := h.begun line n hloop
    exact ⟨hpos, Nat.le_succ_of_le hn, hafter⟩

theorem setLoop (h : Lined st spans) {d : Directive} {loop : Loop}
    (hloop : ∀ line n, loop = .inner line n → 0 < n ∧ n ≤ st.currentLine ∧ ∀ a ∈ spans, a.2 < n) :
    Lined { st with directive := d, loop := loop } spans :=
  ⟨h.children, h.increasing, h.within, h.first, h.last, hloop⟩

theorem addChild (h : Lined st spans) (hpos : 0 < n) (hn : n ≤ st.currentLine)
    (hafter : ∀ a ∈ spans, a.2 < (n : Int)) (child : Node) : Lined (st.finish (some child) n)
    (spans ++ [((n : Int), (st.currentLine : Int))]) where
  children := by
    have hchildren := h.children
    unfold Node.spans at hchildren
    simp [ParseState.finish, Dockerfile.addChild, Node.spans, hchildren]
  increasing := by
    refine List.pairwise_append.2 ⟨h.increasing, List.pairwise_singleton .., fun a ha b hb => ?_⟩
    rw [List.mem_singleton.1 hb]
    exact hafter a ha
  within a ha := by
    rcases List.mem_append.1 ha with ha | ha
    · exact h.within a ha
    · rw [List.mem_singleton.1 ha]
      dsimp only [ParseState.finish]
      omega
  first := by
    have hfirst := h.first
    cases spans with
    | nil => simp_all [ParseState.finish, Dockerfile.addChild]
    | cons a spans =>
      -- the root has begun with the first child
      have := h.within a List.mem_cons_self
      have hroot : st.root.startLine = a.2 := hfirst
      have hnonneg : ¬ a.2 < 0 := by omega
      simp [ParseState.finish, Dockerfile.addChild, hroot, hnonneg]
  last a ha := by
    rw [List.getLast?_concat] at ha
    cases ha
    rfl
  begun := nofun

theorem parseLine (h : Lined st spans) (hpos : 0 < n) (hn : n ≤ st.currentLine)
    (hafter : ∀ a ∈ spans, a.2 < (n : Int)) (hst : st.parseLine cx line n more = .ok st') :
    st'.currentLine = st.currentLine ∧ ∃ spans', Lined st' spans' := by
  obtain ⟨⟨d', rest, child⟩, -, hst⟩ := bind_eq_ok.1 hst
  dsimp only at hst
  split at hst
  · cases hst
    refine ⟨rfl, spans, h.setLoop fun line' n' hloop => ?_⟩
    cases hloop
    exact ⟨hpos, hn, hafter⟩
  · cases hst
    cases child with
    | none => exact ⟨rfl, spans, h.setLoop nofun⟩
    | some child => exact ⟨rfl, _, (h.setLoop (d := d') h.begun).addChild hpos hn hafter child⟩

theorem scanned (h : Lined st spans) (hst : st.scanned cx token = .ok st') :
    st'.currentLine ≤ st.currentLine + token.toList.length ∧ ∃ spans', Lined st' spans' := by
  rw [ParseState.scanned.eq_def] at hst
  split at hst
  · cases hst
    exact ⟨Nat.le_add_right .., spans, h⟩
  · cases hst
    exact ⟨Nat.le_refl _, spans, h.setLoop (by simp)⟩
  · obtain ⟨hline, hspans⟩ := h.advance.parseLine (Nat.succ_pos _) (Nat.le_refl _)
      (fun a ha => Int.lt_add_one_of_le (h.within a ha).2.2) hst
    exact ⟨hline.le, hspans⟩
  · next line n hloop =>
    obtain ⟨hpos, hn, hafter⟩ := h.begun line n hloop
    split at hst
    · obtain ⟨hline, hspans⟩ := h.parseLine hpos hn hafter hst
      exact ⟨hline.le, hspans⟩
    · cases hst
      exact ⟨Nat.le_refl _, spans, h.setLoop (by simp)⟩
  · next line n newline hloop =>
    split at hst
    · cases hst
      exact ⟨Nat.le_refl _, spans, h.advance⟩
    · obtain ⟨hpos, hn, hafter⟩ := h.advance.begun line n hloop
      obtain ⟨hline, hspans⟩ := h.advance.parseLine hpos hn hafter hst
      exact ⟨hline.le, hspans⟩

theorem readTokens (h : Lined st spans) (hst : readTokens cx st tokens = .ok st') :
    st'.currentLine ≤ st.currentLine + tokens.reduceOption.length ∧ ∃ spans', Lined st' spans' := by
  induction tokens generalizing st spans with
  | nil =>
    cases hst
    exact ⟨Nat.le_refl _, spans, h⟩
  | cons token tokens ih =>
    obtain ⟨st₁, hst₁, hst⟩ := bind_eq_ok.1 hst
    obtain ⟨hle₁, spans₁, h₁⟩ := h.scanned hst₁
    obtain ⟨hle, hspans⟩ := ih h₁ hst
    refine ⟨?_, hspans⟩
    cases token <;> simp_all [reduceOption] <;> omega

end Lined

theorem length_scanLines (lines : List Bytes) :
    (scanLines lines).reduceOption.length ≤ lines.length := by
  induction lines with
  | nil => exact Nat.le_refl _
  | cons line lines ih =>
    unfold scanLines
    split
    · exact Nat.succ_le_succ ih
    · exact Nat.succ_le_succ (Nat.zero_le _)

/-! ## The first instruction -/

/-- With `line` continued on `lines`, the instruction is on more lines than one; `more` if it is
already. -/
def continued (cx : Context) (e : EscapeToken) (line : Bytes) (more : Bool) : List Bytes → Bool
  | [] =>
    match instruction cx e line with
    | .ok (_, some _) => more && line ≠ []
    | _ => false
  | newline :: lines =>
    if stripComments (trimSpace newline) = [] then continued cx e line true lines
    else
      match instruction cx e (line ++ newline) with
      | .ok (line, none) => continued cx e line true lines
      | _ => true

/-- The first of the lines that is not blank, a comment or a directive begins an instruction on more
lines than one. -/
def firstContinued (cx : Context) (d : Directive) (first : Bool) : List Bytes → Bool
  | [] => false
  | bytes :: lines =>
    match parseLine cx d (lineStart first bytes) with
    | .ok (d, line, none) =>
      if line = [] then firstContinued cx d false lines
        else continued cx d.escapeToken line false lines
    | _ => false

/-- The lines up to one that is too long for the scanner. -/
def shortLines (file : Bytes) : List Bytes :=
  ((rawLines file).takeWhile (·.length < maxScanTokenSize)).map dropCR

/-- The first child, if there is one, is on more lines than one just if `b`. -/
def FirstChild (b : Bool) (n : Node) : Prop :=
  ∀ a ∈ n.spans.head?, ∃ i j, a = some (i, j) ∧ (i ≠ j ↔ b = true)

section
variable {cx : Context} {st st' : ParseState}

theorem spans_finish (child : Node) :
    (st.finish (some child) n).root.spans = st.root.spans ++
    [some ((n : Int), (st.currentLine : Int))] := by
  simp [ParseState.finish, addChild, Node.spans]

theorem spans_parseLine (hst : st.parseLine cx line n more = .ok st') :
    st.root.spans <+: st'.root.spans := by
  obtain ⟨⟨d, rest, child⟩, -, hst⟩ := bind_eq_ok.1 hst
  dsimp only at hst
  split at hst
  · cases hst
    exact prefix_rfl
  · cases hst
    cases child with
    | none => exact prefix_rfl
    | some child =>
      rw [spans_finish]
      exact prefix_append ..

theorem spans_readTokens (hst : readTokens cx st tokens = .ok st') :
    st.root.spans <+: st'.root.spans := by
  refine foldlM_inv (I := fun s : ParseState => st.root.spans <+: s.root.spans) ?_ prefix_rfl hst
  intro st₁ token st₂ h hst₁
  refine h.trans ?_
  rw [ParseState.scanned.eq_def] at hst₁
  split at hst₁
  · cases hst₁
    exact prefix_rfl
  · cases hst₁
    exact prefix_rfl
  · have hline := spans_parseLine hst₁
    exact hline
  · split at hst₁
    · exact spans_parseLine hst₁
    · cases hst₁
      exact prefix_rfl
  · split at hst₁
    · cases hst₁
      exact prefix_rfl
    · have hline := spans_parseLine hst₁
      exact hline

theorem FirstChild.of_finish (hst : readTokens cx (st.finish (some child) n) tokens = .ok st')
    (hnone : st.root.children = [])
    (hiff : n ≠ st.currentLine ↔ b = true) : FirstChild b st'.root := by
  obtain ⟨spans, hspans⟩ := spans_readTokens hst
  rw [spans_finish, Node.spans, hnone] at hspans
  intro a ha
  rw [← hspans] at ha
  cases ha
  exact ⟨_, _, rfl, Nat.cast_inj.not.trans hiff⟩

theorem parseLine_inner (hd : st.directive.lookingForDirectives = false) :
    st.parseLine cx line n more =
    instruction cx st.directive.escapeToken line >>= fun r =>
      if r.2.isNone ∧ more r.1 then .ok { st with loop := .inner r.1 n }
        else .ok (st.finish r.2 n) := by
  obtain ⟨d, currentLine, root, loop⟩ := st
  obtain ⟨e, looking, seen⟩ := d
  cases hd
  rw [ParseState.parseLine, parseLine, if_neg Bool.false_ne_true]
  cases instruction cx e line with
  | error e => rfl
  | ok r => rfl

theorem readTokens_done (hloop : st.loop = .done) (hst : readTokens cx st tokens = .ok st') :
    st' = st := by
  induction tokens with
  | nil => exact (Except.ok.inj hst).symm
  | cons token tokens ih =>
    obtain ⟨st₁, hst₁, hst⟩ := bind_eq_ok.1 hst
    rw [ParseState.scanned.eq_def, hloop] at hst₁
    cases hst₁
    exact ih hst

theorem lookingForDirectives_parseLine (h : parseLine cx d line = .ok (d', line', child))
    (hne : line' ≠ []) :
    d'.lookingForDirectives = false := by
  rw [parseLine] at h
  split at h
  · split at h
    · cases h
    · obtain ⟨_, -, h⟩ := bind_eq_ok.1 h
      cases h
      exact absurd rfl hne
  · obtain ⟨_, -, h⟩ := bind_eq_ok.1 h
    cases h
    rfl

variable {rest : List (Option Bytes)} (hrest : ∀ {s t : ParseState}, readTokens cx s rest = .ok t →
  s.loop = .outer →
  s.root.children = [] → FirstChild false t.root)
include hrest

theorem FirstChild.of_inner (lines : List Bytes)
    (hst : readTokens cx st (lines.map some ++ none :: rest) = .ok st')
    (hloop : st.loop = .inner line n) (hn : n ≤ st.currentLine) (hnone : st.root.children = [])
    (hd : st.directive.lookingForDirectives = false) :
    FirstChild (continued cx st.directive.escapeToken line (n < st.currentLine) lines)
      st'.root := by
  induction lines generalizing st line with
  | nil =>
    obtain ⟨st₁, hst₁, hst⟩ := bind_eq_ok.1 hst
    rw [ParseState.scanned.eq_def, hloop] at hst₁
    dsimp only at hst₁
    rw [continued]
    split at hst₁
    · next hline =>
      rw [parseLine_inner hd] at hst₁
      obtain ⟨⟨line', child⟩, hline', hst₁⟩ := bind_eq_ok.1 hst₁
      rw [hline']
      simp only [Bool.false_eq_true, and_false, if_false] at hst₁
      cases hst₁
      cases child with
      | none => exact hrest hst rfl hnone
      | some child => exact .of_finish hst hnone (by simp [hline]; omega)
    · next hline =>
      cases hst₁
      have hfalse : FirstChild false st'.root := hrest hst rfl hnone
      simp only [hline, decide_false, Bool.and_false]
      split <;> exact hfalse
  | cons newline lines ih =>
    obtain ⟨st₁, hst₁, hst⟩ := bind_eq_ok.1 hst
    rw [ParseState.scanned.eq_def, hloop] at hst₁
    dsimp only at hst₁
    have hlt : n < st.currentLine + 1 := Nat.lt_succ_of_le hn
    rw [continued]
    split at hst₁
    · next hblank =>
      cases hst₁
      have hmore := ih hst rfl hlt.le hnone hd
      rw [if_pos hblank]
      rwa [decide_eq_true hlt] at hmore
    · next hblank =>
      rw [parseLine_inner (by exact hd)] at hst₁
      obtain ⟨⟨line', child⟩, hline', hst₁⟩ := bind_eq_ok.1 hst₁
      rw [if_neg hblank, hline']
      cases child with
      | none =>
        cases hst₁
        have hmore := ih hst rfl hlt.le hnone hd
        rwa [decide_eq_true hlt] at hmore
      | some child =>
        cases hst₁
        exact .of_finish hst hnone (by simp; omega)

theorem FirstChild.of_outer (lines : List Bytes)
    (hst : readTokens cx st (lines.map some ++ none :: rest) = .ok st')
    (hloop : st.loop = .outer) (hnone : st.root.children = []) :
    FirstChild (firstContinued cx st.directive (st.currentLine = 0) lines) st'.root := by
  induction lines generalizing st with
  | nil =>
    obtain ⟨st₁, hst₁, hst⟩ := bind_eq_ok.1 hst
    rw [ParseState.scanned.eq_def, hloop] at hst₁
    cases hst₁
    rw [readTokens_done rfl hst]
    intro a ha
    simp [Node.spans, hnone] at ha
  | cons bytes lines ih =>
    obtain ⟨st₁, hst₁, hst⟩ := bind_eq_ok.1 hst
    rw [ParseState.scanned.eq_def, hloop] at hst₁
    obtain ⟨⟨d, line, child⟩, hline, hst₁⟩ := bind_eq_ok.1 hst₁
    rw [firstContinued, hline]
    cases child with
    | none =>
      dsimp only at hst₁ ⊢
      split at hst₁
      · next hne =>
        have hne : line ≠ [] := of_decide_eq_true hne.2
        cases hst₁
        rw [if_neg hne]
        simpa using FirstChild.of_inner hrest lines hst rfl (Nat.le_refl _) hnone
          (lookingForDirectives_parseLine hline hne)
      · next hnil =>
        have hnil : line = [] := by simpa using hnil
        cases hst₁
        rw [if_pos hnil]
        simpa [ParseState.finish] using ih hst rfl hnone
    | some child =>
      cases hst₁
      exact .of_finish hst hnone (by simp)

end

theorem scanLines_eq (lines : List Bytes) : ∃ rest, scanLines lines ++ [none, none] =
    (lines.takeWhile (·.length < maxScanTokenSize)).map (some ∘ dropCR) ++ none :: rest ∧
    (rest = [none] ∨ ∃ buf, rest = [some buf, none, none]) := by
  induction lines with
  | nil => exact ⟨_, rfl, .inl rfl⟩
  | cons line lines ih =>
    rw [scanLines]
    split
    · next hshort =>
      obtain ⟨rest, heq, hrest⟩ := ih
      exact ⟨rest, by simp [hshort, heq], hrest⟩
    · next hlong =>
        exact ⟨[some (dropCR (line.take maxScanTokenSize)), none, none], by simp [hlong],
          .inr ⟨_, rfl⟩⟩

theorem firstChild_parse (h : parse cx d file = .ok st) :
    FirstChild (firstContinued cx d true (shortLines file)) st.root := by
  have hend : ∀ {s t : ParseState}, readTokens cx s [none] = .ok t → s.loop = .outer →
      s.root.children = [] →
      FirstChild false t.root := by
    intro s t hst hloop hnone
    obtain ⟨t, ht, hst⟩ := bind_eq_ok.1 hst
    rw [ParseState.scanned.eq_def, hloop] at ht
    cases ht
    cases hst
    intro a ha
    simp [Node.spans, hnone] at ha
  obtain ⟨rest, heq, hrest⟩ := scanLines_eq (rawLines file)
  rw [parse, heq, ← map_map] at h
  refine FirstChild.of_outer (fun {s t} hst hloop hnone => ?_) _ h rfl rfl
  rcases hrest with rfl | ⟨buf, rfl⟩
  · exact hend hst hloop hnone
  · -- a line that is the last one is not continued
    have hbuf := FirstChild.of_outer hend [buf] hst hloop hnone
    have hone : firstContinued cx s.directive (s.currentLine = 0) [buf] = false := by
      rw [firstContinued]
      split
      · split
        · rfl
        · rw [continued]
          split <;> simp
      · rfl
    rwa [hone] at hbuf

/-- The children are on lines of the file that follow each other; the root ends with the last, and
begins with the first child if and only if the first instruction is on one line. -/
theorem parse_spans {cx : Context} {d : Directive} {file : Bytes} {st : ParseState}
    (h : parse cx d file = .ok st) :
    ∃ spans : List (Int × Int), st.root.spans = spans.map some ∧
    spans.Pairwise (fun a b => a.2 < b.1) ∧
      (∀ a ∈ spans, 1 ≤ a.1 ∧ a.1 ≤ a.2 ∧ a.2 ≤ (rawLines file).length) ∧
    (∀ a ∈ spans.getLast?, st.root.endLine = a.2) ∧
    ∀ a ∈ spans.head?, st.root.startLine = a.1 ↔
      firstContinued cx d true (shortLines file) = false := by
  obtain ⟨hle, spans, hspans⟩ := (Lined.init d).readTokens h
  have hlines := length_scanLines (rawLines file)
  rw [reduceOption_append, length_append] at hle
  have hcurrent : st.currentLine ≤ (rawLines file).length := by
    simp only [reduceOption_cons_of_none, reduceOption_nil, length_nil] at hle
    omega
  refine ⟨spans, hspans.children, hspans.increasing, fun a ha => ?_, hspans.last, fun a ha => ?_⟩
  · have := hspans.within a ha
    omega
  · have hhead : st.root.spans.head? = some (some a) := by
      rw [hspans.children, head?_map, Option.mem_def.1 ha, Option.map_some]
    obtain ⟨i, j, heq, hiff⟩ := firstChild_parse h (some a) hhead
    cases heq
    have hroot : st.root.startLine = j := by
      rw [hspans.first, Option.mem_def.1 ha, Option.elim_some]
    rw [hroot, ← Bool.not_eq_true, ← hiff, not_not, eq_comm]

theorem parse_spans_two : ∃ st, parse plain {} (str "FROM a\n\nRUN b\\\n c") = .ok st ∧
    st.root.spans = [some (1, 1), some (3, 4)] ∧ st.root.startLine = 1 := by
  obtain ⟨st, hst, heval⟩ := exists_of_any (x := parse plain {} (str "FROM a\n\nRUN b\\\n c"))
    (p := fun st : ParseState => decide (st.root.spans = [some (1, 1), some (3, 4)]))
      (by decide +kernel)
  have hspans := of_decide_eq_true heval
  obtain ⟨spans, hmap, -, -, -, hfirst⟩ := parse_spans hst
  obtain rfl : spans = [(1, 1), (3, 4)] :=
    (Option.some_injective _).list_map (hmap.symm.trans hspans)
  exact ⟨st, hst, hspans, (hfirst (1, 1) rfl).2 (by decide +kernel)⟩

/-- The root begins where the first instruction ends. -/
theorem parse_root_startLine : ∃ st, parse plain {} (str "FROM \\\na") = .ok st ∧
    st.root.spans = [some (1, 2)] ∧ st.root.startLine = 2 := by
  obtain ⟨st, hst, heval⟩ := exists_of_any (x := parse plain {} (str "FROM \\\na"))
    (p := fun st : ParseState => decide (st.root.spans = [some (1, 2)] ∧ st.root.startLine = 2))
      (by decide +kernel)
  exact ⟨st, hst, of_decide_eq_true heval⟩

end Docker.Dockerfile
