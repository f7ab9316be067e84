import Docker.Dockerfile.Parse

/-!
# The children of a parse tree

An `ONBUILD` lists the node of its argument as a child, also when `ParseLine` returns none for it.
-/

namespace Docker.Dockerfile

open Utf8 Fallible List Option

namespace Node

/-- What can be reached through `Next` and `Children`. -/
inductive Reachable : Node → Node → Prop
  | refl (n : Node) : Reachable n n
  | next {n m k : Node} : n.next = some m → Reachable m k → Reachable n k
  | child {n m k : Node} : some m ∈ n.children → Reachable m k → Reachable n k

def NoNilChild (n : Node) : Prop := ∀ m, n.Reachable m → none ∉ m.children

variable {n : Node}

theorem noNilChild_iff : n.NoNilChild ↔
    none ∉ n.children ∧ (∀ m, n.next = some m → m.NoNilChild) ∧ ∀ m, some m ∈ n.children →
      m.NoNilChild := by
  constructor
  · intro h
    exact ⟨h n (.refl n), fun m hm k hk => h k (.next hm hk), fun m hm k hk => h k (.child hm hk)⟩
  · rintro ⟨hnone, hnext, hchild⟩ k hk
    cases hk with
    | refl => exact hnone
    | next hm hk => exact hnext _ hm k hk
    | child hm hk => exact hchild _ hm k hk

theorem noNilChild_of_nil (h : n.children = []) :
    n.NoNilChild ↔ ∀ m, n.next = some m → m.NoNilChild := by
  rw [noNilChild_iff, h]
  simp

theorem noNilChild_singleton (hchildren : n.children = [c]) (hnext : n.next = none) :
    n.NoNilChild ↔ ∃ m, c = some m ∧ m.NoNilChild := by
  rw [noNilChild_iff, hchildren, hnext]
  cases c <;> simp

end Node

def NoNilArgs (sexp : Option Node × Attributes) : Prop := ∀ n, sexp.1 = some n → n.NoNilChild

section
variable {cx : Context} {n : Node}

theorem noNilArgs_none : NoNilArgs (none, attributes) := nofun

theorem noNilArgs_chain : NoNilArgs (chain values, attributes) := by
  induction values with
  | nil => exact noNilArgs_none
  | cons value values ih =>
    rintro n ⟨rfl⟩
    exact (Node.noNilChild_of_nil rfl).2 ih

theorem noNilArgs_strings : NoNilArgs (parseStringsWhitespaceDelimited args) := by
  rw [parseStringsWhitespaceDelimited]
  split
  · exact noNilArgs_none
  · exact noNilArgs_chain

theorem noNilArgs_orJSON (hother : NoNilArgs other) (h : orJSON cx args other = .ok sexp) :
    NoNilArgs sexp := by
  rw [orJSON] at h
  split at h
  · next result hjson =>
    cases h
    rw [parseJSON] at hjson
    split at hjson
    · cases hjson
    · split at hjson
      · cases hjson
      · split at hjson
        · cases hjson
        · cases hjson
          exact noNilArgs_chain
  · cases h
  · cases h
    exact hother

theorem noNilArgs_maybeJSON (h : parseMaybeJSON cx args = .ok sexp) : NoNilArgs sexp := by
  rw [parseMaybeJSON] at h
  split at h
  · cases h
    exact noNilArgs_none
  · exact noNilArgs_orJSON noNilArgs_chain h

theorem noNilArgs_nameVal (h : parseNameVal e key args = .ok sexp) : NoNilArgs sexp := by
  rw [parseNameVal] at h
  split at h
  · cases h
    exact noNilArgs_none
  · split at h
    · split at h
      · cases h
      · cases h
        exact noNilArgs_chain
    · next word words _ _ =>
      cases hparts : (word :: words).mapM splitNameVal with
      | error err =>
        rw [hparts] at h
        cases h
      | ok parts =>
        rw [hparts] at h
        cases h
        exact noNilArgs_chain

theorem noNilArgs_healthConfig (h : parseHealthConfig cx args = .ok sexp) : NoNilArgs sexp := by
  rw [parseHealthConfig] at h
  split at h
  · cases h
    exact noNilArgs_none
  · cases hcmd : parseMaybeJSON cx ((args.dropWhile fun b => !isSpace (byteRune b)).dropWhile
      fun b => isSpace (byteRune b)) with
    | error err =>
      rw [hcmd] at h
      cases h
    | ok sexp' =>
      rw [hcmd] at h
      cases h
      rintro n ⟨rfl⟩
      exact (Node.noNilChild_of_nil rfl).2 (noNilArgs_maybeJSON hcmd)

theorem noNilArgs_run {parser : LineParser} (hparser : parser ≠ .subCommand)
    (h : parser.run cx e f args = .ok sexp) :
    NoNilArgs sexp := by
  cases parser with
  | maybeJSONToList => exact noNilArgs_orJSON noNilArgs_strings h
  | nameOrNameVal =>
    cases h
    exact noNilArgs_chain
  | maybeJSON => exact noNilArgs_maybeJSON h
  | env | label => exact noNilArgs_nameVal h
  | stringsWhitespaceDelimited =>
    cases h
    exact noNilArgs_strings
  | string =>
    cases h
    rw [parseString]
    split
    · exact noNilArgs_none
    · exact noNilArgs_chain
  | healthConfig => exact noNilArgs_healthConfig h
  | subCommand => exact absurd rfl hparser

theorem lookup_eq_subCommand : dispatch.lookup cmd = some .subCommand ↔ cmd = str "onbuild" := by
  constructor
  · intro h
    have honly : ∀ p ∈ dispatch, p.2 = .subCommand → p.1 = str "onbuild" := by decide
    obtain ⟨cmd', hmem, hcmd⟩ : ∃ cmd', (cmd', LineParser.subCommand) ∈ dispatch ∧ cmd = cmd' := by
      obtain ⟨l₁, l₂, h, -⟩ := lookup_eq_some_iff.1 h
      exact ⟨cmd, by rw [h]; simp, rfl⟩
    exact hcmd.trans (honly _ hmem rfl)
  · rintro rfl
    decide

theorem fullDispatch_of_ne {cmd : Bytes} (hcmd : cmd ≠ str "onbuild")
    (h : fullDispatch cx e f cmd args = .ok sexp) :
    NoNilArgs sexp := by
  rw [fullDispatch] at h
  split at h
  · cases h
    rintro n ⟨rfl⟩
    exact (Node.noNilChild_of_nil rfl).2 (by simp)
  · next parser hlookup =>
    refine noNilArgs_run ?_ h
    rintro rfl
    exact hcmd (lookup_eq_subCommand.1 hlookup)

theorem fullDispatch_onbuild : fullDispatch cx e f (str "onbuild") args =
    parseSubCommand f args := by
  rfl

theorem instruction_some (h : instruction cx e line = .ok (rest, some n)) :
    stripComments line ≠ [] ∧ continuation e line = none ∧ ∃ sexp,
      fullDispatch cx e (instruction cx e) (splitCommand cx.tables line).cmd
        (splitCommand cx.tables line).args = .ok sexp ∧
      n = commandNode (splitCommand cx.tables line) line sexp := by
  rw [instruction_eq, instructionStep] at h
  split at h
  · cases h
  · next hcomment =>
    split at h
    · cases h
    · next hcontinuation =>
      refine ⟨hcomment, hcontinuation, ?_⟩
      cases hsexp : fullDispatch cx e (instruction cx e) (splitCommand cx.tables line).cmd
        (splitCommand cx.tables line).args with
      | error err =>
        rw [hsexp] at h
        cases h
      | ok sexp =>
        rw [hsexp] at h
        cases h
        exact ⟨sexp, rfl, rfl⟩

theorem instruction_none (h : instruction cx e line = .ok (rest, none)) :
    stripComments line = [] ∧ rest = [] ∨ stripComments line ≠ [] ∧
      continuation e line = some rest := by
  rw [instruction_eq, instructionStep] at h
  split at h
  · next hcomment =>
    cases h
    exact .inl ⟨hcomment, rfl⟩
  · next hcomment =>
    split at h
    · next hcontinuation =>
      cases h
      exact .inr ⟨hcomment, hcontinuation⟩
    · cases hsexp : fullDispatch cx e (instruction cx e) (splitCommand cx.tables line).cmd
        (splitCommand cx.tables line).args with
      | error err | ok sexp =>
        rw [hsexp] at h
        cases h

/-- The argument of an `ONBUILD` is an instruction: no comment, and not to be continued. -/
inductive SubCommandOK (u : Tables) (e : EscapeToken) : Bytes → Prop
  | other {line : Bytes} : (splitCommand u line).cmd ≠ str "onbuild" → SubCommandOK u e line
  | empty {line : Bytes} : (splitCommand u line).args = [] → SubCommandOK u e line
  | sub {line : Bytes} : stripComments (splitCommand u line).args ≠ [] →
    continuation e (splitCommand u line).args = none →
    SubCommandOK u e (splitCommand u line).args → SubCommandOK u e line

theorem subCommandOK_onbuild (hcmd : (splitCommand u line).cmd = str "onbuild")
    (hargs : (splitCommand u line).args ≠ []) :
    SubCommandOK u e line ↔ stripComments (splitCommand u line).args ≠ [] ∧
      continuation e (splitCommand u line).args = none ∧
        SubCommandOK u e (splitCommand u line).args := by
  constructor
  · intro h
    cases h with
    | other hne => exact absurd hcmd hne
    | empty hempty => exact absurd hempty hargs
    | sub hcomment hcontinuation hsub => exact ⟨hcomment, hcontinuation, hsub⟩
  · rintro ⟨hcomment, hcontinuation, hsub⟩
    exact .sub hcomment hcontinuation hsub

/-- The node of a line has no nil child just if the arguments of its `ONBUILD`s are instructions. -/
theorem instruction_noNilChild (h : instruction cx e line = .ok (rest, some n)) :
    n.NoNilChild ↔ SubCommandOK cx.tables e line := by
  induction hk : line.length using Nat.strong_induction_on generalizing line rest n with
  | _ k ih =>
    subst hk
    obtain ⟨-, -, sexp, hsexp, rfl⟩ := instruction_some h
    rw [Node.noNilChild_of_nil rfl]
    by_cases hcmd : (splitCommand cx.tables line).cmd = str "onbuild"
    · have hlt : (splitCommand cx.tables line).args.length < line.length :=
        length_args_lt (by rw [hcmd]; decide)
      rw [hcmd, fullDispatch_onbuild, parseSubCommand] at hsexp
      split at hsexp
      · next hargs =>
        cases hsexp
        exact ⟨fun _ => .empty hargs, fun _ _ hm => by cases hm⟩
      · next hargs =>
        cases hchild : instruction cx e (splitCommand cx.tables line).args with
        | error err =>
          rw [hchild] at hsexp
          cases hsexp
        | ok r =>
          obtain ⟨rest', child⟩ := r
          rw [hchild] at hsexp
          cases hsexp
          have hnode := Node.noNilChild_singleton (n := { children := [child] }) rfl rfl
          have hnext : (∀ m, some ({ children := [child] } : Node) = some m → m.NoNilChild) ↔
            ∃ m, child = some m ∧ m.NoNilChild :=
            ⟨fun h => hnode.1 (h _ rfl), fun h m hm => Option.some.inj hm ▸ hnode.2 h⟩
          refine hnext.trans ?_
          rw [subCommandOK_onbuild hcmd hargs]
          cases child with
          | none =>
            refine ⟨by simp, fun hok => ?_⟩
            obtain ⟨hcomment, hcontinuation, -⟩ := hok
            rcases instruction_none hchild with ⟨hnil, -⟩ | ⟨-, hsome⟩
            · exact absurd hnil hcomment
            · rw [hcontinuation] at hsome
              cases hsome
          | some child =>
            obtain ⟨hcomment, hcontinuation, -⟩ := instruction_some hchild
            have hsub := ih _ hlt hchild rfl
            constructor
            · rintro ⟨m, hm, hnoNil⟩
              cases hm
              exact ⟨hcomment, hcontinuation, hsub.1 hnoNil⟩
            · rintro ⟨-, -, hok⟩
              exact ⟨child, rfl, hsub.2 hok⟩
    · exact ⟨fun _ => .other hcmd, fun _ => fullDispatch_of_ne hcmd hsexp⟩

end

/-! ## A run of `Parse` -/

section
variable {cx : Context} {d d' : Directive} {st st' : ParseState}

theorem parseLine_cases (h : parseLine cx d line = .ok (d', rest, child)) :
    d.lookingForDirectives = true ∧ rest = [] ∧ child = none ∧ d'.lookingForDirectives = true ∨
    d' = { d with lookingForDirectives := false } ∧ instruction cx d.escapeToken line =
      .ok (rest, child) := by
  rw [parseLine] at h
  split at h
  · next s hs =>
    have hlooking : d.lookingForDirectives = true := by
      by_contra hnot
      rw [if_neg hnot] at hs
      cases hs
    split at h
    · cases h
    · cases hset : setEscapeToken s with
      | error err =>
        rw [hset] at h
        cases h
      | ok e =>
        rw [hset] at h
        cases h
        exact .inl ⟨hlooking, rfl, rfl, hlooking⟩
  · cases hinstr : instruction cx d.escapeToken line with
    | error err =>
      rw [hinstr] at h
      cases h
    | ok r =>
      rw [hinstr] at h
      cases h
      exact .inr ⟨rfl, rfl⟩

/-- The children are nodes of lines, parsed with the escape token that is still set. -/
structure Parsed (cx : Context) (st : ParseState) : Prop where
  next : st.root.next = none
  looking : st.directive.lookingForDirectives = true → st.root.children = []
  children : ∀ c ∈ st.root.children, ∃ n s t, c = some { n with startLine := s, endLine := t } ∧
    ∃ rest, instruction cx st.directive.escapeToken n.original = .ok (rest, some n)

namespace Parsed

theorem init (d : Directive) : Parsed cx { directive := d } := ⟨rfl, fun _ => rfl, nofun⟩

theorem of_root (h : Parsed cx st) : Parsed cx { st with currentLine := n, loop := loop } :=
  ⟨h.next, h.looking, h.children⟩

theorem directive (h : Parsed cx st)
    (hline : parseLine cx st.directive line = .ok (d', rest, child)) :
    Parsed cx { st with directive := d' } := by
  rcases parseLine_cases hline with ⟨hlooking, -, -, -⟩ | ⟨rfl, -⟩
  · have hnil := h.looking hlooking
    exact ⟨h.next, fun _ => hnil, fun c hc => absurd hc (by rw [hnil]; exact not_mem_nil)⟩
  · exact ⟨h.next, nofun, h.children⟩

theorem parseLine (h : Parsed cx st) (hst : st.parseLine cx line startLine more = .ok st') :
    Parsed cx st' := by
  obtain ⟨⟨d', rest, child⟩, hline, hst⟩ := bind_eq_ok.1 hst
  dsimp only at hst
  split at hst
  · cases hst
    exact (h.directive hline).of_root
  · cases hst
    cases child with
    | none => exact (h.directive hline).of_root
    | some child =>
      rcases parseLine_cases hline with ⟨-, -, hchild, -⟩ | ⟨rfl, hinstr⟩
      · cases hchild
      · obtain ⟨-, -, sexp, -, hchild⟩ := instruction_some hinstr
        have horiginal : child.original = line := by rw [hchild]; rfl
        refine ⟨h.next, nofun, fun c hc => ?_⟩
        rcases mem_append.1 hc with hc | hc
        · exact h.children c hc
        · exact ⟨child, _, _, mem_singleton.1 hc, rest, by rw [horiginal]; exact hinstr⟩

theorem scanned (h : Parsed cx st) (hst : st.scanned cx token = .ok st') : Parsed cx st' := by
  rw [ParseState.scanned.eq_def] at hst
  split at hst
  · cases hst
    exact h
  · cases hst
    exact h.of_root
  · refine Parsed.parseLine ?_ hst
    exact h.of_root
  · split at hst
    · exact h.parseLine hst
    · cases hst
      exact h.of_root
  · split at hst
    · cases hst
      exact h.of_root
    · exact h.of_root.parseLine hst

theorem readTokens (h : Parsed cx st) (hst : readTokens cx st tokens = .ok st') : Parsed cx st' :=
  foldlM_inv scanned h hst

end Parsed

end

/-- The tree has no nil child just if the argument of every `ONBUILD` is an instruction. -/
theorem parse_noNilChild (cx : Context) (d : Directive) (file : Bytes) (st : ParseState)
    (h : parse cx d file = .ok st) :
    st.root.NoNilChild ↔ ∀ c ∈ st.root.children, ∃ n, c = some n ∧
      SubCommandOK cx.tables st.directive.escapeToken n.original := by
  have hparsed : Parsed cx st := (Parsed.init d).readTokens h
  have hchild : ∀ c ∈ st.root.children, ∃ n, c = some n ∧
      (n.NoNilChild ↔ SubCommandOK cx.tables st.directive.escapeToken n.original) := by
    intro c hc
    obtain ⟨n, s, t, rfl, rest, hinstr⟩ := hparsed.children c hc
    refine ⟨_, rfl, Iff.trans ?_ (instruction_noNilChild hinstr)⟩
    rw [Node.noNilChild_iff, Node.noNilChild_iff]
  rw [Node.noNilChild_iff]
  constructor
  · rintro ⟨-, -, hnoNil⟩ c hc
    obtain ⟨n, rfl, hiff⟩ := hchild c hc
    exact ⟨n, rfl, hiff.1 (hnoNil n hc)⟩
  · intro hok
    refine ⟨fun hnone => ?_, fun m hm => ?_, fun m hm => ?_⟩
    · obtain ⟨n, hn, -⟩ := hok none hnone
      cases hn
    · rw [hparsed.next] at hm
      cases hm
    · obtain ⟨n, hn, hiff⟩ := hchild _ hm
      obtain ⟨n', hn', hsub⟩ := hok _ hm
      cases hn
      cases hn'
      exact hiff.2 hsub

def plain : Context := ⟨asciiTables, fun _ => none⟩

theorem parse_noNilChild_onbuild : ∃ st, parse plain {} (str "ONBUILD RUN foo") = .ok st ∧
    st.root.NoNilChild := by
  obtain ⟨st, hst, heval⟩ : ∃ st, parse plain {} (str "ONBUILD RUN foo") = .ok st ∧
      decide (st.directive.escapeToken = .backslash ∧
        ∀ c ∈ st.root.children.map (Option.map Node.original),
        c = some (str "ONBUILD RUN foo")) = true :=
    exists_of_any (by decide +kernel)
  obtain ⟨hescape, horiginal⟩ := of_decide_eq_true heval
  refine ⟨st, hst, (parse_noNilChild plain {} _ st hst).2 fun c hc => ?_⟩
  obtain ⟨n, rfl, hn⟩ := Option.map_eq_some_iff.1 (horiginal _ (List.mem_map_of_mem hc))
  refine ⟨n, rfl, ?_⟩
  rw [hescape, hn]
  exact .sub (by decide +kernel) (by decide +kernel) (.other (by decide +kernel))

/-- A comment behind `ONBUILD` makes a nil child. -/
theorem parse_onbuild_comment : ∃ st, parse plain {} (str "ONBUILD # foo") = .ok st ∧
    ¬st.root.NoNilChild := by
  obtain ⟨st, hst, heval⟩ : ∃ st, parse plain {} (str "ONBUILD # foo") = .ok st ∧
      (st.root.children.any fun c => c.any fun n => n.next.any fun m =>
        m.children.any isNone) = true :=
    exists_of_any (by decide +kernel)
  refine ⟨st, hst, fun hnoNil => ?_⟩
  obtain ⟨c, hc, hn⟩ := any_eq_true.1 heval
  obtain ⟨n, rfl, hm⟩ := (any_eq_true _ _).1 hn
  obtain ⟨m, hnext, hchildren⟩ := (any_eq_true _ _).1 hm
  obtain ⟨child, hchild, hnone⟩ := any_eq_true.1 hchildren
  rw [isNone_iff_eq_none.1 hnone] at hchild
  exact hnoNil m (.child hc (.next hnext (.refl m))) hchild

end Docker.Dockerfile
