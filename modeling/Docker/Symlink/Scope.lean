import Docker.Lib.Filepath
import Docker.Lib.Prog

/-!
# Following symlinks in a scope

`evalSymlinksInScope` in `pkg/symlink/fs.go` on Unix, as a program that calls `os.Lstat` and
`os.Readlink`. What has been followed so far is kept in the buffer `b`, as text that can have `..`
in it; `position` is the place below the root it stands for. Every element is looked up at its place
below the root before it is written to `b`.
-/

namespace Docker.Symlink

open Filepath Prog List

inductive Call where
  | lstat (path : Str)
  | readlink (path : Str)

inductive Stat where
  | notExist
  | failed (errno : Nat)
  | symlink
  | other
  deriving DecidableEq

abbrev Answer : Call → Type
  | .lstat _ => Stat
  | .readlink _ => Except Nat Str

structure Files where
  lstat : Str → Stat
  readlink : Str → Except Nat Str

def Files.answer (fs : Files) : (c : Call) → Answer c
  | .lstat path => fs.lstat path
  | .readlink path => fs.readlink path

inductive Error where
  /-- `path` is not in `root` -/
  | notIn (path root : Str)
  | tooManyLinks (originalPath : Str)
  | errno (e : Nat)

abbrev Act (α : Type) := ExceptT Error (Prog Call Answer) α

def lstat (path : Str) : Act Stat := ask (Call.lstat path)

def readlink (path : Str) : Act (Except Nat Str) := ask (Call.readlink path)

def maxIter : Nat := 255

/-- One turn of the loop: from `path` and `b` to what they are at the end of it. -/
def turn (root path b : Str) : Act (Str × Str) :=
  let p := path.takeWhile (· != '/')
  let path := (path.dropWhile (· != '/')).drop 1
  if p = [] then pure (path, b)
  else
    let cleanP := clean ('/' :: (b ++ p))
    -- never `Lstat` the root itself
    if cleanP = ['/'] then pure (path, [])
    else do
      let fullP := clean (root ++ cleanP)
      match ← lstat fullP with
      | .notExist => pure (path, b ++ p ++ ['/'])
      | .failed e => throw (.errno e)
      | .other => pure (path, b ++ p ++ ['/'])
      | .symlink =>
        match ← readlink fullP with
        | .error e => throw (.errno e)
        | .ok dest => pure (dest ++ '/' :: path, if isAbs dest then [] else b)

/-- The loop with `n` turns left to `maxIter`. -/
def follow (root originalPath : Str) : Nat → Str × Str → Act Str
  | 0, (path, b) => if path = [] then pure b else throw (.tooManyLinks originalPath)
  | n + 1, (path, b) =>
    if path = [] then pure b else turn root path b >>= follow root originalPath n

/-- The path from the root on: for the root `/a` it is `/b/../../c` for `/a/b/../../c`. -/
def pathInScope (root path : Str) : Str :=
  if root = ['/'] then '/' :: path.drop root.length else path.drop root.length

def evalSymlinksInScope (path root : Str) : Act Str :=
  let root := clean root
  if path = root then pure path
  else if hasPrefix path root = false then throw (.notIn path root)
  else if hasPrefix (pathInScope root path) ['/'] =
    false then throw (.notIn (pathInScope root path) root)
  else do
    let b ← follow root path (maxIter + 1) (clean (pathInScope root path), [])
    pure (clean (root ++ clean ('/' :: b)))

/-! ## The buffer -/

/-- The place below the root that the buffer stands for. -/
def position (b : Str) : List Str := resolve true [] (('/' :: b).splitOn '/')

/-- The buffer is empty or ends in a slash. -/
def Closed (b : Str) : Prop := ∃ c, '/' :: b = c ++ ['/']

variable {root path originalPath b p dest : Str}

theorem closed_nil : Closed [] := ⟨[], rfl⟩

theorem closed_append : Closed (b ++ p ++ ['/']) := ⟨'/' :: (b ++ p), rfl⟩

theorem clean_slash : clean ('/' :: b) = print true (position b) := rfl

theorem position_isName : ∀ c ∈ position b, IsName c :=
  resolve_isName (fun _ => slash_notMem_of_mem_splitOn) (by simp [Names])

theorem Closed.exists_position (h : Closed b) :
    ∃ c, '/' :: b = c ++ ['/'] ∧ position b = resolve true [] (c.splitOn '/') := by
  obtain ⟨c, hc⟩ := h
  refine ⟨c, hc, ?_⟩
  rw [position, hc, splitOn_cons_slash, resolve_append, splitOn_nil, resolve_cons_nil, resolve_nil]

theorem Closed.clean_append (h : Closed b) (hp : '/' ∉ p) :
    clean ('/' :: (b ++ p)) = print true (resolve true (position b) [p]) := by
  obtain ⟨c, hc, hb⟩ := h.exists_position
  have hsplit : ('/' :: (b ++ p)).splitOn '/' = c.splitOn '/' ++ [p] := by
    rw [← cons_append, hc, append_assoc, singleton_append, splitOn_cons_slash, splitOn_name hp]
  rw [hb, ← resolve_append, ← hsplit]
  rfl

theorem Closed.position_append (h : Closed b) (hp : '/' ∉ p) :
    position (b ++ p ++ ['/']) = resolve true (position b) [p] := by
  obtain ⟨c, hc, hb⟩ := h.exists_position
  have hsplit : ('/' :: (b ++ p ++ ['/'])).splitOn '/' = c.splitOn '/' ++ [p] ++ [[]] := by
    rw [← cons_append, splitOn_cons_slash, ← cons_append, hc, append_assoc, singleton_append,
      splitOn_cons_slash, splitOn_name hp, splitOn_nil]
  rw [position, hsplit, resolve_append, resolve_append, ← hb, resolve_cons_nil, resolve_nil]

/-- A place below the root, as the path that is handed to the file system. -/
theorem clean_below (hrs : Names rs) (hds : Names ds) :
    clean (print true rs ++ print true ds) = print true (rs ++ ds) := by
  have hjoin := join_print hrs (p := ['/'].intercalate ds)
  rw [join, if_pos print_ne_nil, ← print_true] at hjoin
  rw [hjoin]
  by_cases hne : ds = []
  · subst hne
    simp
  · rw [splitOn_intercalate (fun c hc => (hds c hc).slash) hne, resolve_names hds]

/-! ## What was looked up -/

/-- `P` holds of every path from the root, which is left out, to the place `ds` below it. -/
def Along (P : Str → Prop) (rs ds : List Str) : Prop :=
  ∀ xs, xs <+: ds → xs ≠ [] → P (print true (rs ++ xs))

variable {P : Str → Prop}

theorem along_nil : Along P rs [] := fun _ hxs hne => absurd (prefix_nil.1 hxs) hne

theorem Along.resolve (h : Along P rs ds) (hds : Names ds) (hp : '/' ∉ p)
    (hP : P (print true (rs ++ resolve true ds [p]))) : Along P rs (resolve true ds [p]) := by
  intro xs hxs hne
  rcases resolve_singleton_cases hp hds with hup | hdown
  · exact h xs (hxs.trans hup) hne
  · rw [hdown] at hxs hP
    rcases prefix_concat_iff.1 hxs with rfl | hxs
    · exact hP
    · exact h xs hxs hne

structure Followed (P : Str → Prop) (rs : List Str) (b : Str) : Prop where
  closed : Closed b
  along : Along P rs (position b)

theorem followed_nil : Followed P rs [] := ⟨closed_nil, along_nil⟩

theorem Followed.write (h : Followed P rs b) (hp : '/' ∉ p) (hrs : Names rs)
    (hP : P (clean (print true rs ++ clean ('/' :: (b ++ p))))) :
    Followed P rs (b ++ p ++ ['/']) := by
  have hnames : ∀ c ∈ Filepath.resolve true (position b) [p], IsName c :=
    resolve_isName (by simpa using hp) position_isName
  rw [h.closed.clean_append hp, clean_below hrs hnames] at hP
  refine ⟨closed_append, ?_⟩
  rw [h.closed.position_append hp]
  exact h.along.resolve position_isName hp hP

section
variable {ok : (c : Call) → Answer c → Prop}
variable (hok : ∀ q r, ok (.lstat q) r → r ≠ .symlink → P q) (hrs : Names rs)
include hok hrs

theorem Followed.turn (h : Followed P rs b) :
    Safe ok (fun _ => True) (turn (print true rs) path b) fun (_, b') => Followed P rs b' := by
  have hp : '/' ∉ path.takeWhile (· != '/') := fun hmem => by simpa using mem_takeWhile_imp hmem
  simp only [Symlink.turn]
  split
  · exact h
  split
  · exact followed_nil
  rw [safe_bind, lstat, safe_ask]
  refine ⟨trivial, fun r hr => ?_⟩
  cases r with
  | failed e => trivial
  | notExist | other => exact h.write hp hrs (hok _ _ hr nofun)
  | symlink =>
    rw [safe_bind, readlink, safe_ask]
    refine ⟨trivial, fun dest _ => ?_⟩
    cases dest with
    | error e => trivial
    | ok dest =>
      rw [safe_pure]
      split
      · exact followed_nil
      · exact h

theorem Followed.follow (h : Followed P rs b) :
    Safe ok (fun _ => True) (follow (print true rs) originalPath n (path, b)) (Followed P rs) := by
  induction n generalizing path b with
  | zero =>
    unfold Symlink.follow
    split
    · exact h
    · trivial
  | succ n ih =>
    unfold Symlink.follow
    split
    · exact h
    · rw [safe_bind]
      exact (h.turn hok hrs).mono fun _ h' => ih h'

theorem safe_evalSymlinksInScope (hroot : clean root = print true rs) :
    Safe ok (fun _ => True) (evalSymlinksInScope path root) fun p =>
      ∃ ds, p = print true (rs ++ ds) ∧ (Names ds) ∧ Along P rs ds := by
  simp only [evalSymlinksInScope, hroot]
  split
  · next hpath => exact ⟨[], by simpa using hpath, by simp [Names], along_nil⟩
  split
  · trivial
  split
  · trivial
  rw [safe_bind]
  refine (followed_nil.follow hok hrs).mono fun b hb => ?_
  exact ⟨position b, by rw [clean_slash, clean_below hrs position_isName],
    position_isName, hb.along⟩

end

/-! ## The number of links -/

def Call.isReadlink : Call → Bool
  | .lstat _ => false
  | .readlink _ => true

open Call

theorem atMost_bind {f : α → Act β} (hx : x.run.AtMost isReadlink m)
    (hf : ∀ a, (f a).run.AtMost isReadlink n) : (x >>= f).run.AtMost isReadlink (m + n) := by
  refine hx.bind fun r => ?_
  cases r with
  | error e => trivial
  | ok a => exact hf a

theorem atMost_lstat : (lstat path).run.AtMost isReadlink 0 := ⟨Nat.le_refl 0, fun _ => trivial⟩

theorem atMost_readlink : (readlink path).run.AtMost isReadlink 1 :=
  ⟨Nat.le_refl 1, fun _ => trivial⟩

theorem atMost_turn : (turn root path b).run.AtMost isReadlink 1 := by
  simp only [turn]
  split
  · trivial
  split
  · trivial
  refine atMost_bind (n := 1) atMost_lstat fun r => ?_
  cases r with
  | failed e => trivial
  | notExist => trivial
  | other => trivial
  | symlink =>
    refine atMost_bind (n := 0) atMost_readlink fun dest => ?_
    cases dest <;> trivial

theorem atMost_follow (v : Str × Str) : (follow root originalPath n v).run.AtMost isReadlink n := by
  induction n generalizing v with
  | zero =>
    unfold follow
    split <;> trivial
  | succ n ih =>
    unfold follow
    split
    · trivial
    · rw [Nat.add_comm n 1]
      exact atMost_bind atMost_turn ih

theorem turn_slash : turn root ('/' :: path) b = pure (path, b) := by simp [turn]

theorem atMost_evalSymlinksInScope :
    (evalSymlinksInScope path root).run.AtMost isReadlink maxIter := by
  simp only [evalSymlinksInScope]
  split
  · trivial
  split
  · trivial
  split
  · trivial
  next hslash =>
  obtain ⟨rest, hrest⟩ : ∃ rest, clean (pathInScope (clean root) path) = '/' :: rest := by
    rw [Bool.not_eq_false, hasPrefix_iff] at hslash
    obtain ⟨t, ht⟩ := hslash
    rw [← ht]
    exact ⟨_, rfl⟩
  refine atMost_bind (n := 0) ?_ fun b => trivial
  -- the path starts with a slash, so there is no link in the first turn
  rw [hrest, follow, if_neg (cons_ne_nil _ _), turn_slash]
  exact atMost_follow (rest, [])

/-! ## Confinement -/

/-- `p` is the directory `d`, which is a cleaned path, or lies below it. -/
def within (d p : Str) : Bool := p == d || hasPrefix p (if d = ['/'] then d else d ++ ['/'])

theorem within_print (hrs : Names rs) (hds : Names ds) :
    within (print true rs) (print true (rs ++ ds)) = true := by
  by_cases hne : rs = []
  · subst hne
    simp [within, print_true, hasPrefix]
  · have hin := (inside_print hrs (List.forall_mem_append.2 ⟨hrs, hds⟩) hne).2 (prefix_append rs ds)
    rwa [within, if_neg (print_ne_root hrs hne)]

theorem eq_print_of_within (hrs : Names rs) (hds : Names ds) (hq : within (print true rs) q = true)
    (hne : q ≠ print true rs) (hp : inside q (print true (rs ++ ds)) = true) :
    ∃ xs, xs <+: ds ∧ xs ≠ [] ∧ q = print true (rs ++ xs) := by
  have hall : ∀ c ∈ rs ++ ds, IsName c := List.forall_mem_append.2 ⟨hrs, hds⟩
  rcases eq_print_of_inside (fun c hc => (hall c hc).slash) hp with rfl | ⟨ys, hys, rfl⟩
  · simp only [within, Bool.or_eq_true, beq_iff_eq, hasPrefix_iff, prefix_nil] at hq
    rcases hq with hq | hq
    · exact absurd hq.symm print_ne_nil
    · split at hq <;> simp at hq
  · have hyn : Names ys := fun c hc => hall c (hys.mem hc)
    have hpre : rs <+: ys := by
      by_cases hr : rs = []
      · exact hr ▸ nil_prefix
      · rw [within, if_neg (print_ne_root hrs hr)] at hq
        exact (inside_print hrs hyn hr).1 hq
    obtain ⟨xs, rfl⟩ := hpre
    refine ⟨xs, (prefix_append_right_inj rs).1 hys, ?_, rfl⟩
    rintro rfl
    exact hne (by rw [append_nil])

/-- Whatever the file system answers, the result is cleaned, absolute, and the root or below it. If
the answers do not change, there is no symlink from the root to the result. At most `maxIter` links
are followed. -/
theorem evalSymlinksInScope_within (path root : Str) (hroot : isAbs root = true) :
    (∀ (σ : Type) (answer : (c : Call) → σ → Answer c × σ) (s : σ) (p : Str),
      ((evalSymlinksInScope path root).run.exec answer s).1 = .ok p →
        isAbs p = true ∧ clean p = p ∧ within (clean root) p = true) ∧
    (∀ (fs : Files) (p q : Str), ((evalSymlinksInScope path root).run.exec
      (fun c s => (fs.answer c, s)) ()).1 = .ok p →
      within (clean root) q = true → q ≠ clean root → inside q p = true → fs.lstat q ≠ .symlink) ∧
    ∀ cs, (evalSymlinksInScope path root).run.Makes (fun _ _ => True) cs →
      cs.countP Call.isReadlink ≤ maxIter := by
  obtain ⟨rs, hrs, hclean⟩ : ∃ rs, (∀ c ∈ rs, IsName c) ∧ clean root = print true rs :=
    ⟨resolve true [] (root.splitOn '/'), resolve_isName (fun _ => slash_notMem_of_mem_splitOn)
      (by simp [Names]),
      by rw [clean, hroot]⟩
  refine ⟨fun σ answer s p h => ?_, fun fs p q h hq hne hp hlink => ?_, fun cs h => ?_⟩
  · have hsafe : Safe (fun _ _ => True) (fun _ => True) (evalSymlinksInScope path root) _ :=
      safe_evalSymlinksInScope (fun _ _ _ _ => trivial) hrs hclean
    obtain ⟨ds, rfl, hds, -⟩ := hsafe.of_exec h fun _ _ => trivial
    rw [hclean]
    exact ⟨isAbs_print, clean_print (List.forall_mem_append.2 ⟨hrs, hds⟩), within_print hrs hds⟩
  · have hsafe : Safe (fun c r => r = fs.answer c) (fun _ => True)
        (evalSymlinksInScope path root) _ :=
      safe_evalSymlinksInScope
        (fun q r (hr : r = fs.lstat q) hno => hr ▸ hno) hrs hclean
    obtain ⟨ds, rfl, hds, halong⟩ := hsafe.of_exec h fun _ _ => rfl
    rw [hclean] at hq hne
    obtain ⟨xs, hxs, hxne, rfl⟩ := eq_print_of_within hrs hds hq hne hp
    exact halong xs hxs hxne hlink
  · exact atMost_evalSymlinksInScope.countP_le h

/-- A link that leads up and out of the root. -/
def linkUp : Files where
  lstat path := if path = "/r/l".toList then .symlink else .other
  readlink _ := .ok "../../etc".toList

theorem evalSymlinksInScope_within_linkUp : isAbs "/r".toList = true ∧
      ((evalSymlinksInScope "/r/l/x".toList "/r".toList).run.exec
        (fun c s => (linkUp.answer c, s)) ()).1 =
        .ok "/r/etc/x".toList ∧
      within "/r".toList "/r/etc/x".toList = true ∧ linkUp.lstat "/r/etc".toList ≠ .symlink :=
  have h := evalSymlinksInScope_within "/r/l/x".toList "/r".toList rfl
  ⟨rfl, rfl, (h.1 Unit (fun c s => (linkUp.answer c, s)) () _ rfl).2.2,
    h.2.1 linkUp _ _ rfl rfl (by decide) rfl⟩

/-- The root is cleaned first, and there is no separator between the root `/` and what is below. -/
theorem evalSymlinksInScope_not_inside :
    (((evalSymlinksInScope "/x".toList "/".toList).run.exec
      (fun c s => (linkUp.answer c, s)) ()).1 =
        .ok "/x".toList ∧ inside "/".toList "/x".toList = false) ∧
      ((evalSymlinksInScope "/a/x".toList "/a/".toList).run.exec
        (fun c s => (linkUp.answer c, s)) ()).1 =
        .ok "/a/x".toList ∧ inside "/a/".toList "/a/x".toList = false :=
  ⟨⟨rfl, rfl⟩, rfl, rfl⟩

end Docker.Symlink
