import Mathlib

/-!
# Slash-separated paths

The lexical path functions of Go's `path/filepath` on Unix. A byte of a path is the character with
that code. Every cleaned path is `print` of its elements, so the functions are described by what
they do to lists of elements.
-/

namespace Filepath

open List

abbrev Str := List Char

instance : LawfulBEq Str := inferInstance

def dot : Str := ['.']
def dotdot : Str := ['.', '.']

def isAbs (p : Str) : Bool := p.head? == some '/'

def hasPrefix (s pre : Str) : Bool := pre.isPrefixOf s

/-- One more element after the cleaned elements `acc`, the last of which comes first. -/
def push (rooted : Bool) (acc : List Str) (c : Str) : List Str :=
  if c = [] ∨ c = dot then acc
  else if c = dotdot then
    match acc with
    | [] => if rooted then [] else [dotdot]
    | x :: xs => if x = dotdot then dotdot :: x :: xs else xs
  else c :: acc

/-- The cleaned elements `cs` followed by the elements `ds`. -/
def resolve (rooted : Bool) (cs ds : List Str) : List Str :=
  (ds.foldl (push rooted) cs.reverse).reverse

def print (rooted : Bool) (cs : List Str) : Str :=
  if rooted then '/' :: ['/'].intercalate cs
  else if cs = [] then dot
  else ['/'].intercalate cs

def clean (p : Str) : Str := print (isAbs p) (resolve (isAbs p) [] (p.splitOn '/'))

def join (a b : Str) : Str :=
  if a ≠ [] then clean (a ++ '/' :: b) else if b ≠ [] then clean b else []

def dir (p : Str) : Str := clean (p.rdropWhile (· != '/'))

def base (p : Str) : Str :=
  if p = [] then dot
  else
    let b := (p.rdropWhile (· == '/')).rtakeWhile (· != '/')
    if b = [] then ['/'] else b

def elements (p : Str) : List Str := (p.splitOn '/').filter fun c => c ≠ [] ∧ c ≠ dot

/-- Both lists without their longest common beginning. -/
def dropCommon : List Str → List Str → List Str × List Str
  | [], ts => ([], ts)
  | b :: bs, [] => (b :: bs, [])
  | b :: bs, t :: ts => if b = t then dropCommon bs ts else (b :: bs, t :: ts)

def rel (b t : Str) : Option Str :=
  let b := clean b
  let t := clean t
  if t = b then some dot
  else if isAbs b ≠ isAbs t then none
  else
    let (bs, ts) := dropCommon (elements b) (elements t)
    if bs.head? = some dotdot then none
    else some (['/'].intercalate (bs.map (fun _ => dotdot) ++ ts))

structure IsName (c : Str) : Prop where
  ne_nil : c ≠ []
  ne_dot : c ≠ dot
  ne_dotdot : c ≠ dotdot
  slash : '/' ∉ c

abbrev Names (cs : List Str) : Prop := ∀ c ∈ cs, IsName c

variable {c d p t : Str} {cs ds xs ys : List Str} {r : Bool}

theorem hasPrefix_iff : hasPrefix p c = true ↔ c <+: p := isPrefixOf_iff_prefix

/-! ## Elements -/

theorem splitOn_cons_slash (p q : Str) :
    (p ++ '/' :: q).splitOn '/' = p.splitOn '/' ++ q.splitOn '/' :=
  splitOnP_append_cons p q (beq_self_eq_true '/')

theorem splitOn_intercalate (h : ∀ c ∈ cs, '/' ∉ c) (hne : cs ≠ []) :
    (['/'].intercalate cs).splitOn '/' = cs :=
  List.splitOn_intercalate '/' h hne

theorem intercalate_append (hx : xs ≠ []) (hy : ys ≠ []) :
    ['/'].intercalate (xs ++ ys) = ['/'].intercalate xs ++ '/' :: ['/'].intercalate ys := by
  induction xs with
  | nil => exact absurd rfl hx
  | cons x xs ih =>
    cases xs with
    | nil =>
      obtain ⟨y, ys, rfl⟩ := exists_cons_of_ne_nil hy
      simp [intercalate_cons_cons]
    | cons x' xs =>
      have h := ih (cons_ne_nil x' xs)
      simp only [cons_append] at h ⊢
      simp [intercalate_cons_cons, h]

theorem intercalate_ne_nil (hx : ∀ c ∈ xs, c ≠ []) (hxn : xs ≠ []) : ['/'].intercalate xs ≠ [] := by
  obtain ⟨x, xs, rfl⟩ := exists_cons_of_ne_nil hxn
  cases xs <;> simp_all [intercalate_cons_cons]

@[simp] theorem push_nil (acc : List Str) : push r acc [] = acc := by simp [push]

@[simp] theorem push_dot (acc : List Str) : push r acc dot = acc := by simp [push]

theorem push_name (h : IsName c) (acc : List Str) : push r acc c = c :: acc := by
  simp [push, h.ne_nil, h.ne_dot, h.ne_dotdot]

theorem foldl_push_names (h : Names cs) (acc : List Str) :
    cs.foldl (push r) acc = cs.reverse ++ acc := by
  induction cs generalizing acc with
  | nil => rfl
  | cons c cs ih =>
    rw [foldl_cons, push_name (h c mem_cons_self), ih fun d hd => h d (mem_cons_of_mem _ hd)]
    simp

@[simp] theorem resolve_nil : resolve r cs [] = cs := by simp [resolve]

theorem resolve_append : resolve r cs (xs ++ ys) = resolve r (resolve r cs xs) ys := by
  simp [resolve, foldl_append]

@[simp] theorem resolve_cons_nil : resolve r cs ([] :: ds) = resolve r cs ds := by simp [resolve]

@[simp] theorem resolve_cons_dot : resolve r cs (dot :: ds) = resolve r cs ds := by simp [resolve]

theorem resolve_names (h : Names ds) : resolve r cs ds = cs ++ ds := by
  simp [resolve, foldl_push_names h]

theorem push_isName (hc : '/' ∉ c) (h : Names cs) : ∀ x ∈ push true cs c, IsName x := by
  unfold push
  split
  · exact h
  split
  · cases cs with
    | nil => simp
    | cons y ys =>
      simp only [if_neg (h y mem_cons_self).ne_dotdot]
      exact fun x hx => h x (mem_cons_of_mem _ hx)
  · next h₁ h₂ =>
    rw [not_or] at h₁
    simp only [List.mem_cons, forall_eq_or_imp]
    exact ⟨⟨h₁.1, h₁.2, h₂, hc⟩, h⟩

theorem resolve_isName (hds : ∀ c ∈ ds, '/' ∉ c) (h : Names cs) :
    ∀ x ∈ resolve true cs ds, IsName x := by
  induction ds generalizing cs with
  | nil => simpa using h
  | cons d ds ih =>
    have hd : ∀ x ∈ (push true cs.reverse d).reverse, IsName x := by
      have hr : ∀ x ∈ cs.reverse, IsName x := by simpa using h
      simpa using push_isName (hds d mem_cons_self) hr
    simpa [resolve] using ih (fun c hc => hds c (mem_cons_of_mem _ hc)) hd

/-- One more element leads to a directory above or to an entry of the directory. -/
theorem resolve_singleton_cases (hc : '/' ∉ c) (h : Names cs) :
    resolve true cs [c] <+: cs ∨ resolve true cs [c] = cs ++ [c] := by
  by_cases hname : IsName c
  · exact .inr (resolve_names (by simpa [Names] using hname))
  left
  by_cases hdd : c = dotdot
  · subst hdd
    rcases List.eq_nil_or_concat cs with rfl | ⟨xs, x, rfl⟩
    · exact List.prefix_rfl
    · have hx : x ≠ dotdot := (h x (by simp)).ne_dotdot
      have hne : dotdot ≠ [] ∧ dotdot ≠ dot := by decide
      simp [resolve, push, hx, hne]
  · have : c = [] ∨ c = dot := by
      by_contra hno
      rw [not_or] at hno
      exact hname ⟨hno.1, hno.2, hdd, hc⟩
    rcases this with rfl | rfl <;> simp

theorem slash_notMem_of_mem_splitOn (h : c ∈ p.splitOn '/') : '/' ∉ c := by
  induction p generalizing c with
  | nil => simp_all
  | cons a p ih =>
    rw [splitOn, splitOnP_cons_eq_if_modifyHead] at h
    split at h
    · rcases mem_cons.1 h with rfl | h
      · simp
      · exact ih h
    · next ha =>
      change c ∈ (p.splitOn '/').modifyHead _ at h
      cases hp : p.splitOn '/' with
      | nil => simp [hp] at h
      | cons x xs =>
        rw [hp, modifyHead_cons, mem_cons] at h
        rcases h with rfl | h
        · have hx := ih (c := x) (by simp [hp])
          exact fun hm => (mem_cons.1 hm).elim (fun e => ha (beq_iff_eq.2 e.symm)) hx
        · exact ih (by simp [hp, h])

/-! ## Cleaned paths -/

@[simp] theorem isAbs_print : isAbs (print true cs) = true := by simp [isAbs, print]

theorem print_true : print true cs = '/' :: ['/'].intercalate cs := rfl

@[simp] theorem print_ne_nil : print true cs ≠ [] := by simp [print]

theorem splitOn_print : (print true cs).splitOn '/' = [] :: (['/'].intercalate cs).splitOn '/' :=
  splitOn_cons_slash [] _

theorem resolve_print (h : Names cs) : resolve r [] ((print true cs).splitOn '/') = cs := by
  by_cases hcs : cs = []
  · subst hcs; rfl
  · rw [splitOn_print, splitOn_intercalate (fun c hc => (h c hc).slash) hcs, resolve_cons_nil,
      resolve_names h]
    rfl

@[simp] theorem clean_print (h : Names cs) : clean (print true cs) = print true cs := by
  rw [clean, isAbs_print, resolve_print h]

theorem join_print (h : Names cs) :
    join (print true cs) p = print true (resolve true cs (p.splitOn '/')) := by
  have habs : isAbs (print true cs ++ '/' :: p) = true := rfl
  rw [join, if_pos print_ne_nil, clean, habs, splitOn_cons_slash, resolve_append, resolve_print h]

theorem splitOn_name (h : '/' ∉ c) : c.splitOn '/' = [c] := by
  have hs : ∀ d ∈ [c], '/' ∉ d := by simpa using h
  simpa using splitOn_intercalate hs (cons_ne_nil c [])

theorem join_name (h : Names cs) (hd : IsName d) :
    join (print true cs) d = print true (cs ++ [d]) := by
  rw [join_print h, splitOn_name hd.slash, resolve_names (by simpa [Names] using hd)]

/-- The last element of an absolute path is what follows its last slash. -/
theorem print_concat (h : Names cs) (d : Str) :
    ∃ q, print true (cs ++ [d]) = q ++ '/' :: d ∧ clean (q ++ ['/']) = print true cs := by
  by_cases hcs : cs = []
  · subst hcs
    exact ⟨[], by simp [print_true], rfl⟩
  · refine ⟨print true cs, ?_, ?_⟩
    · rw [print_true, print_true, intercalate_append hcs (by simp)]
      simp
    · have := join_print h (p := [])
      rwa [join, if_pos print_ne_nil, splitOn_nil, resolve_cons_nil, resolve_nil] at this

theorem dir_print (h : Names cs) : dir (print true cs) = print true cs.dropLast := by
  rcases eq_nil_or_concat cs with rfl | ⟨cs, d, rfl⟩
  · rfl
  · simp only [concat_eq_append] at h ⊢
    obtain ⟨q, hq, hclean⟩ := print_concat (fun c hc => h c (mem_append_left _ hc)) d
    have hd : ∀ a ∈ d, (a != '/') = true := fun a ha => by
      have := (h d (by simp)).slash
      exact bne_iff_ne.2 (fun e => this (e ▸ ha))
    rw [dir, hq, append_cons, rdropWhile, reverse_append,
      dropWhile_append_of_pos (by simpa using hd)]
    simpa using hclean

theorem base_print (h : Names cs) (hd : IsName d) : base (print true (cs ++ [d])) = d := by
  obtain ⟨q, hq, -⟩ := print_concat h d
  obtain ⟨d', a, hda⟩ := (eq_nil_or_concat d).resolve_left hd.ne_nil
  have hmem : ∀ a ∈ d, (a != '/') = true := fun a ha => bne_iff_ne.2 (fun e => hd.slash (e ▸ ha))
  have hlast : (q ++ '/' :: d).rdropWhile (· == '/') = q ++ '/' :: d := by
    rw [hda, concat_eq_append, ← cons_append, ← append_assoc, rdropWhile_concat_neg]
    simpa using hmem a (by simp [hda])
  have htake : (q ++ '/' :: d).rtakeWhile (· != '/') = d := by
    rw [append_cons, rtakeWhile, reverse_append, takeWhile_append_of_pos (by simpa using hmem)]
    simp
  rw [base, if_neg print_ne_nil, hq, hlast, htake, if_neg hd.ne_nil]

theorem print_inj (hx : Names xs) (hy : Names ys) (h : print true xs = print true ys) :
    xs = ys := by
  rw [← resolve_print (r := true) hx, h, resolve_print hy]

/-! ## Relative paths of names -/

theorem isAbs_intercalate (h : Names cs) (hne : cs ≠ []) (t : Str) :
    isAbs (['/'].intercalate cs ++ t) = false := by
  obtain ⟨c, cs, rfl⟩ := exists_cons_of_ne_nil hne
  have hc := h c mem_cons_self
  obtain ⟨a, c', rfl⟩ := exists_cons_of_ne_nil hc.ne_nil
  have ha : a ≠ '/' := fun e => hc.slash (e ▸ mem_cons_self)
  cases cs with
  | nil => simp [isAbs, ha]
  | cons d cs => simp [isAbs, intercalate_cons_cons, ha]

theorem clean_intercalate (h : Names cs) (hne : cs ≠ []) :
    clean (['/'].intercalate cs) = ['/'].intercalate cs := by
  have habs := isAbs_intercalate h hne []
  rw [List.append_nil] at habs
  rw [clean, habs, splitOn_intercalate (fun c hc => (h c hc).slash) hne, resolve_names h,
    List.nil_append, print,
    if_neg Bool.false_ne_true, if_neg hne]

theorem clean_intercalate_slash (h : Names cs) (hne : cs ≠ []) :
    clean (['/'].intercalate cs ++ ['/']) = ['/'].intercalate cs := by
  rw [clean, isAbs_intercalate h hne, splitOn_cons_slash,
    splitOn_intercalate (fun c hc => (h c hc).slash) hne,
    resolve_append, resolve_names h, List.nil_append, List.splitOn_nil, resolve_cons_nil,
      resolve_nil, print,
    if_neg Bool.false_ne_true, if_neg hne]

theorem join_intercalate (hx : Names xs) (h : Names cs) (hne : cs ≠ []) :
    join (print true xs) (['/'].intercalate cs) = print true (xs ++ cs) := by
  rw [join_print hx, splitOn_intercalate (fun c hc => (h c hc).slash) hne, resolve_names h]

theorem slash_notSuffix_intercalate (h : Names cs) (hne : cs ≠ []) :
    ['/'].isSuffixOf (['/'].intercalate cs) = false := by
  rw [Bool.eq_false_iff]
  intro hs
  obtain ⟨q, hq⟩ := isSuffixOf_iff_suffix.1 hs
  have hsplit := splitOn_intercalate (fun c hc => (h c hc).slash) hne
  rw [← hq, splitOn_cons_slash, splitOn_nil] at hsplit
  exact (h [] (hsplit ▸ by simp)).ne_nil rfl

theorem print_false : print false cs = if cs = [] then dot else ['/'].intercalate cs := rfl

theorem dir_concat (h : ∀ c ∈ cs ++ [d], IsName c) :
    dir (['/'].intercalate (cs ++ [d])) = print false cs := by
  have hcs : Names cs := fun c hc => h c (mem_append_left _ hc)
  have hd : ∀ a ∈ d, (a != '/') = true :=
    fun a ha => bne_iff_ne.2 fun e => (h d (by simp)).slash (e ▸ ha)
  rw [print_false]
  split
  · next hnil =>
    rw [hnil, nil_append, intercalate_singleton, dir, rdropWhile_eq_nil_iff.2 hd]
    rfl
  · next hnil =>
    rw [intercalate_append hnil (by simp), intercalate_singleton, dir, append_cons, rdropWhile,
      reverse_append, dropWhile_append_of_pos (by simpa using hd)]
    simpa using clean_intercalate_slash hcs hnil

theorem join_dir_intercalate (hx : Names xs) (h : Names cs) (hne : cs ≠ []) :
    join (print true xs) (dir (['/'].intercalate cs)) = print true (xs ++ cs.dropLast) := by
  obtain ⟨cs, d, rfl⟩ := (eq_nil_or_concat cs).resolve_left hne
  simp only [concat_eq_append] at h ⊢
  rw [dropLast_concat, dir_concat h, print_false]
  split
  · next hnil =>
    rw [hnil, join_print hx, append_nil]
    exact congrArg _ (resolve_cons_dot.trans resolve_nil)
  · next hnil => exact join_intercalate hx (fun c hc => h c (mem_append_left _ hc)) hnil

/-- What a path begins with up to its first slash is in its first element. -/
theorem hasPrefix_of_intercalate (hw : '/' ∉ w)
    (h : hasPrefix (['/'].intercalate (c :: cs)) w = true) :
    hasPrefix c w = true := by
  rw [hasPrefix, isPrefixOf_iff_prefix] at h ⊢
  cases cs with
  | nil => simpa using h
  | cons d cs =>
    rw [intercalate_cons_cons, append_assoc] at h
    rcases prefix_or_prefix_of_prefix h (prefix_append c _) with hp | ⟨q, rfl⟩
    · exact hp
    · rw [prefix_append_right_inj] at h
      cases q with
      | nil => simp
      | cons a q =>
        rw [singleton_append, cons_prefix_cons] at h
        simp [h.1] at hw

theorem print_ne_root (h : Names cs) (hne : cs ≠ []) : print true cs ≠ ['/'] := fun he =>
  hne (print_inj h (by simp : ∀ c ∈ ([] : List Str), IsName c) he)

theorem forall_mem_concat {P : Str → Prop} (h : ∀ c ∈ cs, P c) (hd : P d) :
    ∀ c ∈ cs ++ [d], P c := by
  simpa [or_imp, forall_and] using And.intro h hd

/-! ## What lies below a directory -/

/-- `p` is the path `d` or has `d` and a slash before it. -/
def inside (d p : Str) : Bool := p == d || hasPrefix p (d ++ ['/'])

theorem inside_print (hx : Names xs) (hy : Names ys) (hne : xs ≠ []) :
    inside (print true xs) (print true ys) = true ↔ xs <+: ys := by
  simp only [inside, hasPrefix, Bool.or_eq_true, beq_iff_eq, isPrefixOf_iff_prefix]
  constructor
  · rintro (h | ⟨q, hq⟩)
    · rw [print_inj hy hx h]
    · have hxs := intercalate_ne_nil (fun c hc => (hx c hc).ne_nil) hne
      have hyn : ys ≠ [] := by
        rintro rfl
        have hlen := congrArg List.length hq
        simp [print_true, hxs] at hlen
      have hsplit : (print true ys).splitOn '/' = (print true xs).splitOn '/' ++ q.splitOn '/' := by
        rw [← hq, append_assoc, singleton_append, splitOn_cons_slash]
      rw [splitOn_print, splitOn_print, splitOn_intercalate (fun c hc => (hy c hc).slash) hyn,
        splitOn_intercalate (fun c hc => (hx c hc).slash) hne, cons_append] at hsplit
      exact ⟨_, (List.cons.inj hsplit).2.symm⟩
  · rintro ⟨zs, rfl⟩
    by_cases hz : zs = []
    · exact .inl (by simp [hz])
    · refine .inr ⟨['/'].intercalate zs, ?_⟩
      simp [print_true, intercalate_append hne hz]

theorem hasPrefix_print (xs ys : List Str) :
    hasPrefix (print true (xs ++ ys)) (print true xs) = true := by
  rw [hasPrefix_iff, print_true, print_true, cons_prefix_cons]
  refine ⟨rfl, ?_⟩
  by_cases hx : xs = []
  · subst hx
    exact nil_prefix
  by_cases hy : ys = []
  · rw [hy, append_nil]
  · rw [intercalate_append hx hy]
    exact prefix_append _ _

/-- What has a path below it has some of the elements of this path. -/
theorem eq_print_of_inside (h : ∀ c ∈ cs, '/' ∉ c) (hp : inside p (print true cs) = true) :
    p = [] ∨ ∃ xs, xs <+: cs ∧ p = print true xs := by
  simp only [inside, Bool.or_eq_true, beq_iff_eq, hasPrefix_iff] at hp
  rcases hp with rfl | ⟨q, hq⟩
  · exact .inr ⟨cs, prefix_rfl, rfl⟩
  by_cases hcs : cs = []
  · subst hcs
    have hlen := congrArg List.length hq
    simp only [print_true, length_append, length_cons, length_nil, intercalate_nil] at hlen
    exact .inl (length_eq_zero_iff.1 (by omega))
  have hsplit : p.splitOn '/' ++ q.splitOn '/' = [] :: cs := by
    rw [← splitOn_cons_slash, ← singleton_append, ← append_assoc, hq, splitOn_print,
      splitOn_intercalate h hcs]
  rcases append_eq_cons_iff.1 hsplit with ⟨hnil, -⟩ | ⟨xs, hxs, rfl⟩
  · exact absurd hnil (splitOn_ne_nil _ _)
  · have hp : p = ['/'].intercalate ([] :: xs) := by rw [← hxs, intercalate_splitOn]
    cases xs with
    | nil => exact .inl (by simpa using hp)
    | cons x xs =>
      exact .inr ⟨x :: xs, prefix_append _ _, by simpa [print_true, intercalate_cons_cons] using hp⟩

theorem elements_print (h : Names cs) : elements (print true cs) = cs := by
  by_cases hcs : cs = []
  · subst hcs; rfl
  · rw [elements, splitOn_print, splitOn_intercalate (fun c hc => (h c hc).slash) hcs]
    simp only [List.filter_cons, ne_eq, not_true_eq_false, false_and, decide_false,
      Bool.false_eq_true, if_false]
    exact filter_eq_self.2 fun c hc => by simp [(h c hc).ne_nil, (h c hc).ne_dot]

/-- What the two lists have in common is put back in front; behind it they differ at once. -/
theorem dropCommon_spec (xs ys : List Str) : ∃ zs, xs = zs ++ (dropCommon xs ys).1 ∧
    ys = zs ++ (dropCommon xs ys).2 ∧ ∀ x ∈ (dropCommon xs ys).1.head?,
      x ∉ (dropCommon xs ys).2.head? := by
  induction xs generalizing ys with
  | nil => exact ⟨[], rfl, rfl, by simp [dropCommon]⟩
  | cons x xs ih =>
    cases ys with
    | nil => exact ⟨[], rfl, rfl, by simp [dropCommon]⟩
    | cons y ys =>
      by_cases hxy : x = y
      · obtain ⟨zs, h₁, h₂, h₃⟩ := ih ys
        subst hxy
        simp only [dropCommon, if_true]
        exact ⟨x :: zs, congrArg (x :: ·) h₁, congrArg (x :: ·) h₂, h₃⟩
      · exact ⟨[], by simp [dropCommon, hxy], by simp [dropCommon, hxy], by
          simp [dropCommon, hxy, eq_comm]⟩

theorem rel_print (hx : Names xs) (hy : Names ys) :
    rel (print true xs) (print true ys) = some (if ys = xs then dot else
      ['/'].intercalate ((dropCommon xs ys).1.map (fun _ => dotdot) ++ (dropCommon xs ys).2)) := by
  obtain ⟨zs, hxs, -⟩ := dropCommon_spec xs ys
  have hhead : (dropCommon xs ys).1.head? ≠ some dotdot := fun h =>
    (hx dotdot (hxs ▸ mem_append_right _ (mem_of_head? h))).ne_dotdot rfl
  by_cases he : ys = xs
  · simp [rel, he]
  · have hp : print true ys ≠ print true xs := fun h => he (print_inj hy hx h)
    simp [rel, clean_print hx, clean_print hy, he, hp, elements_print hx, elements_print hy, hhead]

/-- The way to a path begins with a step up and more, unless the path is inside the directory or its
parent. -/
theorem hasPrefix_rel (hx : Names xs) (hy : Names ys) :
    ∃ q, rel (print true xs) (print true ys) = some q ∧
      (hasPrefix q (dotdot ++ ['/']) = true ↔ ¬ xs <+: ys ∧ ys ≠ xs.dropLast) := by
  refine ⟨_, rel_print hx hy, ?_⟩
  obtain ⟨zs, hxs, hys, hdiff⟩ := dropCommon_spec xs ys
  have hts : ∀ c ∈ (dropCommon xs ys).2, IsName c :=
    fun c hc => hy c (hys ▸ List.mem_append_right _ hc)
  generalize dropCommon xs ys = bt at hxs hys hdiff hts ⊢
  obtain ⟨bs, ts⟩ := bt
  dsimp only at hxs hys hdiff hts ⊢
  subst hxs hys
  simp only [hasPrefix, List.isPrefixOf_iff_prefix, List.prefix_append_right_inj,
    List.append_right_inj]
  cases bs with
  | nil =>
    simp only [List.nil_prefix, not_true_eq_false, false_and, iff_false]
    rintro ⟨s, hs⟩
    split at hs
    · simp [dot, dotdot] at hs
    · next he =>
      -- the first element of the rest is a name, which `..` is not
      have h := splitOn_intercalate (fun c hc => (hts c hc).slash) he
      rw [List.map_nil, List.nil_append] at hs
      rw [← hs, List.append_assoc, List.singleton_append, splitOn_cons_slash] at h
      have hmem : dotdot ∈ ts := h ▸ List.mem_append_left _ (by decide)
      exact (hts _ hmem).ne_dotdot rfl
  | cons b bs =>
    have hhead : ts.head? ≠ some b := hdiff b rfl
    have hpre : ¬ b :: bs <+: ts := by
      rintro ⟨s, rfl⟩
      exact hhead rfl
    have hlast : ts ≠ (b :: bs).dropLast ↔ bs.map (fun _ => dotdot) ++ ts ≠ [] := by
      cases bs with
      | nil => simp
      | cons b' bs => simpa using fun h => hhead (by simp [h])
    have he : ts ≠ b :: bs := fun h => hhead (by simp [h])
    rw [if_neg he, List.dropLast_append_cons]
    simp only [hpre, not_false_eq_true, true_and, ne_eq, List.append_right_inj]
    rw [← ne_eq, hlast, List.map_cons, List.cons_append]
    cases hr : bs.map (fun _ => dotdot) ++ ts with
    | nil => simp [dotdot]
    | cons e es => simp [List.intercalate_cons_cons]

end Filepath
