import Docker.Archive.Changes
import Docker.Fileutils.Matches

/-!
# Excluded files

The walk of `TarWithOptions` in `pkg/archive/archive.go` for `IncludeFiles` = `.`, without
`IncludeSourceDir` and new names, over a tree that does not change.
-/

namespace Docker.Archive

open Filepath Fileutils List

/-- An exception begins with the path of the directory. -/
def keepsDir (c : Cleaned) (rel : Str) : Bool :=
  c.exceptions && c.patterns.any fun p => exclusion p.1 && hasPrefix (p.1.tail ++ ['/'])
    (rel ++ ['/'])

/-- What has been added after a file, and whether the walk goes into it. An error of a pattern ends
the walk. -/
def visit (m : Matchers) (c : Cleaned) (rel : Str) (added : List Str) :
    Except (List Str) (List Str × Bool) :=
  match optimizedMatches m rel c.patterns with
  | .error _ => .error added
  | .ok true => .ok (added, keepsDir c rel)
  | .ok false => .ok (if rel ∈ added then added else added ++ [rel], true)

/-- `filepath.Walk` over the files of a directory. -/
def walkFiles (m : Matchers) (c : Cleaned) (dir : List Str) :
    Forest → List Str → Except (List Str) (List Str)
  | .nil, added => .ok added
  | .cons name node children rest, added =>
    visit m c (['/'].intercalate (dir ++ [name])) added >>= fun (added, inside) =>
      (if node.isDir && inside then walkFiles m c (dir ++ [name]) children added else .ok added) >>=
        walkFiles m c dir rest

def Forest.paths (dir : List Str) : Forest → List (List Str)
  | nil => []
  | cons name node children rest =>
    (dir ++ [name]) :: ((if node.isDir then children.paths (dir ++ [name]) else []) ++
      rest.paths dir)

def Forest.Named : Forest → Prop
  | nil => True
  | cons name _ children rest => IsName name ∧ children.Named ∧ rest.Named

section
variable {m : Matchers} {c : Cleaned} {cs ys xs dir : List Str} {f : Forest}

/-- The walk does not go into the directory. -/
def Skipped (m : Matchers) (c : Cleaned) (ds : List Str) : Prop :=
  optimizedMatches m (['/'].intercalate ds) c.patterns = .ok true ∧
    keepsDir c (['/'].intercalate ds) = false

/-- The path is not excluded, and below `dir` no directory above it is skipped. -/
def Taken (m : Matchers) (c : Cleaned) (dir xs : List Str) : Prop :=
  optimizedMatches m (['/'].intercalate xs) c.patterns = .ok false ∧
    ∀ ys, ys ≠ [] → dir ++ ys <+: xs → ¬Skipped m c (dir ++ ys)

/-- `added` is what is in `old`, and the paths of `paths` that are taken. -/
def Adds (m : Matchers) (c : Cleaned) (dir : List Str) (old added : List Str)
    (paths : List (List Str)) : Prop :=
  ∀ path, path ∈ added ↔ path ∈ old ∨ ∃ xs ∈ paths, path = ['/'].intercalate xs ∧ Taken m c dir xs

theorem Adds.append (h : Adds m c dir old mid ps) (h' : Adds m c dir mid added qs) :
    Adds m c dir old added (ps ++ qs) := by
  intro path
  rw [h', h]
  simp only [mem_append, or_and_right, exists_or, or_assoc]

theorem Adds.nil (h : ∀ xs ∈ ps, ¬Taken m c dir xs) : Adds m c dir old old ps := by
  intro path
  refine ⟨.inl, fun hpath => hpath.resolve_right ?_⟩
  rintro ⟨xs, hxs, -, htaken⟩
  exact h xs hxs htaken

end

end Docker.Archive
