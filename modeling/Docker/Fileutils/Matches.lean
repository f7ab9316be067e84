import Docker.Fileutils.Glob
import Docker.Lib.Fallible

/-!
# What `Matches` says

A pattern matches the paths that it matches itself, and those with as many elements of the path as
it has itself. An exception undoes its pattern, unless it is cleaned in another way.
-/

namespace Docker.Fileutils

open Filepath Fallible List Bool

section
variable {m : Matchers} {f p : Str} {ps : List Str}

end

/-! ## Directories -/

section
variable {m : Matchers} {cs : List Str}

end

end Docker.Fileutils
