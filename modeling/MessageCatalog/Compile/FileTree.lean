/-
Files by relative path, and the joining of paths. A path is followed step by step, so that every
directory on the way has to exist.
-/

namespace MessageCatalog

/-! ## Paths -/

/-- Drops slashes and steps to the same directory from the end of a path. -/
def dropTrailingSteps (path : List Char) : List Char :=
  (go path.reverse).reverse
where
  go : List Char → List Char
    | [] => []
    | ['/'] => ['/']
    | '/' :: rest => go rest
    | '.' :: '/' :: rest => go ('/' :: rest)
    | cs => cs

/-- The directory of a path; a path without a last step has none. -/
def parentDirectory? (path : String) : Option String :=
  let steps := dropTrailingSteps path.toList
  if steps = [] ∨ steps = ['/'] then none
  else
    let directory := (steps.reverse.dropWhile (· ≠ '/')).reverse
    some (String.ofList (dropTrailingSteps directory))

/-- A path from a directory on; an absolute path stands for itself. -/
def joinPath (directory path : String) : String :=
  if path.toList.head? = some '/' then path
  else if directory = "" ∨ directory.toList.getLast? = some '/' then directory ++ path
  else directory ++ "/" ++ path

/-! ## Files -/

/-- Files by the steps of their paths; the content of a file that is no text is `none`. -/
structure FileTree where
  files : List (List String × Option String)

namespace FileTree

/-- The steps of a path, without those to the same directory. -/
def steps (path : String) : List String :=
  ((path.toList.splitOn '/').map String.ofList).filter fun s => s ≠ "" ∧ s ≠ "."

def ofList (files : List (String × Option String)) : FileTree :=
  ⟨files.map fun (path, content) => (steps path, content)⟩

def isDirectory (tree : FileTree) (place : List String) : Bool :=
  place.isEmpty ||
    tree.files.any fun (path, _) => place.isPrefixOf path && place.length < path.length

/-- Follows steps from a directory; `none` where one does not exist. -/
def follow? (tree : FileTree) (directory : List String) : List String → Option (List String)
  | [] => some directory
  | step :: rest =>
    if !tree.isDirectory directory then none
    else if step = ".." then
      if directory.isEmpty then none else follow? tree directory.dropLast rest
    else follow? tree (directory ++ [step]) rest

/-- The text of a file; `none` if there is no such file or it is no text. -/
def read? (tree : FileTree) (path : String) : Option String := do
  if path.toList.head? = some '/' then none
  let cs := path.toList
  let place ← tree.follow? [] (steps path)
  -- a path that ends in a slash or a step to the same directory is a directory
  if cs.getLast? = some '/' ∨ ("/.".toList.isSuffixOf cs) then none
  (tree.files.lookup place).join

end FileTree

end MessageCatalog
