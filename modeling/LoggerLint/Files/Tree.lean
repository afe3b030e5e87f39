import LoggerLint.Files.Path
import LoggerLint.Text.Utf8

/-!
# File trees

A file system is a value: a tree of directories with files and symbolic links as leaves. Writing gives a new
tree.

* `get?`, `put` and `erase` work on the tree as it is, and follow no links.
* `resolve?` says where a path leads, with every link on the way followed; it also answers for paths that
  lead nowhere.
* `find?` and `read` use what stands there.
-/

namespace LoggerLint

/-- What a name can stand for: a file, a symbolic link, or a directory with names of its own. -/
inductive FileTree where
  /-- a file and its content -/
  | file (content : Bytes)
  /-- a link and where it points to, seen from the directory it stands in -/
  | link (target : Path)
  /-- a directory -/
  | directory (entries : List (String × FileTree))
  deriving Inhabited

namespace FileTree

/-! ## Without following links -/

/-- The entries of a directory; nothing else has any. -/
def entries : FileTree → List (String × FileTree)
  | .directory entries => entries
  | _ => []

/-- Is this a directory? -/
def isDirectory : FileTree → Bool
  | .directory _ => true
  | _ => false

/-- What stands at the end of these names. -/
def get? (tree : FileTree) : List String → Option FileTree
  | [] => some tree
  | name :: rest =>
    match tree.entries.lookup name with
    | some inner => inner.get? rest
    | none => none

/-- Let a name of a directory stand for something. -/
def assign (name : String) (value : FileTree) (entries : List (String × FileTree)) :
    List (String × FileTree) :=
  if (entries.lookup name).isSome then
    entries.map fun entry => if entry.1 = name then (name, value) else entry
  else
    entries ++ [(name, value)]

/-- Put something at the end of these names; directories that are missing are made. -/
def put (value : FileTree) : List String → FileTree → FileTree
  | [], _ => value
  | name :: rest, tree =>
    .directory (assign name (put value rest ((tree.entries.lookup name).getD (.directory [])))
      tree.entries)

/-- Remove what stands at the end of these names, with all below it. -/
def erase : List String → FileTree → FileTree
  | [name], .directory entries => .directory (entries.filter fun entry => entry.1 ≠ name)
  | name :: rest, .directory entries =>
    .directory (entries.map fun entry => if entry.1 = name then (name, erase rest entry.2) else entry)
  | _, tree => tree

mutual

/-- All files at or below this path, links apart. -/
def filesFrom (path : List String) : FileTree → List (List String × Bytes)
  | .file content => [(path, content)]
  | .link _ => []
  | .directory entries => filesOfAll path entries

/-- All files of these entries. -/
def filesOfAll (path : List String) : List (String × FileTree) → List (List String × Bytes)
  | [] => []
  | entry :: rest => filesOfEntry path entry ++ filesOfAll path rest

/-- All files of one entry. -/
def filesOfEntry (path : List String) : String × FileTree → List (List String × Bytes)
  | (name, tree) => filesFrom (path ++ [name]) tree

end

/-- All files of a tree with their paths, links apart. -/
def files (tree : FileTree) : List (List String × Bytes) :=
  tree.filesFrom []

/-! ## Where a path leads -/

/-- Where a path leads. -/
structure Place where
  /-- the names from the root, none of them a link where the place is there -/
  names : List String
  /-- was every step back made from a directory that is there -/
  reached : Bool
  deriving DecidableEq, Repr, Inhabited

/-- Go on from a directory through these names, and follow at most `links` links. Names that stand for
nothing are taken as they are. -/
def walk (tree : FileTree) (links : Nat) (here : Place) (todo : List String) : Option Place :=
  match todo with
  | [] => some here
  | name :: todo =>
    if name = ".." then
      let stands := (tree.get? here.names).any isDirectory
      walk tree links ⟨here.names.dropLast, here.reached && stands⟩ todo
    else
      match tree.get? (here.names ++ [name]) with
      | some (.link target) =>
        match links with
        | 0 => none
        | links + 1 =>
          let start := if target.slashes = 0 then here.names else []
          walk tree links ⟨start, here.reached⟩ (target.parts ++ todo)
      | _ => walk tree links ⟨here.names ++ [name], here.reached⟩ todo
termination_by (links, todo.length)

/-- How many links a path may lead through. -/
def maxLinks : Nat := 40

/-- Where an absolute path leads; links that lead in a circle lead nowhere. -/
def resolve? (tree : FileTree) (path : Path) : Option Place :=
  tree.walk maxLinks ⟨[], true⟩ path.parts

/-- What stands where a path leads. -/
def find? (tree : FileTree) (path : Path) : Option FileTree :=
  match tree.resolve? path with
  | some place => if place.reached then tree.get? place.names else none
  | none => none

/-- Does a path lead to the root or to something below it? Links in a circle leave that open. -/
def isWithin? (tree : FileTree) (path root : Path) : Option Bool := do
  let place ← tree.resolve? path
  let base ← tree.resolve? root
  return base.names.isPrefixOf place.names

/-! ## Reading and writing -/

/-- Why a file cannot be read. -/
inductive ReadFault where
  /-- there is none -/
  | missing
  /-- it is a directory -/
  | isDirectory
  deriving DecidableEq, Repr, Inhabited

/-- The content of the file to which a path leads. -/
def read (tree : FileTree) (path : Path) : Except ReadFault Bytes :=
  match tree.find? path with
  | some (.file content) => .ok content
  | some (.directory _) => .error .isDirectory
  | _ => .error .missing

/-- Put something where a path leads. -/
def write (tree : FileTree) (path : Path) (value : FileTree) : FileTree :=
  match tree.resolve? path with
  | some place => put value place.names tree
  | none => tree

/-- The names that lead to an entry itself, even if it is a link. -/
def entryNames (tree : FileTree) (path : Path) : List String :=
  match tree.resolve? ⟨path.slashes, path.parts.dropLast⟩ with
  | some place => place.names ++ [path.name]
  | none => path.parts

end FileTree

end LoggerLint
