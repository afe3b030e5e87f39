import LoggerLint.Config
import LoggerLint.Files.Glob
import LoggerLint.Files.Ignore
import LoggerLint.Files.Tree

/-!
# Finding source files

`findSources` lists the files of a project that are to be looked at. The walk goes through the directories
below the root, but through no links, not into those that hold other projects' files, and not into those
that are ignored. Of the files it meets, extension, ignore files and patterns decide.
-/

namespace LoggerLint

/-- A path below the root as text. -/
def pathText (path : List String) : String :=
  Path.toString ⟨0, path⟩

namespace Config

/-- Do the extension and the patterns of a configuration select a path? -/
def selects (config : Config) (path : Path) : Bool :=
  let text := path.toString
  config.extensions.contains path.extension &&
    (config.includes.isEmpty || config.includes.any (Glob.accepts · text)) &&
    !config.excludes.any (Glob.accepts · text)

end Config

/-! ## Ignore files -/

/-- The directories that are never entered. -/
def skippedDirectories : List String := ["node_modules", ".git"]

/-- The name of an ignore file. -/
def ignoreFileName : String := ".gitignore"

namespace FileTree

mutual

/-- The ignore files of one entry of a directory at this path. -/
def ignoreFilesOfEntry (path : List String) : String × FileTree → List (List String × Bytes)
  | (name, .file content) => if name = ignoreFileName then [(path, content)] else []
  | (_, .link _) => []
  | (name, .directory entries) =>
    if skippedDirectories.contains name then [] else ignoreFilesOfAll (path ++ [name]) entries

/-- The ignore files of the entries of a directory at this path. -/
def ignoreFilesOfAll (path : List String) :
    List (String × FileTree) → List (List String × Bytes)
  | [] => []
  | entry :: rest => ignoreFilesOfEntry path entry ++ ignoreFilesOfAll path rest

end

/-- The directories below the root that hold an ignore file, with its content, in the order of the files'
paths. -/
def ignoreFiles (tree : FileTree) (root : Path) : List (List String × Bytes) :=
  let found := ignoreFilesOfAll [] (((tree.find? root).map entries).getD [])
  found.mergeSort fun a b =>
    pathText (a.1 ++ [ignoreFileName]) ≤ pathText (b.1 ++ [ignoreFileName])

end FileTree

namespace Path

/-- The parts of an absolute path, where a `..` takes back the part before it. -/
def normalParts (path : Path) : List String :=
  path.parts.foldl (fun parts part => if part = ".." then parts.dropLast else parts ++ [part]) []

end Path

/-- The ignore files that count for a project. -/
inductive Ignoring where
  /-- there are none -/
  | nothing
  /-- the one at the root -/
  | atRoot (file : IgnoreFile)
  /-- all of them -/
  | everywhere (files : List IgnoreFile)
  deriving Repr, Inhabited

namespace Ignoring

/-- The ignore files of a project: that of the root, or all of them. -/
def load (tree : FileTree) (root : Path) (nested : Bool) : Except IgnoreFault Ignoring :=
  if nested then do
    let files ← (tree.ignoreFiles root).mapM fun (path, content) =>
      IgnoreFile.ofBytes (root.normalParts ++ path) content
    return if files.isEmpty then .nothing else .everywhere files
  else
    match tree.read (root.join ⟨0, [ignoreFileName]⟩) with
    | .ok content => (IgnoreFile.ofBytes root.normalParts content).map .atRoot
    | .error _ => .ok .nothing

/-- Is a path ignored, given by its parts? With a single ignore file there is no answer for paths that do not
lie below it; of several files those that have no answer are passed over. -/
def ignores? (ignoring : Ignoring) (path : List String) (slash : Bool) : Option Bool :=
  match ignoring with
  | .nothing => some false
  | .atRoot file => file.ignores? path slash
  | .everywhere files => some (files.any fun file => (file.ignores? path slash).getD false)

end Ignoring

/-! ## The walk -/

namespace FileTree

mutual

/-- The files to keep of what stands at a path; only directories to `enter` are entered. -/
def kept (enter keep : List String → Bool) (path : List String) : FileTree → List (List String)
  | .file _ => if keep path then [path] else []
  | .link _ => []
  | .directory entries => if enter path then keptOfAll enter keep path entries else []

/-- The files to keep of the entries of a directory at a path. -/
def keptOfAll (enter keep : List String → Bool) (path : List String) :
    List (String × FileTree) → List (List String)
  | [] => []
  | entry :: rest => keptOfEntry enter keep path entry ++ keptOfAll enter keep path rest

/-- The files to keep of one entry of a directory at a path. -/
def keptOfEntry (enter keep : List String → Bool) (path : List String) :
    String × FileTree → List (List String)
  | (name, tree) => kept enter keep (path ++ [name]) tree

end

/-- The source files below a root, given what is `ignored`, in the order of their paths. -/
def selectSources (tree : FileTree) (root : Path) (config : Config)
    (ignored : List String → Bool) : List (List String) :=
  let enter (path : List String) : Bool :=
    !skippedDirectories.contains (path.getLast?.getD "") && !ignored path
  let keep (path : List String) : Bool := config.selects ⟨0, path⟩ && !ignored path
  let found := keptOfAll enter keep [] (((tree.find? root).map entries).getD [])
  let within := found.filter fun path => (tree.isWithin? (root.join ⟨0, path⟩) root).getD false
  within.mergeSort fun a b => pathText a ≤ pathText b

/-- The source files of a project, seen from its root, in the order of their paths. -/
def findSources (tree : FileTree) (root : Path) (config : Config) :
    Except IgnoreFault (List (List String)) := do
  let ignoring ← Ignoring.load tree root config.nestedGitignore
  return tree.selectSources root config fun path =>
    (ignoring.ignores? (root.normalParts ++ path) false).getD false

end FileTree

end LoggerLint
