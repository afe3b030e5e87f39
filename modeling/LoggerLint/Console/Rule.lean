import LoggerLint.Console.Call
import LoggerLint.Report

/-!
# The rule against the native console

`reports` lists the native console calls of a file. Each report replaces one call; the first one of a
file that does not bind the shared logger's name also inserts the prologue.
-/

namespace LoggerLint.Console

/-- The name of the rule. -/
def ruleId : String := "no-native-console"

/-- What a report says. -/
def message (method : Method) : String :=
  "No native console." ++ method.name ++ " allowed, use " ++ Prologue.moduleLoggerName ++ "." ++
    method.name ++ " instead"

/-- Where the prologue goes: at the start of the file, or on the line after its interpreter line. -/
def prologueAnchor (source : Bytes) (root : Node) : Nat :=
  match root.children.head? with
  | some first =>
    if first.kind == "hash_bang_line" then
      match source.drop first.stop with
      | 0x0D :: 0x0A :: _ => first.stop + 2
      | 0x0A :: _ => first.stop + 1
      | _ => first.stop
    else
      0
  | none => 0

/-- The insertion of the prologue. -/
def prologueEdit (source : Bytes) (root : Node) (path : String) : Edit :=
  let anchor := prologueAnchor source root
  ⟨anchor, anchor, .ofString (Prologue.render path)⟩

/-- The edit that replaces a call. -/
def callEdit (source : Bytes) (call : Call) : Edit :=
  ⟨call.node.start, call.node.stop, call.replacement source⟩

/-- The report of one call; `lead` comes before the edit that replaces it. -/
def report (source : Bytes) (path : String) (lead : List Edit) (call : Call) : Report where
  ruleId := ruleId
  type := .problem
  path := path
  message := message call.method
  loc := .ofNode source call.reference.site.node
  nodeSpan := .ofNode source call.node
  edits := lead ++ [callEdit source call]

/-- The reports of all calls; `lead` goes with the first. -/
def reportAll (source : Bytes) (path : String) (lead : List Edit) : List Call → List Report
  | [] => []
  | call :: rest => report source path lead call :: rest.map (report source path [])

/-- The native console calls of a file, in source order. -/
def reports (tree : ScopeTree) (path : String) : List Report :=
  match tree.arena.top? with
  | none => []
  | some top =>
    let found := calls tree.source (resolve tree.arena top).references
    let lead :=
      if loggerIsBound tree.arena top then [] else [prologueEdit tree.source tree.root path]
    reportAll tree.source path lead found

/-- What the rule says about its run. -/
def log (tree : ScopeTree) (path : String) : List LogLine :=
  match tree.arena.top? with
  | none => []
  | some top =>
    let resolution := resolve tree.arena top
    match resolution.binding with
    | .shadowed =>
      [⟨.debug, "rules.no_native_console", path ++ ": console is locally declared, skipping file"⟩]
    | binding =>
      [⟨.debug, "rules.no_native_console",
        path ++ ": " ++ toString (reports tree path).length ++ " console call(s) reported (" ++
          binding.word ++ ")"⟩]

end LoggerLint.Console
