import LoggerLint.Report

/-!
# Reports as JSON

A report is one JSON object on one line, with its names in alphabetical order and without blanks. A text
that holds a surrogate has no JSON form.
-/

namespace LoggerLint.Json

/-- A hexadecimal digit. -/
def hexDigit (n : Nat) : Char :=
  Nat.digitChar n

/-- One character of a quoted text: quotes, backslashes and control characters are escaped. -/
def escapeChar (c : Char) : List Char :=
  if c = '"' then ['\\', '"']
  else if c = '\\' then ['\\', '\\']
  else if c = '\x08' then ['\\', 'b']
  else if c = '\t' then ['\\', 't']
  else if c = '\n' then ['\\', 'n']
  else if c = '\x0c' then ['\\', 'f']
  else if c = '\r' then ['\\', 'r']
  else if c.toNat < 0x20 then
    ['\\', 'u', '0', '0', hexDigit (c.toNat / 16), hexDigit (c.toNat % 16)]
  else [c]

/-- A quoted text. -/
def quote (cs : List Char) : String :=
  String.ofList ('"' :: cs.flatMap escapeChar ++ ['"'])

/-- A list of written values. -/
def list (values : List String) : String :=
  "[" ++ String.intercalate "," values ++ "]"

/-- An object of written values under names. -/
def object (fields : List (String × String)) : String :=
  "\x7b" ++ String.intercalate "," (fields.map fun (name, value) => quote name.toList ++ ":" ++ value)
    ++ "\x7d"

end LoggerLint.Json

namespace LoggerLint

/-- A span as JSON. -/
def SourceSpan.json (span : SourceSpan) : String :=
  Json.object [("end_col", toString span.endCol), ("end_line", toString span.endLine),
    ("start_col", toString span.startCol), ("start_line", toString span.startLine)]

/-- An edit as JSON, if its text holds no surrogate. -/
def Edit.json? (edit : Edit) : Option String :=
  edit.text.chars?.map fun text =>
    Json.object [("end", toString edit.stop), ("start", toString edit.start),
      ("text", Json.quote text)]

/-- A report as JSON, if its texts hold no surrogate. -/
def Report.json? (report : Report) : Option String := do
  let edits ← report.edits.mapM Edit.json?
  return Json.object
    [("edits", Json.list edits), ("loc", report.loc.json),
      ("message", Json.quote report.message.toList), ("node_span", report.nodeSpan.json),
      ("path", Json.quote report.path.toList), ("rule_id", Json.quote report.ruleId.toList),
      ("schema_version", toString report.schemaVersion),
      ("type", Json.quote report.type.word.toList)]

end LoggerLint
