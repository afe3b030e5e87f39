import LoggerLint.Data.Checked
import LoggerLint.Report

/-!
# Stored reports

A report that was written down as plain data is read back here. Names that are not known are passed over.
-/

namespace LoggerLint

/-- Read an edit. -/
def Edit.ofEntries (entries : Entries) : Checked Edit :=
  Edit.mk <$> entries.required "start" Value.asNat <*> entries.required "end" Value.asNat <*>
    entries.required "text" fun value => Text.ofString <$> value.asString

/-- Read an edit. -/
def Edit.ofValue : Value → Checked Edit :=
  Value.asTable "TextEdit" Edit.ofEntries

/-- Read a span. -/
def SourceSpan.ofValue : Value → Checked SourceSpan :=
  Value.asTable "SourceSpan" fun entries =>
    SourceSpan.mk <$> entries.required "start_line" Value.asInt <*>
      entries.required "start_col" Value.asInt <*> entries.required "end_line" Value.asInt <*>
      entries.required "end_col" Value.asInt

/-- Read a kind of complaint. -/
def RuleType.ofValue (value : Value) : Checked RuleType :=
  match value with
  | .string word =>
    match RuleType.ofWord? word with
    | some type => .valid type
    | none => .fault .notRuleType
  | _ => .fault .notRuleType

/-- Read a report. -/
def Report.ofValue : Value → Checked Report :=
  Value.asTable "Report" fun entries =>
    Report.mk <$> entries.optional "schema_version" 1 Value.asInt <*>
      entries.required "rule_id" Value.asString <*>
      entries.optional "type" .problem RuleType.ofValue <*>
      entries.required "path" Value.asString <*> entries.required "message" Value.asString <*>
      entries.required "loc" SourceSpan.ofValue <*>
      entries.required "node_span" SourceSpan.ofValue <*>
      entries.optional "edits" [] (Value.asList Edit.ofValue)

end LoggerLint
