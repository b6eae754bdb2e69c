import FlatAbi.Log.Directive

/-!
Formats of log lines: text with directives such as `%(message)s`, and the recorder that writes records in a format.
-/

namespace FlatAbi.Log

/-- The letters that may end a field, in capitals too, with the letters that fold to one of them. -/
def fieldEnds : List Char :=
  "diouxefgcrsaDIOUXEFGCRSA%ſıİ".toList

def skipNumber : List Char → List Char
  | '*' :: rest => rest
  | cs => cs.dropWhile Text.isDecimalDigit

def skipPrecision (cs : List Char) : List Char :=
  match cs with
  | '.' :: '*' :: rest => rest
  | '.' :: c :: rest => if Text.isDecimalDigit c then rest.dropWhile Text.isDecimalDigit else cs
  | cs => cs

/-- The text after a percent sign starts with a field: a name in brackets, flags, a width, a precision and an end. -/
def startsField : List Char → Bool
  | '(' :: cs =>
    match cs.dropWhile Text.isWordChar with
    | ')' :: rest =>
      cs.head?.any Text.isWordChar &&
        (skipPrecision (skipNumber (rest.dropWhile Directive.isFlag))).head?.any fieldEnds.contains
    | _ => false
  | _ => false

def hasField : List Char → Bool
  | [] => false
  | c :: cs => (c == '%' && startsField cs) || hasField cs

def Record.failureLiteral (r : Record) : String :=
  match r.failure with
  | some f => "(<class '" ++ f.kind ++ "'>, " ++ f.literal ++ ", <traceback object at 0x0>)"
  | none => "None"

/-- The values of a record by their names. Records have no time: what tells the time is zero. -/
def Record.fields (r : Record) : List (String × FieldValue) :=
  [("name", .text r.origin.channel.name), ("msg", .text r.template), ("args", .other r.detailsLiteral),
   ("levelname", .text r.level.word), ("levelno", .number r.level.number), ("pathname", .text r.origin.channel.file),
   ("filename", .text (r.origin.channel.shortName ++ ".py")), ("module", .text r.origin.channel.shortName),
   ("exc_info", .other r.failureLiteral), ("exc_text", .other "None"), ("stack_info", .other "None"),
   ("lineno", .number r.origin.position), ("funcName", .text r.origin.step), ("created", .measure 0),
   ("msecs", .measure 0), ("relativeCreated", .measure 0), ("thread", .number 0), ("threadName", .text "MainThread"),
   ("processName", .text "MainProcess"), ("process", .number 0), ("message", .text r.message)]

def timeField : String × FieldValue :=
  ("asctime", .text "")

def Record.whole (r : Record) : FieldValue :=
  let shown := r.fields.map fun (name, value) => Text.quoted name ++ ": " ++ String.ofList value.literal
  .other ("\x7b" ++ Text.join ", " shown ++ "\x7d")

/-- The value that a directive asks for. Without a key it asks for the whole record, which only the first directive
of a format can do. -/
def Record.value? (r : Record) (first : Bool) : Option String → Option FieldValue
  | some key => (r.fields ++ [timeField]).lookup key
  | none => if first then some r.whole else none

/-- Write a record in a format; `skip` characters of a directive already written are passed over, and `first` tells
that none was. Two percent signs stand for one. A directive that cannot be written leaves the record unwritten. -/
def lineFrom (r : Record) (first : Bool) : Nat → List Char → Option (List Char)
  | _, [] => some []
  | skip + 1, _ :: cs => lineFrom r first skip cs
  | 0, '%' :: '%' :: cs => (lineFrom r first 0 cs).map ('%' :: ·)
  | 0, c :: cs =>
    if c == '%' then do
      let (directive, rest) ← Directive.read? cs
      let shown ← directive.write? (← r.value? first directive.key)
      let others ← lineFrom r false (cs.length - rest.length) cs
      return shown ++ others
    else (lineFrom r first 0 cs).map (c :: ·)

structure Format where
  text : String
  deriving DecidableEq, Repr

namespace Format

def standard : Format := ⟨"%(levelname)s: %(message)s"⟩

structure Invalid where
  text : String
  deriving DecidableEq, Repr

def Invalid.message (e : Invalid) : String :=
  "Invalid format '" ++ e.text ++ "' for '%' style"

def read (text : String) : Except Invalid Format :=
  if text == "" then .ok standard
  else if hasField text.toList then .ok ⟨text⟩
  else .error ⟨text⟩

def line? (f : Format) (r : Record) : Option String :=
  (lineFrom r true 0 f.text.toList).map String.ofList

end Format

structure Recorder where
  format : Format
  threshold : Level
  deriving DecidableEq, Repr

namespace Recorder

def line (recorder : Recorder) (r : Record) : String :=
  if recorder.threshold.number ≤ r.level.number then
    match recorder.format.line? r with
    | some text => text ++ "\n"
    | none => ""
  else ""

def text (recorder : Recorder) (records : List Record) : String :=
  Text.concat (records.map recorder.line)

end Recorder

end FlatAbi.Log
