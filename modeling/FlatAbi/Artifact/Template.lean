import FlatAbi.Artifact.Layout
import FlatAbi.Log.Record

/-!
Templates that replace the layout of a file. What a template means is up to an engine.
-/

namespace FlatAbi.Artifact

def headerTemplate : String := "c_header.h.j2"

def sourceTemplate : String := "c_source.j2"

def templateNames : List String :=
  [headerTemplate, sourceTemplate]

/-- Why there is no text of a template. Some failures count as those on files, as that to find another template. -/
structure TemplateFault where
  failure : Log.Failure
  isOfFiles : Bool

/-- The templates on offer, by their names. -/
abbrev Offer := String → Option String

/-- An engine makes texts of templates. A template may use others on offer, and the text may also depend on the moment
at which it is made, by a clock or by chance. -/
structure Engine where
  render : (moment : Nat) → Offer → (name : String) → Content → Except TemplateFault String

/-! ### A simple engine -/

def templateFault (kind message : String) : TemplateFault :=
  ⟨⟨kind, [.string message], message⟩, false⟩

def Content.value? (c : Content) (expression : String) : Option String :=
  match Text.splitOn "." expression with
  | ["module"] => some c.config.moduleName
  | ["header_name"] => some c.config.outputHeader
  | ["guard"] => some c.config.guard
  | ["sections", name] => (Section.ofWord? name).map c.sectionText
  | _ => none

def Content.expressionText (c : Content) (inner : List Char) : Except TemplateFault (List Char) :=
  let expression := String.ofList (Chars.trim inner)
  match c.value? expression with
  | some value => .ok value.toList
  | none => .error (templateFault "UndefinedError" (Text.quoted expression ++ " is undefined"))

/-- Fill in the expressions; `skip` characters of an expression already filled in are passed over. -/
def Content.fillFrom (c : Content) : Nat → List Char → Except TemplateFault (List Char)
  | _, [] => .ok []
  | skip + 1, _ :: cs => c.fillFrom skip cs
  | 0, first :: cs =>
    if first == '\x7b' && (cs.head? == some '%' || cs.head? == some '#') then
      .error (templateFault "TemplateSyntaxError" "only expressions are supported")
    else if first == '\x7b' && cs.head? == some '\x7b' then
      match Chars.cut ['\x7d', '\x7d'] cs.tail with
      | some (inner, _) => do return (← c.expressionText inner) ++ (← c.fillFrom (inner.length + 3) cs)
      | none => .error (templateFault "TemplateSyntaxError" "unexpected end of template")
    else do return first :: (← c.fillFrom 0 cs)

/-- The engine for templates with nothing in them but text and names of values in double braces. -/
def Engine.simple : Engine where
  render _ offer name content :=
    match offer name with
    | some template => (content.fillFrom 0 (Text.unixLines template.toList)).map String.ofList
    | none => .error { templateFault "TemplateNotFound" name with isOfFiles := true }

end FlatAbi.Artifact
