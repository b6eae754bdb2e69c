import FlatAbi.Emission.Draft

/-!
The layout of the two files. The header has guards for C, C++ and repeated inclusion; the source starts with its own
runtime.
-/

namespace FlatAbi.Artifact

def lines (content : List String) : String :=
  Text.concat (content.map (· ++ "\n"))

def banner : List String :=
  ["/* ----------------------------------------------------------------------------",
   " * This file was automatically generated by cabi-binding-generator.",
   " * Do not make changes to this file unless you know what you are doing.",
   " * Modify the interface description and regenerate instead.",
   " * ----------------------------------------------------------------------------- */",
   ""]

/-- What a file is laid out from: the options, the text of each section and the support of exceptions. -/
structure Content where
  config : Config
  sectionText : Section → String
  exceptions : ExceptionSupport

def Content.ofDraft (config : Config) (draft : Draft) : Content :=
  ⟨config, draft.sectionText, draft.exceptions⟩

def namespaces (config : Config) : List String :=
  (Text.splitOn "::" config.facadeNamespace).filter (· != "")

def checkNamespaces (config : Config) : Except Misshapen Unit :=
  if config.namespaceName.getD "" == "" then config.givenModule.checkText else .ok ()

def facadeLines (c : Content) : List String :=
  [""] ++ (namespaces c.config).map (fun name => "namespace " ++ name ++ " \x7b") ++
    ["", c.sectionText .facadeTypes, c.sectionText .facadeDeclarations, c.sectionText .facadeDefinitions] ++
    (namespaces c.config).map fun _ => "\x7d"

def header (c : Content) : String :=
  lines <| banner ++
    ["#ifndef " ++ c.config.guard,
     "#define " ++ c.config.guard,
     "",
     "#if defined(_WIN32) || defined(__CYGWIN__)",
     "#  define SWIGIMPORT extern __declspec(dllimport)",
     "#else",
     "#  define SWIGIMPORT extern",
     "#endif",
     "",
     c.sectionText .cHeader,
     c.sectionText .types,
     "#ifdef __cplusplus",
     "extern \"C\" \x7b",
     "#endif",
     "",
     c.sectionText .declarations,
     "#ifdef __cplusplus",
     "\x7d"] ++
    (if c.config.writesFacade then facadeLines c else []) ++
    ["#endif /* __cplusplus */",
     "",
     "#endif /* " ++ c.config.guard ++ " */"]

def linkageLines (cplusplus : Bool) : List String :=
  if cplusplus then
    ["#define SWIGEXPORTC extern \"C\" SWIGEXPORT",
     "",
     "typedef struct SwigObj SwigObj;",
     "",
     "#include <exception>",
     "#include <utility>",
     "#include <string.h>",
     "#include <stdlib.h>",
     ""]
  else
    ["#define SWIGEXPORTC SWIGEXPORT",
     ""]

def exceptionLines : List String :=
  ["#define SWIG_UnknownError -1",
   "#define SWIG_RuntimeError -3",
   "",
   "#ifndef SWIG_CException_DEFINED",
   "class SWIG_CException \x7b",
   "public:",
   "  SWIG_CException(const SWIG_CException& ex) throw() : code(ex.code), msg(strdup(ex.msg)) \x7b \x7d",
   "  ~SWIG_CException() \x7b free(const_cast<char*>(msg)); \x7d",
   "",
   "  const int code;",
   "  const char* const msg;",
   "",
   "  static SWIG_CException* get_pending() throw() \x7b return PendingException; \x7d",
   "  static void reset_pending() throw() \x7b if (PendingException) \x7b delete PendingException; " ++
     "PendingException = 0; \x7d \x7d",
   "",
   "private:",
   "  SWIG_CException(int code, const char* msg) throw() : code(code), msg(strdup(msg)) \x7b \x7d",
   "",
   "  static SWIG_CException* PendingException;",
   "",
   "  friend void SWIG_CException_Raise(int code, const char* msg);",
   "\x7d;",
   "",
   "SWIG_CException* SWIG_CException::PendingException = 0;",
   "",
   "SWIGEXPORT void SWIG_CException_Raise(int code, const char* msg) \x7b",
   "  SWIG_CException::reset_pending();",
   "  SWIG_CException::PendingException = new SWIG_CException(code, msg);",
   "\x7d",
   "#else",
   "void SWIG_CException_Raise(int code, const char* msg);",
   "#endif",
   ""]

def linkageStart (cplusplus : Bool) : List String :=
  if cplusplus then ["#ifdef __cplusplus", "extern \"C\" \x7b", "#endif", ""] else []

def linkageEnd (cplusplus : Bool) : List String :=
  if cplusplus then ["#ifdef __cplusplus", "\x7d", "#endif", ""] else []

def source (c : Content) : String :=
  lines <| banner ++
    [c.sectionText .preamble,
     "#if defined(_WIN32) || defined(__CYGWIN__)",
     "#  define SWIGEXPORT __declspec(dllexport)",
     "#elif defined(__GNUC__) && __GNUC__ >= 4",
     "#  define SWIGEXPORT __attribute__ ((visibility(\"default\")))",
     "#else",
     "#  define SWIGEXPORT",
     "#endif",
     ""] ++
    linkageLines c.config.cplusplus ++
    [c.sectionText .runtime] ++
    (if c.exceptions == .disabled then [] else exceptionLines) ++
    [c.sectionText .support] ++
    linkageStart c.config.cplusplus ++
    [c.sectionText .wrappers] ++
    linkageEnd c.config.cplusplus ++
    [c.sectionText .closing]

end FlatAbi.Artifact
