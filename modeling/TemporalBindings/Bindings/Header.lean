import TemporalBindings.Bindings.Basic
import TemporalBindings.Source.Code

/-!
# TemporalBindings.Bindings.Header

The beginning of a generated file, up to the package clause. The comments at the
syntax and at the package of the descriptor file are carried over; between them a
banner names the generator and the source.
-/

namespace TemporalBindings.Bindings

open Source

/-- The name of the generator. -/
def generatorName : String :=
  "protoc-gen-temporal-go"

/-- The version of the generator. -/
def generatorVersion : String :=
  "0.1.0"

/-- The comments before an element, each with a blank line behind it. -/
def Comments.before (c : Comments) : List Item :=
  c.detached.flatMap (fun text => [.comment text, .blank]) ++
    if c.leading = "" then [] else [.comment c.leading, .blank]

/-- The banner of a generated file. The two versions in it are aligned. -/
def File.banner (f : File) (compiler : String) : List Item :=
  [line ["// Code generated by ", generatorName, ". DO NOT EDIT."],
   line ["// versions:"],
   line ["// - ", generatorName, " v", generatorVersion],
   line ["// - protoc                 ", compiler],
   if f.deprecated then line ["// ", f.path, " is a deprecated file."]
   else line ["// source: ", f.path],
   .blank]

/-- The beginning of a generated file. -/
def File.header (f : File) (compiler : String) : List Item :=
  f.syntaxComments.before ++ f.banner compiler ++ f.packageComments.before ++
    [.package f.package.name, .blank]

end TemporalBindings.Bindings
