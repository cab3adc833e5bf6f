import ScriptHost.Artifact
import ScriptHost.Compile.Header
import ScriptHost.Compile.Slang

/-! Compilation of scripts. A front end is a number of translators over a back end: each translator
lowers the source to the language of the next, and the back end accepts or refuses what comes out.
A compiler holds one front end per language and chooses by the header of the source. -/

namespace ScriptHost.Compile

/-- Whose script is compiled, and under which name. -/
structure Metadata where
  script : ObjectId
  name : String
  deriving DecidableEq

/-- Why a source could not be translated, and on which line if that is known. -/
structure TranslateError where
  line : Option Nat
  message : String
  deriving DecidableEq

/-- A pure transformation of sources of one language into sources of another. -/
structure Translator where
  language : Language
  preProcess : String → String
  convert : String → Except TranslateError String

/-- What accepts a source for execution or refuses it. -/
structure Backend where
  language : Language
  compile : Metadata → String → Except CompileError Artifact

/-- Translators over a back end, in the order in which they are applied. -/
structure FrontEnd where
  links : List Translator
  backend : Backend

namespace FrontEnd

/-- The back end alone. -/
def native (backend : Backend) : FrontEnd := ⟨[], backend⟩

/-- One more translator in front. -/
def translated (t : Translator) (f : FrontEnd) : FrontEnd := { f with links := t :: f.links }

/-- The language that a front end accepts. -/
def language (f : FrontEnd) : Language :=
  match f.links with
  | [] => f.backend.language
  | t :: _ => t.language

/-- The unit of a source, which counts as written in the language of the first link. -/
def compileWith (backend : Backend) (m : Metadata) :
    List Translator → String → Except CompileError CompiledUnit
  | [], source => (backend.compile m source).map fun a => ⟨m.script, backend.language, a⟩
  | t :: ts, source =>
    match t.convert (t.preProcess source) with
    | .error e => .error ⟨t.language, .translate, e.line, e.message⟩
    | .ok target => (compileWith backend m ts target).map ({ · with source := t.language })

def compile (f : FrontEnd) (m : Metadata) (source : String) : Except CompileError CompiledUnit :=
  compileWith f.backend m f.links source

end FrontEnd

/-- Front ends by the language they accept, and the language of sources without a header. -/
structure Compiler where
  frontEnds : List FrontEnd
  default : Language

namespace Compiler

def empty (default : Language) : Compiler := ⟨[], default⟩

/-- Adds a front end in place of the one for its language. -/
def add (c : Compiler) (f : FrontEnd) : Compiler :=
  { c with frontEnds := f :: c.frontEnds.filter (·.language != f.language) }

def frontEnd? (c : Compiler) (l : Language) : Option FrontEnd :=
  c.frontEnds.find? (·.language == l)

def supports (c : Compiler) (l : Language) : Bool := (c.frontEnd? l).isSome

/-- The languages with a front end, in the order of their tags. -/
def languages (c : Compiler) : List Language := Language.all.filter c.supports

/-- The language of a source and the part of it to compile. -/
def resolve (c : Compiler) (source : String) : Language × String :=
  let (header, body) := splitHeader source
  (header.getD c.default, body)

def missing (l : Language) : CompileError :=
  ⟨l, .translate, none, s!"no compiler configured for language '{l.tag}'"⟩

def compile (c : Compiler) (m : Metadata) (source : String) : Except CompileError CompiledUnit :=
  let (l, body) := c.resolve source
  match c.frontEnd? l with
  | none => .error (missing l)
  | some f => f.compile m body

theorem frontEnd?_add_self (c : Compiler) (f : FrontEnd) :
    (c.add f).frontEnd? f.language = some f := by
  simp [add, frontEnd?]

end Compiler

/-- The translator from Slang. -/
def slang : Translator where
  language := .slang
  preProcess := Slang.preProcess
  convert source :=
    (Slang.convert source).mapError fun e => ⟨some e.line.toNat, e.construct.message⟩

/-- Sources of the back end's language as they are, and Slang through its translator. -/
def standard (backend : Backend) (default : Language) : Compiler :=
  ((Compiler.empty default).add (.native backend)).add ((FrontEnd.native backend).translated slang)

end ScriptHost.Compile
