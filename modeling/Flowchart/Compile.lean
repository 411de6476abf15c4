import Flowchart.Diagram
import Flowchart.Diagram.Validity
import Flowchart.Language
import Flowchart.Query.Lowering
import Flowchart.Query.Structure
import Flowchart.Source.Braced
import Flowchart.Source.Indented
import Flowchart.Source.Parsers
import Flowchart.Stmt.Lowering
import Flowchart.Text.Quoted

/-!
# From source text to diagram

`lower` gives the graph of a source text in the language that a label names, `compile` the graph and
its diagram. Neither fails: where a language is not known, a text does not parse or its positions do
not fit, the graph is empty and the log says why.
-/

namespace Flowchart

/-- Why no statements came about: the source and its tree do not fit together, or the parser broke
down. -/
inductive ReadFault where
  | crashed (reason : String)
  | source (fault : SourceFault)

/-- The wording of a fault. -/
def ReadFault.message : ReadFault → String
  | .crashed reason => reason
  | .source fault => fault.message

namespace Language

/-- The vocabulary of a brace language. -/
def vocabulary? (l : Language) : Option Vocabulary :=
  match l.family with
  | .java => some .java
  | .csharp => some .csharp
  | .javascript | .typescript => some .javascript
  | .python | .sql => none

/-- The statements of an indented language; none if the text is not in the language. -/
def indentedStmts (p : Parsers) (code : String) :
    Work (Except ReadFault (Option (List Stmt))) := do
  match p.abstract code with
  | .crashed reason => return .error (.crashed reason)
  | .refused reason =>
    Parsers.reportFailure "python" reason
    return .ok none
  | .tree t =>
    match AbstractTree.toStmts (Source.ofString code) t.body with
    | .error fault => return .error (.source fault)
    | .ok stmts => return .ok (some stmts)

/-- The statements of a program; none if it does not parse. -/
def stmts (p : Parsers) (l : Language) (code : String) :
    Work (Except ReadFault (Option (List Stmt))) :=
  match l.vocabulary? with
  | none => indentedStmts p code
  | some v => do
    match ← p.concreteTree? (l.grammar.getD "") code with
    | none => return .ok none
    | some root =>
      return .ok (some (← Work.ofLogged (readProgram v (Text.Utf8.encode code.toList) root)))

/-- The builder of a program's graph. -/
def builder (l : Language) (s : Settings) : Builder :=
  .empty l.labelMode (if l.labelMode = .strict then s.strictLimit else s.lenientLimit)

/-- The graph of a source text; none if it does not parse. -/
def draw (p : Parsers) (s : Settings) (l : Language) (code : String) :
    Work (Except ReadFault (Option Graph)) := do
  match l.dialect with
  | some dialect =>
    let clauses ← Query.extract p dialect code.toList
    return .ok (some (← Work.ofLogged (Query.lower dialect clauses (l.builder s)).finish))
  | none =>
    match ← l.stmts p code with
    | .error fault => return .error fault
    | .ok none => return .ok none
    | .ok (some stmts) =>
      return .ok (some (← Work.ofLogged ((lowerProgram stmts).run (l.builder s)).2.finish))

end Language

/-- The label of a language as a message shows it. -/
def quotedLabel : Option String → String
  | none => "None"
  | some l => quoted l

/-- Whether a source text is absent or blank. -/
def isBlankCode (code : Option String) : Bool := (code.map isBlankText).getD true

/-- The language that a label names, if there is a label and it names one. -/
def languageOf (label : Option String) : Option Language := label.bind Language.resolve?

/-- The graph of a source text in the language a label names; empty where there is none. -/
def lower (p : Parsers) (s : Settings) (code label : Option String) : Work Graph := do
  match languageOf label with
  | none =>
    Work.write .warning ("[WARN] Unsupported language: " ++ quotedLabel label)
    return {}
  | some l =>
    if isBlankCode code then return {}
    else
      match ← l.draw p s (code.getD "") with
      | .error fault =>
        Work.write .warning
          ("[WARN] Lowering failed for " ++ l.family.name ++ ": " ++ fault.message)
        return {}
      | .ok none => return {}
      | .ok (some g) =>
        Work.write .debug ("[TIME] Lowered " ++ l.family.name ++ " in " ++ elapsed ++ " (" ++
          toString g.nodes.length ++ " nodes, " ++ toString g.edges.length ++ " edges)")
        return g

/-- The diagram of a graph: the fallback if there is too little to show or the text has a flaw. -/
def diagramOf (s : Settings) (g : Graph) : Work String := do
  let diagram := Diagram.assemble s g
  if diagram.isEmpty then return Diagram.fallback
  else
    match Diagram.check diagram with
    | .ok () => return diagram
    | .error flaw =>
      Work.write .warning ("[WARN] Generated diagram failed validation: " ++ flaw.message)
      return Diagram.fallback

/-- The graph and the diagram of a source text. The diagram is empty exactly where there is no text or
no language. -/
def compile (p : Parsers) (s : Settings) (code label : Option String) : Work (Graph × String) := do
  if isBlankCode code || (languageOf label).isNone then return ({}, "")
  else
    let g ← lower p s code label
    return (g, ← diagramOf s g)

end Flowchart
