import Flowchart.Log
import Flowchart.Source.Concrete
import Flowchart.Source.Vocabulary
import Flowchart.Stmt
import Flowchart.Text.Nesting

/-!
# Statements of a brace language

Concrete syntax trees become statements. `Reading` holds what one reading depends on: the source, the
vocabulary of its grammar, and how the trees below the present one are read. Every function here
looks at one node; `Reading.ofHeight` ties them together, level by level of the tree.

## How a tree is read

The parser gives nodes with a kind, named fields and children, and different grammars have different
kinds for the same thing. The vocabulary tells what the kinds of each grammar are. A node of a kind that
it does not know is a simple statement, whose text is the source of the node with its blanks collapsed.
-/

namespace Flowchart

/-- What the reading of a node depends on. -/
structure Reading where
  vocabulary : Vocabulary
  source : List UInt8
  /-- The reading of a tree below the present one. -/
  below : ConcreteTree → Logged Stmt

namespace Reading

variable (r : Reading)

/-- The text of a node. -/
def text (t : ConcreteTree) : List Char := t.text r.source

/-- The text of a node that may be absent. -/
def textOf : Option ConcreteTree → List Char
  | none => []
  | some t => r.text t

/-- The text of a node as a string. -/
def label (t : ConcreteTree) : String := String.ofList (r.text t)

/-- Whether a node is a comment. -/
def isComment (t : ConcreteTree) : Bool := r.vocabulary.comments.contains t.kind

/-- The named children that are no comments. -/
def parts (t : ConcreteTree) : List ConcreteTree := t.namedChildren.filter fun c => !r.isComment c

/-- The body of a node: the field of that name, else its last part. -/
def bodyOf (t : ConcreteTree) : Option ConcreteTree :=
  match t.child? "body" with
  | some b => some b
  | none => (r.parts t).getLast?

/-- The text of a node up to its body, without what opens the body. -/
def header (t : ConcreteTree) (body : Option ConcreteTree) : List Char :=
  let stop := match body with
    | some b => b.start
    | none => t.stop
  let head := Text.normalize (ConcreteTree.slice r.source t.start stop)
  Text.trim (Text.dropEndWhile (· == ':') (Text.dropEndWhile (· == '\x7b') head))

/-- Whether a node is a list of statements. -/
def isBlock (t : ConcreteTree) : Bool := r.vocabulary.blocks.contains t.kind

/-- The statements of a body: those of a list, or the body itself. -/
def block : Option ConcreteTree → Logged (List Stmt)
  | none => pure []
  | some t =>
    if r.isBlock t then (r.parts t).mapM r.below
    else do return [← r.below t]

/-! ### Choices and loops -/

/-- A choice. A clause around the other branch stands for its first part. -/
def branch (t : ConcreteTree) : Logged Stmt := do
  let consequence := t.child? "consequence"
  let alternative := match t.child? "alternative" with
    | none => none
    | some a => if a.kind == "else_clause" then (r.parts a).head? else some a
  let text := String.ofList (r.header t consequence)
  let cond := String.ofList (Text.stripParens (r.textOf (t.child? "condition")))
  return .branch t.line text cond (← r.block consequence) (← r.block alternative)

/-- A loop with a header: a counted one if the header has three parts. -/
def forLoop (t : ConcreteTree) : Logged Stmt := do
  let body := r.bodyOf t
  let head := r.header t body
  let stmts ← r.block body
  match Text.splitTop (· == ';') (Text.groupAfter "for".toList head) with
  | [init, cond, update] =>
    return .countedLoop t.line (String.ofList head) (String.ofList init)
      (if cond.isEmpty then "forever" else String.ofList cond) (String.ofList update) stmts
  | _ => return .loop t.line (String.ofList head) stmts []

/-- A loop that tests its condition at the end. -/
def doLoop (t : ConcreteTree) : Logged Stmt := do
  let text := match t.child? "condition" with
    | some c => "do while " ++ String.ofList (Text.stripParens (r.text c))
    | none => "do while"
  return .loop t.line text (← r.block (r.bodyOf t)) []

/-- A loop that tests its condition at the start. -/
def whileLoop (t : ConcreteTree) : Logged Stmt := do
  let body := r.bodyOf t
  return .loop t.line (String.ofList (r.header t body)) (← r.block body) []

/-! ### Guarded bodies and resources -/

/-- The label of a handler: what its head says after the keyword. -/
def handlerLabel (t : ConcreteTree) : String :=
  let head := r.header t (r.bodyOf t)
  let head := (Text.wordHere? "catch".toList none head).getD head
  let head := Text.stripParens (Text.trim head)
  if head.isEmpty then "Catch" else "Catch: " ++ String.ofList head

/-- The handlers and the cleanup among the parts of a guarded body; a later cleanup replaces an
earlier one. -/
def clauses : List ConcreteTree → Logged (List (Handler Stmt) × Option (Cleanup Stmt))
  | [] => pure ([], none)
  | t :: ts => do
    if t.kind == "catch_clause" then
      let handler : Handler Stmt := ⟨r.handlerLabel t, t.line, ← r.block (r.bodyOf t)⟩
      let (handlers, cleanup) ← clauses ts
      return (handler :: handlers, cleanup)
    else if t.kind == "finally_clause" then
      let cleanup : Cleanup Stmt := ⟨t.line, ← r.block (r.bodyOf t)⟩
      let (handlers, later) ← clauses ts
      return (handlers, later.or (some cleanup))
    else clauses ts

/-- A guarded body. Its resources, if it names some, are closed before a handler or the cleanup
runs. -/
def guarded (t : ConcreteTree) : Logged Stmt := do
  let (handlers, cleanup) ← r.clauses (r.parts t)
  let body ← r.block (t.child? "body")
  let resources := if r.vocabulary.hasGuardedResources then t.child? "resources" else none
  match resources with
  | none => return .guarded t.line "Try" body [] handlers cleanup
  | some res =>
    let text := "Resources: " ++ String.ofList (Text.stripParens (r.text res))
    let inner := Stmt.resource t.line text body "Auto-Close Resources"
    if handlers.isEmpty && cleanup.isNone then return inner
    else return .guarded t.line "Try" [inner] [] handlers cleanup

/-- A body with a resource. -/
def resource (t : ConcreteTree) : Logged Stmt := do
  let body := r.bodyOf t
  let close := ((r.vocabulary.closings.find? fun c => c.1 == t.kind).map (·.2)).getD "End Using"
  return .resource t.line (String.ofList (r.header t body)) (← r.block body) close

/-! ### Switches -/

/-- What a switch looks at. -/
def subject (t : ConcreteTree) : List Char :=
  match (t.child? "condition").or (t.child? "value") with
  | some s => Text.stripParens (r.text s)
  | none => Text.groupAfter "switch".toList (r.header t (r.bodyOf t))

/-- Whether a node is the mark between a case's label and its statements. -/
def isCaseMark (t : ConcreteTree) : Bool := !t.isNamed && (t.kind == ":" || t.kind == "->")

/-- The nodes after the last mark of a switch group, with that mark; none without a mark. -/
def afterMark? : List ConcreteTree → Option (ConcreteTree × List ConcreteTree)
  | [] => none
  | t :: ts =>
    match afterMark? ts with
    | some found => some found
    | none => if isCaseMark t then some (t, ts) else none

/-- Whether a node's kind says that it is a label. -/
def isLabel (t : ConcreteTree) : Bool := Text.occurs "label".toList t.kind.toList

/-- The label text and the statement nodes of a switch group. -/
def caseParts (t : ConcreteTree) : List Char × List ConcreteTree :=
  let named := t.children.filter (·.isNamed)
  let (label, stmts) := match afterMark? t.children with
    | some (mark, rest) =>
      (ConcreteTree.slice r.source t.start mark.start,
        rest.filter fun c => c.isNamed && !r.isComment c)
    | none =>
      ([' '].intercalate ((named.filter isLabel).map r.text),
        named.filter fun c => !isLabel c && !r.isComment c)
  match t.childrenIn "body" with
  | [] => (label, stmts)
  | bodies => (label, bodies.filter fun c => !r.isComment c)

/-- Whether a case value is the word for the default case. -/
def isDefaultValue (v : List Char) : Bool := "default".toList.isPrefixOf v

/-- The statements of nodes in a row. -/
def blocks : List ConcreteTree → Logged (List Stmt)
  | [] => pure []
  | t :: ts => do
    let first ← r.block (some t)
    return first ++ (← blocks ts)

/-- The values in the label text of a switch group. -/
def caseValues (label : List Char) : List (List Char) :=
  ((Text.splitOnWord "case".toList label).map fun v =>
    Text.trim (Text.dropEndWhile (· == ':') (Text.trim v))).filter (!·.isEmpty)

/-- A case of a switch on `subject`. A jump out of the switch at the end of its statements goes. -/
def switchCase (subject : List Char) (t : ConcreteTree) : Logged (Case Stmt) := do
  let (label, nodes) := r.caseParts t
  let all := caseValues label
  let isDefault := t.kind == "switch_default" || all.any isDefaultValue
  let values := all.filter (!isDefaultValue ·)
  let nodes := match nodes.getLast? with
    | some last => if last.kind == "break_statement" then nodes.dropLast else nodes
    | none => nodes
  let stmts ← r.blocks nodes
  let text :=
    if values.isEmpty then "default"
    else String.ofList (subject ++ " is ".toList ++ " or ".toList.intercalate values)
  return ⟨text, t.line, isDefault, stmts⟩

/-- A switch. -/
def switch (t : ConcreteTree) : Logged Stmt := do
  let subject := r.subject t
  let body := r.bodyOf t
  let groups := ((body.map r.parts).getD []).filter fun g =>
    r.vocabulary.groups.contains g.kind
  let cases ← groups.mapM (r.switchCase subject)
  return .switch t.line (String.ofList (r.header t body)) (String.ofList subject) cases

/-! ### Functions and containers -/

/-- The name of a declaration. -/
def nameOf (t : ConcreteTree) : String :=
  match t.child? "name" with
  | some n => r.label n
  | none => "anonymous"

/-- What a function's label starts with. -/
def functionHead (t : ConcreteTree) : String :=
  if "async".toList.isPrefixOf (Text.trimStart (r.text t)) then "Async Func: " else "Func: "

/-- A function declaration. -/
def function (t : ConcreteTree) : Logged Stmt := do
  let body ← r.block (t.child? "body")
  return .function t.line (r.functionHead t ++ r.nameOf t) body

/-- Keywords of containers and what they are called. -/
def containerNames : List (String × String) :=
  [("class", "Class"), ("interface", "Interface"), ("namespace", "Namespace"), ("enum", "Enum"),
    ("struct", "Struct"), ("record", "Record")]

/-- A container of declarations. Without a body its members are its other children. -/
def container (t : ConcreteTree) : Logged Stmt := do
  let body := t.child? "body"
  let head := r.header t body
  let kind := ((containerNames.find? fun k => Text.hasWord k.1.toList head).map (·.2)).getD "Class"
  let members ←
    match body with
    | some _ => r.block body
    | none =>
      let own := (t.child? "name").map (·.start)
      ((r.parts t).filter fun c => some c.start != own).mapM r.below
  return .container t.line (kind ++ ": " ++ r.nameOf t) members

/-! ### Other statements -/

/-- A declaration of one name whose value is a function with a body of its own. -/
def functionValue? (t : ConcreteTree) : Option (Logged Stmt) :=
  match t.namedChildren.filter fun c => c.kind == "variable_declarator" with
  | [d] => do
    let value ← d.child? "value"
    let body ← value.child? "body"
    if r.vocabulary.functionValues.contains value.kind && body.kind == "statement_block" then
      let name := String.ofList (r.textOf (d.child? "name"))
      return do
        let stmts ← r.block body
        return .function t.line
          (r.functionHead value ++ (if name.isEmpty then "anonymous" else name)) stmts
    else none
  | _ => none

/-- A statement without parts of its own; one that only holds a switch is that switch. -/
def plain (t : ConcreteTree) : Logged Stmt :=
  match r.parts t with
  | [k] =>
    if t.kind == "expression_statement" && r.vocabulary.switches.contains k.kind then r.switch k
    else return .simple t.line (r.label t)
  | _ => return .simple t.line (r.label t)

/-- A statement of no special kind: a function in a declaration, a chain of calls, or a step. -/
def simple (t : ConcreteTree) : Logged Stmt :=
  let function :=
    if r.vocabulary.declarations.contains t.kind then r.functionValue? t else none
  match function with
  | some f => f
  | none =>
    let text := r.text t
    if r.vocabulary.splitsChains && t.kind == "expression_statement" && Text.hasChainCall text then
      match Text.splitChain text with
      | [_] => r.plain t
      | calls =>
        if calls.isEmpty then r.plain t
        else return .block t.line (calls.map fun c => .simple t.line (String.ofList c))
    else r.plain t

/-- A statement around another one; without one it is a step. -/
def wrapper (t : ConcreteTree) : Logged Stmt :=
  let inner := (r.parts t).filter fun k =>
    k.kind != "identifier" && k.kind != "statement_identifier"
  match inner.getLast? with
  | some k => r.below k
  | none => return .simple t.line (r.label t)

/-- The statement of a node. -/
def stmt (t : ConcreteTree) : Logged Stmt :=
  let v := r.vocabulary
  let is (kinds : List String) : Bool := kinds.contains t.kind
  if v.skippedHeads.any fun h => h.toList.isPrefixOf t.kind.toList then return .skip
  else if is v.comments || is v.skipped then return .skip
  else if is v.blocks then do return .block t.line (← r.block (some t))
  else if is v.wrappers then r.wrapper t
  else if t.kind == "if_statement" then r.branch t
  else if t.kind == "for_statement" then r.forLoop t
  else if t.kind == "do_statement" then r.doLoop t
  else if is v.loops then r.whileLoop t
  else if is v.guarded then r.guarded t
  else if is v.switches then r.switch t
  else if is v.resources then r.resource t
  else if is v.terminals then return .terminal t.line (r.label t)
  else if is v.functions then r.function t
  else if is v.containers then r.container t
  else do
    if t.kind == "ERROR" then
      Logged.write .warning ("[WARN] [PARSE] Unparsed region at line " ++ toString t.line)
    r.simple t

end Reading

/-- The reading of trees of at most `height` levels. -/
def readTree (v : Vocabulary) (source : List UInt8) : (height : Nat) → ConcreteTree → Logged Stmt
  | 0, _ => return .skip
  | height + 1, t => Reading.stmt ⟨v, source, readTree v source height⟩ t

/-- The statements of a program. An error in its tree is reported, and the rest read as well as it
can be. -/
def readProgram (v : Vocabulary) (source : List UInt8) (root : ConcreteTree) :
    Logged (List Stmt) := do
  match root.firstError? with
  | some e =>
    Logged.write .warning ("[WARN] [PARSE] " ++ v.reader ++ ": syntax error near line " ++
      toString e.line ++ " (" ++ e.kind ++ "), lowering best-effort")
  | none => pure ()
  Reading.block ⟨v, source, readTree v source (root.height + 1)⟩ root

end Flowchart
