import Flowchart.Label
import Flowchart.Text.Fold
import Flowchart.Text.Search

/-!
# Source languages

The languages whose programs can be drawn, and how a free-form label names one: the label is trimmed
and its letters made small, then the rules below are tried in order, queries first.
-/

namespace Flowchart

/-- A family of languages that are drawn alike. -/
inductive Family where
  | python
  | java
  | javascript
  | typescript
  | csharp
  | sql
  deriving DecidableEq, Repr

/-- The name of a family. -/
def Family.name : Family → String
  | .python => "python"
  | .java => "java"
  | .javascript => "javascript"
  | .typescript => "typescript"
  | .csharp => "csharp"
  | .sql => "sql"

/-- A dialect of the query language. -/
inductive Dialect where
  | tsql
  | mysql
  | spark
  | generic
  deriving DecidableEq, Repr

/-- The name of a dialect. -/
def Dialect.name : Dialect → String
  | .tsql => "tsql"
  | .mysql => "mysql"
  | .spark => "spark"
  | .generic => "generic"

/-- A language: what it is drawn like, the dialect of a query language, and the grammar that gives
its concrete syntax trees, if there is one. -/
structure Language where
  family : Family
  dialect : Option Dialect := none
  grammar : Option String := none
  deriving DecidableEq, Repr

namespace Language

/-- How labels of the language are escaped. -/
def labelMode (l : Language) : LabelMode :=
  match l.family with
  | .javascript | .typescript => .strict
  | _ => .lenient

/-- Whether traces of the language report only the variables that changed. -/
def accumulatesVariables (l : Language) : Bool :=
  match l.family with
  | .java | .javascript | .typescript | .csharp => true
  | .python | .sql => false

/-- Whether one of the texts occurs in the key. -/
def mentions (key : List Char) (parts : List String) : Bool :=
  parts.any fun p => Text.occurs p.toList key

/-- Whether the key is one of the texts. -/
def isOne (key : List Char) (names : List String) : Bool := names.any fun n => n.toList == key

/-- The dialect that a key of the query language names. -/
def dialectOf (key : List Char) : Dialect :=
  if mentions key ["spark", "hive", "databricks"] then .spark
  else if mentions key ["mysql", "maria"] then .mysql
  else if mentions key ["server", "tsql", "t-sql", "mssql"] then .tsql
  else .generic

/-- Whether the key is `java` with an optional version number after blanks. -/
def isVersionedJava (key : List Char) : Bool :=
  match "java".toList.isPrefixOf? key with
  | none => false
  | some rest => (rest.dropWhile Text.isBlank).all Text.isDigit

/-- The language of a key of small letters without blanks at its ends. -/
def ofKey? (key : List Char) : Option Language :=
  if key.isEmpty then none
  else if mentions key ["sql"] || isOne key ["spark", "tsql", "t-sql", "mssql", "hive"] then
    some ⟨.sql, some (dialectOf key), some "sql"⟩
  else if isOne key ["py"] || "python".toList.isPrefixOf key then some ⟨.python, none, none⟩
  else if isOne key ["c#", "csharp", "cs", "c sharp", "c-sharp", ".net"] then
    some ⟨.csharp, none, some "csharp"⟩
  else if isOne key ["tsx"] then some ⟨.typescript, none, some "tsx"⟩
  else if isOne key ["ts"] || mentions key ["typescript"] then
    some ⟨.typescript, none, some "typescript"⟩
  else if isOne key ["js", "jsx", "node", "nodejs", "ecmascript"] ||
      mentions key ["javascript"] then
    some ⟨.javascript, none, some "javascript"⟩
  else if isVersionedJava key then some ⟨.java, none, some "java"⟩
  else none

/-- The language a label names, if it names one. -/
def resolve? (label : String) : Option Language :=
  ofKey? (Text.lower (Text.trim label.toList))

end Language

end Flowchart
