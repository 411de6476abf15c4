/-!
# Vocabularies

Grammars of brace languages differ in the kinds of nodes that play a part in a statement's shape. A
`Vocabulary` lists them for one grammar; the reading of trees into statements is the same for all.
-/

namespace Flowchart

/-- The kinds of nodes of one grammar, by the part they play. -/
structure Vocabulary where
  /-- What the reader of this grammar is called in messages. -/
  reader : String
  comments : List String := ["comment", "line_comment", "block_comment"]
  /-- Kinds that are not drawn, and what kinds that are not drawn start with. -/
  skipped : List String
  skippedHeads : List String := []
  /-- Statement lists. -/
  blocks : List String
  /-- Statements around a single statement. -/
  wrappers : List String := []
  loops : List String
  guarded : List String := ["try_statement"]
  switches : List String := ["switch_statement"]
  /-- The groups of a switch. -/
  groups : List String
  /-- Bodies with a resource, and what closing it is called where that is not the usual. -/
  resources : List String := []
  closings : List (String × String) := []
  terminals : List String := ["return_statement", "throw_statement"]
  functions : List String
  containers : List String
  /-- Declarations that may hold a function as their value, and the kinds of such values. -/
  declarations : List String := []
  functionValues : List String := []
  /-- Whether guarded bodies may name resources, and whether chained calls are drawn one by one. -/
  hasGuardedResources : Bool := false
  splitsChains : Bool := false

namespace Vocabulary

/-- The vocabulary of Java. -/
def java : Vocabulary where
  reader := "JavaAdapter"
  skipped := ["import_declaration", "package_declaration", "module_declaration",
    "marker_annotation"]
  blocks := ["program", "block", "class_body", "interface_body", "constructor_body", "enum_body",
    "enum_body_declarations"]
  loops := ["while_statement", "enhanced_for_statement"]
  guarded := ["try_statement", "try_with_resources_statement"]
  switches := ["switch_statement", "switch_expression"]
  groups := ["switch_block_statement_group", "switch_rule"]
  functions := ["method_declaration", "constructor_declaration",
    "compact_constructor_declaration"]
  containers := ["class_declaration", "interface_declaration", "enum_declaration",
    "record_declaration"]
  hasGuardedResources := true

/-- The vocabulary of C#. -/
def csharp : Vocabulary where
  reader := "CSharpAdapter"
  skipped := ["using_directive", "extern_alias_directive", "empty_statement", "attribute_list"]
  skippedHeads := ["preproc"]
  blocks := ["compilation_unit", "block", "declaration_list", "enum_member_declaration_list"]
  wrappers := ["global_statement", "labeled_statement"]
  loops := ["while_statement", "foreach_statement"]
  groups := ["switch_section"]
  resources := ["using_statement", "lock_statement"]
  closings := [("lock_statement", "End Lock")]
  functions := ["method_declaration", "constructor_declaration", "destructor_declaration",
    "local_function_statement", "operator_declaration"]
  containers := ["class_declaration", "interface_declaration", "struct_declaration",
    "record_declaration", "enum_declaration", "namespace_declaration",
    "file_scoped_namespace_declaration"]

/-- The vocabulary of JavaScript, shared by TypeScript and its dialect with tags. -/
def javascript : Vocabulary where
  reader := "JavaScriptAdapter"
  skipped := ["import_statement", "empty_statement", "hash_bang_line", "export_clause",
    "interface_declaration", "type_alias_declaration", "ambient_declaration",
    "function_signature"]
  blocks := ["program", "statement_block", "class_body"]
  wrappers := ["export_statement", "labeled_statement"]
  loops := ["while_statement", "for_in_statement"]
  groups := ["switch_case", "switch_default"]
  functions := ["function_declaration", "generator_function_declaration", "method_definition"]
  containers := ["class_declaration", "abstract_class_declaration", "internal_module", "module"]
  declarations := ["lexical_declaration", "variable_declaration"]
  functionValues := ["arrow_function", "function_expression", "function", "generator_function"]
  splitsChains := true

end Vocabulary

end Flowchart
