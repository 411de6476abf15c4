import Flowchart.Log
import Flowchart.Settings
import Flowchart.Text.Blank
import Flowchart.Text.Lines
import Flowchart.Trace

/-!
# Asking a model for a trace

A language model is asked to run a program in its head: `prompt` is the question, `ofReply` makes
steps of the answer. The answer is JSON, perhaps inside a fence; anything else gives no steps.
-/

namespace Flowchart.Trace

/-- How a model is asked: which one, and how it chooses its words. -/
structure ModelOptions where
  model : String
  temperature : Float := 0.1
  topK : Int := 10
  topP : Float := 0.9

/-- Options for a model; without a name that of the settings. -/
def ModelOptions.ofName (s : Settings) (name : Option String) : ModelOptions where
  model := match name with
    | some n => if n.isEmpty then s.model else n
    | none => s.model

/-- The options by name. -/
def ModelOptions.fields (o : ModelOptions) : List (String × Json) :=
  [("model", .str o.model), ("temperature", .float o.temperature), ("top_k", .int o.topK),
    ("top_p", .float o.topP)]

/-- What a model answers. -/
inductive Reply where
  | content (text : Option String)
  | failed (reason : String)

/-- Lines with their numbers, counted from `n`. -/
def numberedFrom : (n : Nat) → List (List Char) → List String
  | _, [] => []
  | n, line :: lines =>
    (toString n ++ ": " ++ String.ofList line) :: numberedFrom (n + 1) lines

/-- A program with its lines numbered. -/
def numbered (code : String) : String :=
  "\n".intercalate (numberedFrom 1 (Text.lines code.toList))

/-- The question about a program in a language, with the values of its inputs. -/
def prompt (code language : String) (inputs : List (String × Json)) : String :=
  "\nYou are a precise program execution tracer.\n\n" ++
  "Simulate the " ++ language ++ " program below line by line and report every executed step.\n\n" ++
  "STRICT RULES:\n" ++
  "- Do NOT invent lines; use the line numbers shown\n" ++
  "- Record variables in scope after the step, with their value and type\n" ++
  "- \"output\" is the full program output so far\n" ++
  "- Do NOT add a step for \"loop finished\" or \"program ends\"\n\n" ++
  "OUTPUT FORMAT:\n" ++
  "Return STRICT JSON only: a list of objects\n" ++
  "\x7b\"step\": int, \"line\": int, \"variables\": \x7b\"name\": \x7b\"value\": str, " ++
  "\"type\": str\x7d\x7d, \"explanation\": str, \"output\": str\x7d\n\n" ++
  "User input values: " ++ (Json.obj inputs).write Json.spaced ++ "\n\n" ++
  "Program:\n" ++ numbered code ++ "\n\nJSON:"

/-- A fence. -/
def fence : List Char := ['\x60', '\x60', '\x60']

/-- A trimmed answer without the fence before it, if there is one. -/
def openFence (cs : List Char) : List Char :=
  match fence.isPrefixOf? cs with
  | none => cs
  | some rest => (("json".toList.isPrefixOf? rest).getD rest).dropWhile Text.isBlank

/-- An answer without the fence at its end, if there is one. -/
def closeFence (cs : List Char) : List Char :=
  if fence.isSuffixOf cs then Text.trimEnd (cs.take (cs.length - fence.length)) else cs

/-- An answer without blanks and fences around it. -/
def unfenced (cs : List Char) : List Char := closeFence (openFence (Text.trim cs))

/-- The steps that a JSON answer reports: in a list, or in an object as the field of that name. -/
def ofAnswer (j : Json) : Except Overflow (List Step) :=
  let reports := match j with
    | .obj _ => (j.field? "steps").getD (.arr [])
    | j => j
  (Step.ofReport reports).map Step.dropTermination

/-- The steps in a model's reply; an answer of more than `maxHeight` levels is not understood. -/
def ofReply (maxHeight : Nat) (reply : Reply) : Logged (Except Overflow (List Step)) := do
  Logged.write .debug "[LLM] Tracing program"
  match reply with
  | .failed reason =>
    Logged.write .warning ("[WARN] [LLM] Trace failed: " ++ reason)
    return .ok []
  | .content text =>
    Logged.write .debug ("[LLM] Completed in " ++ elapsed)
    match Json.read? maxHeight (String.ofList (unfenced (text.getD "").toList)) with
    | none =>
      Logged.write .warning "[WARN] [LLM] Trace failed"
      return .ok []
    | some j => return ofAnswer j

/-- The question that is asked about a program; none about a blank one. -/
def question? (code language : String) (inputs : List (String × Json)) : Option String :=
  if isBlankText code then none else some (prompt code language inputs)

/-- The trace of a program by a model, if there is one. The inputs are values that JSON can write, so
that there always is a question: what is no such value is not among the inputs of a program here, and
what becomes of it is not said. Everything that goes wrong after the question is asked ends in a trace
without steps, but for a number that is too large. -/
def trace (maxHeight : Nat) (model : Option (String → Reply)) (code language : String)
    (inputs : List (String × Json)) : Logged (Except Overflow (List Step)) :=
  match model, question? code language inputs with
  | some ask, some q => ofReply maxHeight (ask q)
  | _, _ => return .ok []

end Flowchart.Trace
