import Flowchart.Decimal.Text
import Flowchart.Json.Basic

/-!
# The command line

The words of a command line and what they ask for. A word is an argument, the divider `--`, or a
switch; after the divider all words are arguments. A long switch may be shortened as long as it stays
unambiguous, and takes its value after an equals sign or from the next word. A short one takes its
value from the rest of the word or from the next, and those without a value may be written together.

A divider that is written as a value in the word of its switch is taken out: the switch is then given
without a value.

Words are read in two passes: `Word.readAll` tells what each of them is, `Options.read` goes through
them from left to right. A word that makes no sense may be noticed in either; a request for help ends
the second pass where it stands.
-/

namespace Flowchart.Command

/-- The switches. -/
inductive Switch where
  | help
  | language
  | format
  | render
  | renderProgram
  | renderTimeout
  | labelLimit
  | trace
  | input
  | model
  | verbose
  deriving DecidableEq, Repr

/-- Whether a switch takes a value. -/
def Switch.takesValue : Switch → Bool
  | .help | .verbose => false
  | _ => true

/-- The names of switches. -/
def switchNames : List (String × Switch) :=
  [("-h", .help), ("--help", .help), ("--language", .language), ("-l", .language),
    ("--format", .format), ("--render", .render), ("--mermaid-cli", .renderProgram),
    ("--render-timeout", .renderTimeout), ("--max-label", .labelLimit), ("--trace", .trace),
    ("--input", .input), ("--ollama-model", .model), ("--verbose", .verbose), ("-v", .verbose)]

/-- The switch of a name. -/
def switch? (name : List Char) : Option Switch := get? switchNames (String.ofList name)

/-- The switches whose names start in some way. -/
def switchesFrom (start : List Char) : List Switch :=
  (switchNames.filter fun n => start.isPrefixOf n.1.toList).map (·.2)

/-- Why no options came about. -/
inductive Stop where
  /-- Help was asked for. -/
  | help
  /-- The command line makes no sense. -/
  | misuse
  deriving DecidableEq, Repr

/-- The exit code for a command line without options. -/
def Stop.exitCode : Stop → Nat
  | .help => 0
  | .misuse => 2

/-! ### Words -/

/-- A word of the command line. -/
inductive Word where
  | argument (text : String)
  | divider
  /-- A switch, by a short name or a long one, and what follows the name in the same word. -/
  | switch (s : Switch) (isShort : Bool) (attached : Option (List Char))
  /-- A word that looks like a switch and is none. -/
  | unknown
  deriving DecidableEq, Repr

/-- Whether a text is a hyphen and a number, whole or with a point; a line feed may follow. -/
def isNegativeNumber : List Char → Bool
  | '-' :: cs =>
    let back := cs.reverse
    let cs := (if back.head? = some '\n' then back.tail else back).reverse
    match cs.dropWhile Text.isDigit with
    | [] => !cs.isEmpty
    | '.' :: fraction => !fraction.isEmpty && fraction.all Text.isDigit
    | _ => false
  | _ => false

namespace Word

/-- A word that starts like a switch but has no switch's name. -/
def other (cs : List Char) : Word :=
  if isNegativeNumber cs || cs.contains ' ' then .argument (String.ofList cs) else .unknown

/-- A switch's name and the value after an equals sign, if there is one. -/
def splitValue (cs : List Char) : List Char × Option (List Char) :=
  match cs.dropWhile (· != '=') with
  | [] => (cs, none)
  | _ :: value => (cs.takeWhile (· != '='), some value)

/-- A word that starts with two hyphens: a long switch, perhaps shortened; none if it may be several. -/
def readLong (cs : List Char) : Except Stop Word :=
  let (name, attached) := splitValue cs
  match switchesFrom name with
  | [] => .ok (other cs)
  | [s] => .ok (.switch s false attached)
  | _ => .error .misuse

/-- A word that starts with one hyphen: a short switch with the rest of the word, or neither. -/
def readShort (cs : List Char) : Word :=
  match switch? (cs.take 2) with
  | some s => .switch s true (some (cs.drop 2))
  | none => other cs

/-- Whether a switch's name is of the short kind. -/
def isShortName (name : List Char) : Bool := name.length == 2

/-- What a word is, in front of the divider. -/
def read (text : String) : Except Stop Word :=
  let cs := text.toList
  let (name, attached) := splitValue cs
  match switch? cs, attached.bind fun _ => switch? name with
  | some s, _ => .ok (.switch s (isShortName cs) none)
  | none, some s => .ok (.switch s (isShortName name) attached)
  | none, none =>
    match cs with
    | ['-', '-'] => .ok .divider
    | '-' :: '-' :: _ => readLong cs
    | '-' :: _ :: _ => .ok (readShort cs)
    | _ => .ok (.argument text)

/-- What the words are; only the first divider is one. -/
def readAll : List String → Except Stop (List Word)
  | [] => .ok []
  | text :: texts => do
    match ← read text with
    | .divider => return .divider :: texts.map .argument
    | word => return word :: (← readAll texts)

end Word

/-! ### Options -/

/-- What to print. -/
inductive Format where
  | diagram
  | graph
  deriving DecidableEq, Repr

/-- The format of a name. -/
def Format.ofName? (name : String) : Option Format :=
  if name == "mermaid" then some .diagram else if name == "json" then some .graph else none

/-- What the command line asks for. -/
structure Options where
  path : String
  language : Option String
  format : Format := .diagram
  render : Option String := none
  renderProgram : Option String := none
  /-- The limits of render time and of label length; one without a value is of no use. -/
  renderTimeout : Option (Option Float) := none
  labelLimit : Option (Option Int) := none
  trace : Option String := none
  inputs : List (Option String) := []
  model : Option String := none
  verbose : Bool := false

/-- Options on the way: the path and the language are still to come, and words may be left over. -/
structure Draft where
  options : Options := { path := "", language := none }
  hasPath : Bool := false
  hasLanguage : Bool := false
  hasExtra : Bool := false

namespace Draft

variable (d : Draft)

/-- Notes a word that has no place. -/
def addExtra : Draft := { d with hasExtra := true }

/-- What a value stands for, if there is a value; it makes no sense if it stands for nothing. -/
def readValue {α : Type} (read? : String → Option α) : Option String → Except Stop (Option α)
  | none => .ok none
  | some value =>
    match read? value with
    | some a => .ok (some a)
    | none => .error .misuse

/-- What a switch asks for. -/
def apply (s : Switch) (value : Option String) : Except Stop Draft := do
  let o := d.options
  match s with
  | .help => throw .help
  | .language => return { d with options := { o with language := value }, hasLanguage := true }
  | .format =>
    let format ← readValue Format.ofName? value
    return { d with options := { o with format := format.getD .diagram } }
  | .render => return { d with options := { o with render := value } }
  | .renderProgram => return { d with options := { o with renderProgram := value } }
  | .renderTimeout =>
    let timeout ← readValue (Decimal.readFloat? ·.toList) value
    return { d with options := { o with renderTimeout := some timeout } }
  | .labelLimit =>
    let limit ← readValue (Decimal.readInt? ·.toList) value
    return { d with options := { o with labelLimit := some limit } }
  | .trace => return { d with options := { o with trace := value } }
  | .input => return { d with options := { o with inputs := o.inputs ++ [value] } }
  | .model => return { d with options := { o with model := value } }
  | .verbose => return { d with options := { o with verbose := true } }

/-- What several switches ask for. -/
def applyAll : Draft → List (Switch × Option String) → Except Stop Draft
  | d, [] => .ok d
  | d, (s, value) :: rest => do applyAll (← d.apply s value) rest

/-- The options, if nothing is missing or left over. -/
def finish : Except Stop Options :=
  if d.hasPath && d.hasLanguage && !d.hasExtra then .ok d.options else .error .misuse

end Draft

/-- The switches in one word: those that are complete, and one that takes the next word as its
value. -/
structure Bundle where
  complete : List (Switch × Option String) := []
  pending : Option Switch := none

/-- Puts a switch without a value before the others. -/
def Bundle.cons (s : Switch) (b : Bundle) : Bundle := { b with complete := (s, none) :: b.complete }

/-- A switch that is alone in its word, or the last one. -/
def Bundle.last (s : Switch) : Bundle :=
  if s.takesValue then { pending := some s } else { complete := [(s, none)] }

/-- A value in the word of its switch; the divider is none. -/
def attachedValue (cs : List Char) : Option String :=
  if cs = ['-', '-'] then none else some (String.ofList cs)

/-- The switches in a word: `s`, then those that the rest of the word names, unless it is the value of
`s`. -/
def bundle (s : Switch) (isShort : Bool) : (rest : List Char) → Except Stop Bundle
  | [] =>
    if s.takesValue then .ok { complete := [(s, some "")] } else .error .misuse
  | c :: cs =>
    if s.takesValue then .ok { complete := [(s, attachedValue (c :: cs))] }
    else if !isShort then .error .misuse
    else
      match switch? ['-', c], cs with
      | none, _ => .error .misuse
      | some t, [] => .ok ((Bundle.last t).cons s)
      | some t, cs => (bundle t true cs).map (·.cons s)

/-- Goes through the words from left to right. `needs` are the switches read from the word before, the
last of which takes the next word as its value. -/
def consume : (needs : Option Bundle) → Draft → List Word → Except Stop Draft
  | none, d, [] => .ok d
  | some _, _, [] => .error .misuse
  | some b, d, .argument text :: ws => do
    let value := (b.pending.map fun s => (s, some text)).toList
    consume none (← d.applyAll (b.complete ++ value)) ws
  | some _, _, _ :: _ => .error .misuse
  | none, d, .argument text :: ws =>
    if d.hasPath then consume none d.addExtra ws
    else
      let d := { d with options := { d.options with path := text }, hasPath := true }
      match ws with
      | .divider :: ws => consume none d ws
      | ws => consume none d ws
  | none, d, .divider :: ws =>
    if d.hasPath || ws.isEmpty then consume none d.addExtra ws else consume none d ws
  | none, d, .unknown :: ws => consume none d.addExtra ws
  | none, d, .switch s isShort attached :: ws => do
    let b ← match attached with
      | none => .ok (Bundle.last s)
      | some rest => bundle s isShort rest
    match b.pending with
    | some _ => consume (some b) d ws
    | none => consume none (← d.applyAll b.complete) ws

/-- The options of a command line. -/
def Options.read (arguments : List String) : Except Stop Options := do
  (← consume none {} (← Word.readAll arguments)).finish

end Flowchart.Command
