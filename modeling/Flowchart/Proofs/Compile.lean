import Flowchart.Compile
import Flowchart.Proofs.Diagram.Assembly
import Flowchart.Proofs.Lowering

/-!
# What compiling gives

Compiling gives no text where there is no source or no language, the fallback where the graph says
too little, and the diagram of the graph otherwise. The graph is writable whatever the parsers
answer (`returns_lower`), so its diagram passes the check, and the branch that reports a failed
check is never taken (`run_diagramOf`).

`Work.Returns P x` says that the result of `x` has the property `P` whichever grammars are loaded
before; it goes through `x` step by step.

## Main results

* `returns_lower`, `returns_wellFormed`: what is drawn is writable and well-formed.
* `run_diagramOf`: its diagram passes the check.
* `compile_text`: what is compiled, for all settings and parsers.
-/

namespace Flowchart

/-- One computation after another: the logs are joined. -/
theorem Logged.bind_eq {α β : Type} (x : Logged α) (f : α → Logged β) :
    x >>= f = ⟨(f x.value).value, x.log ++ (f x.value).log⟩ := rfl

namespace Work

/-- Whichever grammars are loaded before, the result has the property. -/
def Returns {α : Type} (P : α → Prop) (x : Work α) : Prop :=
  ∀ loaded : Grammars, P (x.run loaded).value.1

variable {α β : Type} {P : α → Prop} {Q : β → Prop}

/-- A value returns itself. -/
theorem Returns.pure {a : α} (h : P a) : Returns P (Pure.pure a : Work α) := fun _ => h

/-- Two computations in a row return what the second one does, given what the first one does. -/
theorem Returns.bind {x : Work α} {f : α → Work β} (hx : Returns P x)
    (hf : ∀ a, P a → Returns Q (f a)) : Returns Q (x >>= f) := fun loaded =>
  hf _ (hx loaded) (x.run loaded).value.2

/-- The first part may return anything. -/
theorem Returns.after {x : Work α} {f : α → Work β} (hf : ∀ a, Returns Q (f a)) :
    Returns Q (x >>= f) := fun loaded =>
  hf _ (x.run loaded).value.2

/-- A value with a log returns the value. -/
theorem Returns.ofLogged {x : Logged α} (h : P x.value) : Returns P (Work.ofLogged x) := fun _ => h

end Work

open Work Builder

/-! ### Graphs of sources -/

section Graphs

variable {P : Graph → Prop} (p : Parsers) (s : Settings)

/-- What is drawn of a source has every property that growth gives a graph. -/
theorem Language.returns_draw {l : Language} (hgrown : ∀ b, Grows (l.builder s) b → P b.build)
    (code : String) : Returns (fun r => ∀ g, r = .ok (some g) → P g) (l.draw p s code) := by
  have hfinish : ∀ {b : Builder}, Grows (l.builder s) b →
      Returns (fun r : Except ReadFault (Option Graph) => ∀ g, r = .ok (some g) → P g)
        (do return .ok (some (← Work.ofLogged b.finish))) := by
    intro b hgrows
    have hbuild : P b.build := hgrown b hgrows
    refine Returns.bind (P := P) (Returns.ofLogged hbuild) fun g hg => ?_
    refine Returns.pure fun g' hg' => ?_
    obtain rfl : g = g' := by simpa using hg'
    exact hg
  rw [Language.draw]
  cases l.dialect with
  | some dialect =>
      exact Returns.after fun clauses => hfinish (grows_query _ _ dialect clauses)
  | none =>
      refine Returns.after fun stmts => ?_
      match stmts with
      | .error fault => exact Returns.pure fun g hg => absurd hg (by simp)
      | .ok none => exact Returns.pure fun g hg => absurd hg (by simp)
      | .ok (some stmts) => exact hfinish (grows_program _ _ stmts)

/-- The graph of a source has every property of the empty graph that growth keeps. -/
theorem returns_lower_of (hempty : P {})
    (hgrown : ∀ (l : Language) (b : Builder), Grows (l.builder s) b → P b.build)
    (code label : Option String) : Returns P (lower p s code label) := by
  have hempty : Returns P (pure {}) := Returns.pure hempty
  rw [lower]
  cases languageOf label with
  | none => exact Returns.after fun _ => hempty
  | some l =>
      change Returns P (if isBlankCode code then _ else _)
      split_ifs
      · exact hempty
      · refine Returns.bind (Language.returns_draw p s (hgrown l) (code.getD "")) fun r hr => ?_
        match r with
        | .error fault => exact Returns.after fun _ => hempty
        | .ok none => exact hempty
        | .ok (some g) => exact Returns.after fun _ => Returns.pure (hr g rfl)

/-- The graph of a source is writable. -/
theorem returns_lower (code label : Option String) :
    Returns Graph.Writable (lower p s code label) :=
  returns_lower_of p s Graph.writable_empty (fun _ _ h => h.writable Graph.writable_empty) code label

/-- The graph of a source is well-formed. -/
theorem returns_wellFormed (code label : Option String) :
    Returns Graph.WellFormed (lower p s code label) :=
  returns_lower_of p s ((Grows.refl (Builder.empty .lenient none)).wellFormed.1)
    (fun _ _ h => h.wellFormed.1) code label

end Graphs

/-! ### Texts of graphs -/

/-- The text of a graph that is shown or not. -/
def shownText (s : Settings) (g : Graph) : String :=
  if Diagram.isDegenerate s g then Diagram.fallback else Diagram.assemble s g

/-- A diagram is not the empty text, and not the fallback: it starts with a comment. -/
theorem Diagram.assemble_ne {s : Settings} {g : Graph} (h : g.Writable)
    (hshown : isDegenerate s g = false) : assemble s g ≠ "" ∧ assemble s g ≠ fallback := by
  have hfirst : "%%".toList <+: (assemble s g).toList := by
    rw [toList_assemble h hshown]
    exact (List.isPrefixOf_iff_prefix.mp (headerLine_comment s)).trans (List.prefix_append _ _)
  constructor
  · intro heq
    rw [heq] at hfirst
    exact absurd hfirst (by decide)
  · intro heq
    rw [heq] at hfirst
    exact absurd hfirst (by decide)

/-- A diagram that says too little is the empty text. -/
theorem Diagram.assemble_of_isDegenerate {s : Settings} {g : Graph}
    (h : isDegenerate s g = true) : assemble s g = "" := by
  rw [assemble, h, if_pos rfl]

/-- The diagram of a writable graph is its text, and nothing is reported. -/
theorem run_diagramOf {s : Settings} {g : Graph} (h : g.Writable) (loaded : Grammars) :
    (diagramOf s g).run loaded = ⟨(shownText s g, loaded), []⟩ := by
  rw [diagramOf, shownText]
  cases hshown : Diagram.isDegenerate s g with
  | true =>
      simp only [Diagram.assemble_of_isDegenerate hshown]
      rfl
  | false =>
      have hne : (Diagram.assemble s g).isEmpty = false := by
        rw [Bool.eq_false_iff, ne_eq, String.isEmpty_iff]
        exact (Diagram.assemble_ne h hshown).1
      simp only [hne, Diagram.check_assemble h hshown]
      rfl

/-- Where there is a source and a language, compiling is lowering and writing down the graph. -/
theorem run_compile (p : Parsers) (s : Settings) {code label : Option String}
    (hcode : isBlankCode code = false) (hlabel : languageOf label ≠ none) (loaded : Grammars) :
    (compile p s code label).run loaded =
      let lowered := (lower p s code label).run loaded
      ⟨((lowered.value.1, shownText s lowered.value.1), lowered.value.2), lowered.log⟩ := by
  have hgo : (isBlankCode code || (languageOf label).isNone) = false := by
    rw [hcode, Bool.false_or, Option.isNone_eq_false_iff, Option.isSome_iff_ne_none]
    exact hlabel
  have hwritable := returns_lower p s code label loaded
  rw [compile, hgo, if_neg Bool.noConfusion]
  simp only [StateT.run_bind, StateT.run_pure]
  rw [Logged.bind_eq, run_diagramOf hwritable, Logged.bind_eq]
  simp only [Logged.value_pure, Logged.log_pure, List.append_nil]

/-- What compiling gives, for every source, language, settings and parsers: no text exactly where
there is no source or no language, the fallback exactly where the graph says too little, and
otherwise the diagram of the graph, which passes the check. Writing it down reports nothing. -/
theorem compile_text (p : Parsers) (s : Settings) (code label : Option String)
    (loaded : Grammars) :
    let result := (compile p s code label).run loaded
    let graph := result.value.1.1
    let text := result.value.1.2
    (text = "" ↔ isBlankCode code = true ∨ languageOf label = none) ∧
      (text ≠ "" →
        (text = Diagram.fallback ↔ Diagram.isDegenerate s graph = true) ∧
        (text ≠ Diagram.fallback →
          text = Diagram.assemble s graph ∧ Diagram.check text = .ok ()) ∧
        result.log = ((lower p s code label).run loaded).log) := by
  intro result graph text
  have hfallback : Diagram.fallback ≠ "" := by decide
  by_cases hnothing : isBlankCode code = true ∨ languageOf label = none
  · have htext : text = "" := by
      have hstop : (isBlankCode code || (languageOf label).isNone) = true := by
        rcases hnothing with h | h <;> simp [h]
      have hrun : (compile p s code label).run loaded = ⟨(({}, ""), loaded), []⟩ := by
        rw [compile, hstop, if_pos rfl]
        rfl
      exact congrArg (fun r => r.value.1.2) hrun
    exact ⟨iff_of_true htext hnothing, fun hne => absurd htext hne⟩
  · obtain ⟨hcode, hlabel⟩ := not_or.mp hnothing
    have hrun := run_compile p s (Bool.eq_false_iff.mpr hcode) hlabel loaded
    have hgraph : graph = ((lower p s code label).run loaded).value.1 :=
      congrArg (fun r => r.value.1.1) hrun
    have hwritable : graph.Writable := by
      rw [hgraph]
      exact returns_lower p s code label loaded
    have htext : text = shownText s graph := by
      rw [hgraph]
      exact congrArg (fun r => r.value.1.2) hrun
    have hlog : result.log = ((lower p s code label).run loaded).log := congrArg Logged.log hrun
    rw [shownText] at htext
    cases hshown : Diagram.isDegenerate s graph with
    | true =>
        rw [hshown, if_pos rfl] at htext
        refine ⟨iff_of_false (htext ▸ hfallback) hnothing, fun _ => ?_⟩
        exact ⟨iff_of_true htext rfl, fun hne => absurd htext hne, hlog⟩
    | false =>
        rw [hshown, if_neg Bool.noConfusion] at htext
        obtain ⟨hne, hne'⟩ := Diagram.assemble_ne hwritable hshown
        refine ⟨iff_of_false (htext ▸ hne) hnothing, fun _ => ?_⟩
        refine ⟨iff_of_false (htext ▸ hne') Bool.noConfusion, fun _ => ⟨htext, ?_⟩, hlog⟩
        rw [htext]
        exact Diagram.check_assemble hwritable hshown

end Flowchart
