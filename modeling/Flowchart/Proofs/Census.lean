import Flowchart.Proofs.Drawing.Visits
import Mathlib.Data.List.Count
import Mathlib.Data.List.Perm.Subperm

/-!
# A census of what is drawn

Every step and every terminal of a program is drawn as one node, and all other nodes are merge
points or stand for the header of some statement. The one exception is a switch with several
defaults: only the first of them is drawn, and what stands in the others is lost (`lostBlock`).

`Stmt.collect` goes through a statement at whatever depth; it gives the steps and terminals
(`Stmt.leaf`), the headers (`Stmt.headers`) and the switches (`Stmt.switches`). `Census` says which
of some nodes stand for which of these, and `Drawing.Counts` that a computation adds such nodes
whatever has been drawn before; where its edges lead plays no part. `census_program` is the result
for programs.

## What is compared

A node and a statement are compared by their `Face`, which is shape, text and line. Ids, exits and edges
are left out, so a statement counts the same wherever it is drawn. Leaves and nodes are matched one by
one, as lists up to their order. Headers only bound what else there may be, since not every header has a
node of its own.

## How statements are counted

`Counts` is kept by `bind`, so the census of a computation is put together like the computation itself.
There is a lemma for each kind of statement (`counts_branch`, `counts_loop` and so on) that takes the
census of its parts for granted, and the recursion over all kinds does no more than to hand these parts
over. The cases of a switch are not drawn in their order, as its default comes last, so their faces are
the same up to order only (`collectCases_perm`, `lostCases_perm`).

## Main results

* `counts_lowerStmt`: drawing a statement draws the nodes that the census asks for.
* `census_program`: so does drawing a program, and nothing is lost if no switch has two defaults.
* `census_twoDefaults`: a switch with two defaults, of which the second is lost.
-/

namespace Flowchart

/-! ### What a program holds -/

/-- What a node shows of the source: how it is drawn, the text it was made from, and its line. -/
structure Face where
  shape : Shape
  text : String
  line : Option Int
  deriving DecidableEq, Repr

/-- The face of a node. -/
def Node.face (n : Node) : Face := ⟨n.shape, n.raw, n.line⟩

section Collect
variable {α : Type} (f : Stmt → List α)

mutual
/-- What `f` finds in a statement and in all statements inside of it. -/
def Stmt.collect (s : Stmt) : List α :=
  f s ++ match s with
    | .simple _ _ | .terminal _ _ | .skip => []
    | .branch _ _ _ body orelse | .loop _ _ body orelse => collectBlock body ++ collectBlock orelse
    | .guarded _ _ body orelse handlers cleanup =>
      collectBlock body ++ (collectBlock orelse ++
        (collectHandlers handlers ++ collectCleanup cleanup))
    | .switch _ _ _ cases => collectCases cases
    | .countedLoop _ _ _ _ _ body | .resource _ _ body _ | .function _ _ body
    | .container _ _ body | .block _ body => collectBlock body

/-- What `f` finds in the statements of a block. -/
def collectBlock : List Stmt → List α
  | [] => []
  | s :: rest => s.collect ++ collectBlock rest

/-- What `f` finds in handlers. -/
def collectHandlers : List (Handler Stmt) → List α
  | [] => []
  | ⟨_, _, body⟩ :: rest => collectBlock body ++ collectHandlers rest

/-- What `f` finds in the cases of a switch. -/
def collectCases : List (Case Stmt) → List α
  | [] => []
  | ⟨_, _, _, body⟩ :: rest => collectBlock body ++ collectCases rest

/-- What `f` finds in a cleanup. -/
def collectCleanup : Option (Cleanup Stmt) → List α
  | none => []
  | some ⟨_, body⟩ => collectBlock body
end

end Collect

namespace Stmt

/-- A step and a terminal are drawn as they are. -/
def leaf : Stmt → List Face
  | .simple line text => [⟨.process, text, line⟩]
  | .terminal line text => [⟨.terminal, text, line⟩]
  | _ => []

/-- The nodes that may be drawn for a statement itself where it is no step and no terminal. A
counted loop has a start and an update, a resource is closed, and a container without members is
filled with a node of its own. -/
def headers : Stmt → List Face
  | .branch line text cond _ _ => [⟨.decision, orText cond text, line⟩]
  | .loop line text _ _ => [⟨.loop, text, line⟩]
  | .countedLoop line text init cond update _ =>
    [⟨.process, init, line⟩, ⟨.loop, orText cond text, line⟩, ⟨.process, update, line⟩]
  | .guarded line text _ _ handlers cleanup =>
    ⟨.flag, orText text "Try", line⟩ :: (handlers.map (fun h => ⟨.flag, h.label, h.line⟩) ++
      (cleanup.map fun c => (⟨.subroutine, "Finally", c.line⟩ : Face)).toList)
  | .switch _ _ _ cases =>
    (cases.filter (!·.isDefault)).map fun c => ⟨.decision, c.label, c.line⟩
  | .resource line text _ close =>
    [⟨.process, text, line⟩, ⟨.process, orText close "Close", line⟩]
  | .function line text _ => [⟨.stadium, text, line⟩]
  | .container line text _ => [⟨.subgraph, text, line⟩, ⟨.process, text, line⟩]
  | .simple _ _ | .terminal _ _ | .block _ _ | .skip => []

/-- The cases of a switch. -/
def switches : Stmt → List (List (Case Stmt))
  | .switch _ _ _ cases => [cases]
  | _ => []

end Stmt

mutual
/-- The steps and terminals in a statement that are not drawn. -/
def Stmt.lost : Stmt → List Face
  | .simple _ _ | .terminal _ _ | .skip => []
  | .branch _ _ _ body orelse | .loop _ _ body orelse => lostBlock body ++ lostBlock orelse
  | .guarded _ _ body orelse handlers cleanup =>
    lostBlock body ++ (lostBlock orelse ++ (lostHandlers handlers ++ lostCleanup cleanup))
  | .switch _ _ _ cases => lostCases false cases
  | .countedLoop _ _ _ _ _ body | .resource _ _ body _ | .function _ _ body
  | .container _ _ body | .block _ body => lostBlock body

/-- The steps and terminals in a block that are not drawn. -/
def lostBlock : List Stmt → List Face
  | [] => []
  | s :: rest => s.lost ++ lostBlock rest

/-- The steps and terminals in handlers that are not drawn. -/
def lostHandlers : List (Handler Stmt) → List Face
  | [] => []
  | ⟨_, _, body⟩ :: rest => lostBlock body ++ lostHandlers rest

/-- The steps and terminals in the cases of a switch that are not drawn: all that stand in a default
if there is one before it (`seen`). -/
def lostCases (seen : Bool) : List (Case Stmt) → List Face
  | [] => []
  | ⟨_, _, isDefault, body⟩ :: rest =>
    (if isDefault && seen then collectBlock Stmt.leaf body else lostBlock body) ++
      lostCases (seen || isDefault) rest

/-- The steps and terminals in a cleanup that are not drawn. -/
def lostCleanup : Option (Cleanup Stmt) → List Face
  | none => []
  | some ⟨_, body⟩ => lostBlock body
end

/-! ### Nodes that are accounted for -/

/-- Some of the nodes stand for the leaves, each for one; `lost` are the leaves that none stands
for. The other nodes are merge points, or stand for headers, no two for one. -/
def Census (leaves lost headers : List Face) (drawn : List Node) : Prop :=
  ∃ own rest : List Node, drawn.Perm (own ++ rest) ∧ leaves.Perm (own.map Node.face ++ lost) ∧
    ((rest.filter (·.shape != .merge)).map Node.face).Subperm headers

namespace Census

variable {L L' D D' H H' : List Face} {N N' : List Node}

/-- Nothing is drawn for nothing. -/
theorem nil : Census [] [] [] [] := ⟨[], [], .nil, .nil, List.Subperm.refl _⟩

/-- A node stands for its leaf. -/
theorem leaf {n : Node} : Census [n.face] [] [] [n] :=
  ⟨[n], [], .refl _, .refl _, List.Subperm.refl _⟩

/-- A node that is no merge point stands for its header. -/
theorem header {n : Node} (h : n.shape ≠ .merge) : Census [] [] [n.face] [n] :=
  ⟨[], [n], .refl _, .nil, by simp [h]⟩

/-- A merge point stands for nothing. -/
theorem merge {n : Node} (h : n.shape = .merge) : Census [] [] [] [n] :=
  ⟨[], [n], .refl _, .nil, by simp [h]⟩

/-- Nodes are accounted for in parts. -/
theorem append (h : Census L D H N) (h' : Census L' D' H' N') :
    Census (L ++ L') (D ++ D') (H ++ H') (N ++ N') := by
  obtain ⟨own, rest, hdrawn, hleaves, hrest⟩ := h
  obtain ⟨own', rest', hdrawn', hleaves', hrest'⟩ := h'
  refine ⟨own ++ own', rest ++ rest', ?_, ?_, ?_⟩
  · refine List.perm_iff_count.mpr fun n => ?_
    simp only [List.count_append, hdrawn.count_eq, hdrawn'.count_eq]
    omega
  · refine List.perm_iff_count.mpr fun a => ?_
    simp only [List.map_append, List.count_append, hleaves.count_eq, hleaves'.count_eq]
    omega
  · rw [List.filter_append, List.map_append]
    exact hrest.append hrest'

/-- Leaves that are not drawn are lost. -/
theorem lose (h : Census L D H N) (X : List Face) : Census (L ++ X) (D ++ X) H N := by
  obtain ⟨own, rest, hdrawn, hleaves, hrest⟩ := h
  refine ⟨own, rest, hdrawn, ?_, hrest⟩
  rw [← List.append_assoc]
  exact hleaves.append_right X

/-- The order of leaves does not matter, and there may be headers that are not drawn. -/
theorem congr (h : Census L D H N) (hL : L'.Perm L) (hD : D'.Perm D) (hH : H.Subperm H') :
    Census L' D' H' N := by
  obtain ⟨own, rest, hdrawn, hleaves, hrest⟩ := h
  exact ⟨own, rest, hdrawn, hL.trans (hleaves.trans (hD.symm.append_left _)), hrest.trans hH⟩

end Census

namespace Drawing

/-- Whatever has been drawn before, the nodes that are drawn next are accounted for. -/
def Counts {α : Type} (m : Drawing α) (leaves lost headers : List Face) : Prop :=
  ∀ b : Builder, ∃ N, (m b).2.nodes = b.nodes ++ N ∧ Census leaves lost headers N

namespace Counts

variable {α β : Type} {L L' D D' H H' : List Face}

/-- A computation that draws no node. -/
theorem none {m : Drawing α} (h : ∀ b : Builder, (m b).2.nodes = b.nodes) :
    Counts m [] [] [] := fun b => ⟨[], by rw [h b, List.append_nil], Census.nil⟩

/-- A result without drawing draws nothing. -/
theorem pure (a : α) : Counts (Pure.pure a) [] [] [] := none fun _ => rfl

/-- What two computations draw in sequence is accounted for in parts. -/
theorem bind {m : Drawing α} {f : α → Drawing β} (hm : Counts m L D H)
    (hf : ∀ a, Counts (f a) L' D' H') : Counts (m >>= f) (L ++ L') (D ++ D') (H ++ H') := by
  intro b
  obtain ⟨N, hN, hcensus⟩ := hm b
  obtain ⟨N', hN', hcensus'⟩ := hf (m b).1 (m b).2
  refine ⟨N ++ N', ?_, hcensus.append hcensus'⟩
  rw [← List.append_assoc, ← hN]
  exact hN'

/-- Leaves may be lost that are not drawn. -/
theorem lose {m : Drawing α} (h : Counts m L D H) (X : List Face) :
    Counts m (L ++ X) (D ++ X) H := fun b =>
  have ⟨N, hN, hcensus⟩ := h b
  ⟨N, hN, hcensus.lose X⟩

/-- The order of leaves does not matter, and headers may be spared. -/
theorem congr {m : Drawing α} (h : Counts m L D H) (hL : L'.Perm L) (hD : D'.Perm D)
    (hH : H.Subperm H') : Counts m L' D' H' := fun b =>
  have ⟨N, hN, hcensus⟩ := h b
  ⟨N, hN, hcensus.congr hL hD hH⟩

/-- There may be headers for which no node is drawn. -/
theorem spare {m : Drawing α} (h : Counts m L D H) (X : List Face) : Counts m L D (X ++ H) :=
  h.congr (.refl _) (.refl _) (List.suffix_append X H).sublist.subperm

/-- Either way the same is drawn. -/
theorem ite {c : Prop} [Decidable c] {m m' : Drawing α} (h : Counts m L D H)
    (h' : Counts m' L D H) : Counts (if c then m else m') L D H := by
  split_ifs
  · exact h
  · exact h'

end Counts

/-- Edges to a node draw no node. -/
theorem counts_link (exits : List Exit) (target : String) : Counts (link exits target) [] [] [] :=
  .none fun b => Builder.linkAll_nodes b exits target

/-- An edge draws no node. -/
theorem counts_edge (source target : String) (label : Option String) (style : EdgeStyle) :
    Counts (edge source target label style) [] [] [] :=
  .none fun b => Builder.addEdge_nodes b source target label style

/-- Edges back to a head draw no node. -/
theorem counts_repeatTo (head : String) (exits : List Exit) :
    Counts (repeatTo head exits) [] [] [] := .none fun b => Builder.backAll_nodes b exits head

/-- A merge draws a merge point, or nothing. -/
theorem counts_merge (exits : List Exit) : Counts (merge exits) [] [] [] := by
  intro b
  by_cases h : exits = []
  · exact ⟨[], by rw [h]; exact (List.append_nil _).symm, Census.nil⟩
  · exact ⟨[b.mergeNode], Builder.join_nodes_of_ne_nil b h, Census.merge rfl⟩

/-- A node that stands for a leaf. -/
theorem counts_leaf (exits : List Exit) (shape : Shape) (text : String) (line : Option Int) :
    Counts (nodeAfter exits shape text line) [⟨shape, text, line⟩] [] [] := by
  intro b
  refine ⟨[b.freshNode shape text line], ?_, Census.leaf⟩
  exact Builder.linkAll_nodes (b.addNode shape text line).2 exits (b.freshId line)

/-- A node that stands for a header. -/
theorem counts_header (exits : List Exit) (shape : Shape) (text : String) (line : Option Int)
    (h : shape ≠ .merge := by decide) :
    Counts (nodeAfter exits shape text line) [] [] [⟨shape, text, line⟩] := by
  intro b
  refine ⟨[b.freshNode shape text line], ?_, Census.header h⟩
  exact Builder.linkAll_nodes (b.addNode shape text line).2 exits (b.freshId line)

/-- A node that nothing leads to yet. -/
theorem counts_node (shape : Shape) (text : String) (line : Option Int)
    (h : shape ≠ .merge := by decide) :
    Counts (node shape text line) [] [] [⟨shape, text, line⟩] := fun b =>
  ⟨[b.freshNode shape text line], rfl, Census.header h⟩

/-- A subgraph that is opened stands for its header. -/
theorem counts_openSubgraph (text : String) (line : Option Int) :
    Counts (fun b => b.openSubgraph text line) [] [] [⟨.subgraph, text, line⟩] := fun b =>
  ⟨[b.scopeNode text line], rfl, Census.header nofun⟩

/-- Closing a subgraph draws no node. -/
theorem counts_close {α : Type} (a : α) :
    Counts (modify Builder.closeSubgraph >>= fun _ => pure a) [] [] [] := .none fun _ => rfl

/-- A step that is drawn on a condition, and what follows it either way. -/
theorem counts_optional {α : Type} {L D H : List Face} {c : Prop} [Decidable c] (es : List Exit)
    (text : String) (line : Option Int) {f : List Exit → Drawing α}
    (hf : ∀ es, Counts (f es) L D H) :
    Counts (if c then pure es >>= f
      else nodeAfter es .process text line >>= fun n => pure [⟨n, none, .solid⟩] >>= f)
      L D (⟨.process, text, line⟩ :: H) := by
  refine .ite ?_ ?_
  · exact ((Counts.pure es).bind hf).spare [⟨.process, text, line⟩]
  · exact (counts_header es .process text line).bind fun n => (Counts.pure _).bind hf

end Drawing

/-! ### The cases of a switch -/

/-- The cases of a switch that are no defaults. -/
def tested (cases : List (Case Stmt)) : List (Case Stmt) := cases.filter (!·.isDefault)

/-- The defaults of a switch after the first one. -/
def laterDefaults (cases : List (Case Stmt)) : List (Case Stmt) :=
  (cases.filter (·.isDefault)).tail

/-- What is found in cases is what is found in their bodies. -/
theorem collectCases_eq {α : Type} (f : Stmt → List α) (cases : List (Case Stmt)) :
    collectCases f cases = cases.flatMap fun c => collectBlock f c.body := by
  induction cases with
  | nil => rfl
  | cons c rest ih =>
      rw [List.flatMap_cons, ← ih]
      rfl

/-- The first default and the later ones are all defaults. -/
theorem flatMap_defaults {α : Type} (g : List Stmt → List α) (hg : g [] = [])
    (cases : List (Case Stmt)) : (cases.filter (·.isDefault)).flatMap (fun c => g c.body) =
      g (defaultBody cases) ++ (laterDefaults cases).flatMap fun c => g c.body := by
  induction cases with
  | nil => simp [laterDefaults, defaultBody, hg]
  | cons c rest ih =>
      obtain ⟨label, line, isDefault, body⟩ := c
      cases isDefault with
      | true => rfl
      | false => exact ih

/-- The cases of a switch are those that are tested, the first default and the later ones. -/
theorem collectCases_perm {α : Type} (f : Stmt → List α) (cases : List (Case Stmt)) :
    (collectCases f cases).Perm ((tested cases).flatMap (fun c => collectBlock f c.body) ++
      (collectBlock f (defaultBody cases) ++ collectCases f (laterDefaults cases))) := by
  have hsplit : ((cases.filter (!·.isDefault)) ++ cases.filter (·.isDefault)).Perm cases := by
    refine List.perm_append_comm.trans ?_
    exact List.filter_append_perm (·.isDefault) cases
  rw [collectCases_eq f cases, collectCases_eq f (laterDefaults cases),
    ← flatMap_defaults (collectBlock f) rfl, tested, ← List.flatMap_append]
  exact hsplit.symm.flatMap_right _

/-- What is lost of a switch is what is lost of the cases that are drawn, and the later defaults. -/
theorem lostCases_perm (cases : List (Case Stmt)) :
    (lostCases true cases).Perm ((tested cases).flatMap (fun c => lostBlock c.body) ++
      collectCases Stmt.leaf (cases.filter (·.isDefault))) ∧
    (lostCases false cases).Perm ((tested cases).flatMap (fun c => lostBlock c.body) ++
      (lostBlock (defaultBody cases) ++ collectCases Stmt.leaf (laterDefaults cases))) := by
  induction cases with
  | nil => exact ⟨.nil, .nil⟩
  | cons c rest ih =>
      obtain ⟨label, line, isDefault, body⟩ := c
      obtain ⟨htrue, hfalse⟩ := ih
      cases isDefault with
      | true =>
          refine ⟨(htrue.append_left _).trans ?_, (htrue.append_left _).trans ?_⟩
          · exact List.perm_append_comm_assoc _ _ _
          · exact List.perm_append_comm_assoc _ _ _
      | false =>
          refine ⟨(htrue.append_left _).trans ?_, (hfalse.append_left _).trans ?_⟩
          · exact .of_eq (List.append_assoc ..).symm
          · exact .of_eq (List.append_assoc ..).symm

/-! ### Counting what is drawn -/

/-- Headers that are there equally often, in whatever order. -/
theorem subperm_of_count {H H' : List Face} (h : ∀ face, H.count face = H'.count face) :
    H.Subperm H' := (List.perm_iff_count.mpr h).subperm

namespace Drawing

/-- A computation draws what is collected in the statements of a block, without what is lost. -/
abbrev CountsBlock {α : Type} (m : Drawing α) (stmts : List Stmt) : Prop :=
  Counts m (collectBlock Stmt.leaf stmts) (lostBlock stmts) (collectBlock Stmt.headers stmts)

/-- A computation draws what is collected in the cases of a switch that are tested, without what is
lost in them. -/
abbrev CountsTested {α : Type} (m : Drawing α) (cases : List (Case Stmt)) : Prop :=
  Counts m ((tested cases).flatMap fun c => collectBlock Stmt.leaf c.body)
    ((tested cases).flatMap fun c => lostBlock c.body)
    ((tested cases).map (fun c => ⟨.decision, c.label, c.line⟩) ++
      (tested cases).flatMap fun c => collectBlock Stmt.headers c.body)

/-- Drawing a statement draws what is collected in it, without what is lost. -/
abbrev CountsStmt (s : Stmt) (es : List Exit) : Prop :=
  Counts (lowerStmt s es) (s.collect Stmt.leaf) s.lost (s.collect Stmt.headers)

section Parts

variable {line : Option Int} {text : String} {body orelse : List Stmt} {es : List Exit}

/-- A branch has a decision, both parts and the merge that follows them. -/
theorem counts_branch {cond : String} (hbody : ∀ es, CountsBlock (lowerBlock body es) body)
    (helse : ∀ d, CountsBlock (lowerElse d orelse) orelse) :
    CountsStmt (.branch line text cond body orelse) es := by
  rw [CountsStmt, lowerStmt]
  have h := (counts_header es .decision (orText cond text) line).bind fun d =>
    (hbody [⟨d, some "Yes", .solid⟩]).bind fun yes =>
    (helse d).bind fun no => counts_merge (yes ++ no)
  simpa [Stmt.collect, Stmt.leaf, Stmt.lost, Stmt.headers] using h

/-- A loop has a head, its body and what follows when it ends by itself. -/
theorem counts_loop (hbody : ∀ es, CountsBlock (lowerBlock body es) body)
    (helse : ∀ es, CountsBlock (lowerBlock orelse es) orelse) :
    CountsStmt (.loop line text body orelse) es := by
  rw [CountsStmt, lowerStmt]
  have h := (counts_header es .loop text line).bind fun head =>
    (hbody [⟨head, none, .solid⟩]).bind fun ends =>
    (counts_repeatTo head ends).bind fun _ => helse [⟨head, none, .solid⟩]
  simpa [Stmt.collect, Stmt.leaf, Stmt.lost, Stmt.headers] using h

/-- The start and the update of a counted loop are drawn on a condition each. -/
theorem counts_countedLoop {init cond update : String}
    (hbody : ∀ es, CountsBlock (lowerBlock body es) body) :
    CountsStmt (.countedLoop line text init cond update body) es := by
  rw [CountsStmt, lowerStmt]
  have h := counts_optional (c := init.isEmpty) es init line fun entry =>
    (counts_header entry .loop (orText cond text) line).bind fun head =>
    (hbody [⟨head, none, .solid⟩]).bind fun ends =>
    counts_optional (c := update.isEmpty || ends.isEmpty) ends update line fun ends =>
    (counts_repeatTo head ends).bind fun _ => Counts.pure [(⟨head, none, .solid⟩ : Exit)]
  refine h.congr ?_ ?_ ?_
  · simp [Stmt.collect, Stmt.leaf]
  · simp [Stmt.lost]
  · refine subperm_of_count fun face => ?_
    simp only [Stmt.collect, Stmt.headers, List.count_append, List.count_cons, List.count_nil]
    omega

/-- Handlers and cleanup come with their own headers. -/
theorem counts_guarded {handlers : List (Handler Stmt)} {cleanup : Option (Cleanup Stmt)}
    (hbody : ∀ es, CountsBlock (lowerBlock body es) body)
    (helse : ∀ es, CountsBlock (lowerBlock orelse es) orelse)
    (hhandlers : ∀ entry, Counts (lowerHandlers entry handlers)
      (collectHandlers Stmt.leaf handlers) (lostHandlers handlers)
      (handlers.map (fun h => ⟨.flag, h.label, h.line⟩) ++ collectHandlers Stmt.headers handlers))
    (hcleanup : ∀ entry after, Counts (lowerCleanup entry after cleanup)
      (collectCleanup Stmt.leaf cleanup) (lostCleanup cleanup)
      ((cleanup.map fun c => (⟨.subroutine, "Finally", c.line⟩ : Face)).toList ++
        collectCleanup Stmt.headers cleanup)) :
    CountsStmt (.guarded line text body orelse handlers cleanup) es := by
  rw [CountsStmt, lowerStmt]
  have h := (counts_header es .flag (orText text "Try") line).bind fun entry =>
    (hbody [⟨entry, none, .solid⟩]).bind fun normal => (helse normal).bind fun normal =>
    (hhandlers entry).bind fun handled => (counts_merge (normal ++ handled)).bind fun after =>
    hcleanup entry after
  refine h.congr ?_ ?_ ?_
  · simp [Stmt.collect, Stmt.leaf]
  · simp [Stmt.lost]
  · refine subperm_of_count fun face => ?_
    simp only [Stmt.collect, Stmt.headers, List.count_append, List.count_cons, List.count_nil]
    omega

/-- Of a switch the cases that are tested are drawn, and the first default. -/
theorem counts_cases {subject : String} {cases : List (Case Stmt)}
    (hcases : ∀ pending, CountsTested (lowerCases cases pending) cases)
    (hdefault : ∀ es, CountsBlock (lowerDefault cases es) (defaultBody cases)) :
    Counts (lowerStmt (.switch line text subject cases) es)
      ((tested cases).flatMap (fun c => collectBlock Stmt.leaf c.body) ++
        collectBlock Stmt.leaf (defaultBody cases))
      ((tested cases).flatMap (fun c => lostBlock c.body) ++ lostBlock (defaultBody cases))
      ((tested cases).map (fun c => ⟨.decision, c.label, c.line⟩) ++
        ((tested cases).flatMap (fun c => collectBlock Stmt.headers c.body) ++
          collectBlock Stmt.headers (defaultBody cases))) := by
  rw [lowerStmt]
  split_ifs with hall
  · have hnone : tested cases = [] := by simpa [tested, List.filter_eq_nil_iff] using hall
    rw [hnone]
    exact hdefault es
  · have h := (hcases es).bind fun r => (hdefault r.2).bind fun rest => counts_merge (r.1 ++ rest)
    simpa only [List.append_nil, List.append_assoc] using h

/-- What stands in the later defaults of a switch is lost, and the rest is drawn. -/
theorem counts_switch {subject : String} {cases : List (Case Stmt)}
    (hcases : ∀ pending, CountsTested (lowerCases cases pending) cases)
    (hdefault : ∀ es, CountsBlock (lowerDefault cases es) (defaultBody cases)) :
    CountsStmt (.switch line text subject cases) es := by
  have h := Counts.lose (m := lowerStmt (.switch line text subject cases) es)
    (counts_cases hcases hdefault) (collectCases Stmt.leaf (laterDefaults cases))
  rw [List.append_assoc, List.append_assoc] at h
  refine h.congr (collectCases_perm Stmt.leaf cases) (lostCases_perm cases).2 ?_
  refine List.Subperm.append (List.Subperm.refl _) ?_
  refine List.Subperm.trans ?_ (collectCases_perm Stmt.headers cases).symm.subperm
  rw [← List.append_assoc]
  exact (List.prefix_append _ _).sublist.subperm

/-- Closing a resource is drawn unless the body never ends. -/
theorem counts_resource {close : String} (hbody : ∀ es, CountsBlock (lowerBlock body es) body) :
    CountsStmt (.resource line text body close) es := by
  rw [CountsStmt, lowerStmt]
  have h := (counts_header es .process text line).bind fun head =>
    (hbody [⟨head, none, .solid⟩]).bind fun ends => Counts.ite (c := ends.isEmpty)
      ((Counts.pure []).spare [⟨.process, orText close "Close", line⟩])
      ((counts_header ends .process (orText close "Close") line).bind fun n =>
        Counts.pure [(⟨n, none, .solid⟩ : Exit)])
  refine h.congr ?_ ?_ ?_
  · simp [Stmt.collect, Stmt.leaf]
  · simp [Stmt.lost]
  · refine subperm_of_count fun face => ?_
    simp only [Stmt.collect, Stmt.headers, List.count_append, List.count_cons, List.count_nil]
    omega

/-- A function has a node of its own, and its body. -/
theorem counts_function (hbody : ∀ es, CountsBlock (lowerBlock body es) body) :
    CountsStmt (.function line text body) es := by
  rw [CountsStmt, lowerStmt]
  have h := (counts_header es .stadium text line).bind fun f =>
    (hbody [⟨f, none, .solid⟩]).bind fun _ => Counts.pure [(⟨f, none, .solid⟩ : Exit)]
  simpa [Stmt.collect, Stmt.leaf, Stmt.lost, Stmt.headers] using h

/-- A container that would stay empty is filled with a node of its own. -/
theorem counts_container (hmembers : CountsBlock (lowerMembers body) body) :
    CountsStmt (.container line text body) es := by
  rw [CountsStmt, lowerStmt]
  have h := (Counts.none (m := get) fun _ => rfl).bind fun start =>
    (counts_openSubgraph text line).bind fun _ => hmembers.bind fun _ =>
    (Counts.none (m := get) fun _ => rfl).bind fun filled =>
    Counts.ite (c := filled.nodes.length = start.nodes.length + 1)
      ((counts_node .process text line).bind fun _ => counts_close es)
      ((counts_close es).spare _)
  refine h.congr ?_ ?_ ?_
  · simp [Stmt.collect, Stmt.leaf]
  · simp [Stmt.lost]
  · refine subperm_of_count fun face => ?_
    simp only [Stmt.collect, Stmt.headers, List.count_append, List.count_cons, List.count_nil]
    omega

end Parts

end Drawing

open Drawing

mutual
/-- Drawing a statement draws what is collected in it, without what is lost. -/
theorem counts_lowerStmt (s : Stmt) (es : List Exit) : CountsStmt s es := by
  cases s with
  | simple line text =>
      rw [CountsStmt, lowerStmt]
      exact (counts_leaf es .process text line).bind fun n => .pure _
  | branch line text cond body orelse =>
      exact counts_branch (counts_lowerBlock body) (fun d => counts_lowerElse d orelse)
  | loop line text body orelse =>
      exact counts_loop (counts_lowerBlock body) (counts_lowerBlock orelse)
  | countedLoop line text init cond update body =>
      exact counts_countedLoop (counts_lowerBlock body)
  | guarded line text body orelse handlers cleanup =>
      exact counts_guarded (counts_lowerBlock body) (counts_lowerBlock orelse)
        (fun entry => counts_lowerHandlers entry handlers)
        (fun entry after => counts_lowerCleanup entry after cleanup)
  | switch line text subject cases =>
      exact counts_switch (counts_lowerCases cases) (counts_lowerDefault cases)
  | resource line text body close => exact counts_resource (counts_lowerBlock body)
  | terminal line text =>
      rw [CountsStmt, lowerStmt]
      exact (counts_leaf es .terminal text line).bind fun n => .pure _
  | function line text body => exact counts_function (counts_lowerBlock body)
  | container line text members => exact counts_container (counts_lowerMembers members)
  | block line body =>
      rw [CountsStmt, lowerStmt]
      exact counts_lowerBlock body es
  | skip =>
      rw [CountsStmt, lowerStmt]
      exact .pure es

/-- The statements of a block are drawn one after the other. -/
theorem counts_lowerBlock (stmts : List Stmt) (es : List Exit) :
    CountsBlock (lowerBlock stmts es) stmts := by
  match stmts with
  | [] =>
      rw [lowerBlock]
      exact .pure es
  | s :: rest =>
      rw [lowerBlock]
      exact (counts_lowerStmt s es).bind fun es' => counts_lowerBlock rest es'

/-- What stands in an else part is drawn, also where a branch there goes on with the chain. -/
theorem counts_lowerElse (d : String) (stmts : List Stmt) :
    CountsBlock (lowerElse d stmts) stmts := by
  match stmts with
  | [] =>
      rw [lowerElse]
      exact .pure _
  | [s] =>
      cases s with
      | branch line text cond body orelse =>
          rw [lowerElse]
          have h := (counts_node .decision (orText cond text) line).bind fun next =>
            (counts_edge d next (some "No") .solid).bind fun _ =>
            (counts_lowerBlock body [⟨next, some "Yes", .solid⟩]).bind fun yes =>
            (counts_lowerElse next orelse).bind fun no => Counts.pure (yes ++ no)
          simpa [CountsBlock, collectBlock, lostBlock, Stmt.collect, Stmt.leaf, Stmt.lost,
            Stmt.headers] using h
      | _ =>
          rw [lowerElse]
          · exact (counts_lowerStmt _ [⟨d, some "No", .solid⟩]).bind fun exits =>
              counts_lowerBlock [] exits
          · nofun
  | s :: s' :: rest =>
      rw [lowerElse]
      · exact (counts_lowerStmt s [⟨d, some "No", .solid⟩]).bind fun exits =>
          counts_lowerBlock (s' :: rest) exits
      · nofun

/-- A handler has a node of its own. -/
theorem counts_lowerHandlers (entry : String) (handlers : List (Handler Stmt)) :
    Counts (lowerHandlers entry handlers) (collectHandlers Stmt.leaf handlers)
      (lostHandlers handlers) (handlers.map (fun h => ⟨.flag, h.label, h.line⟩) ++
        collectHandlers Stmt.headers handlers) := by
  match handlers with
  | [] =>
      rw [lowerHandlers]
      exact .pure _
  | ⟨label, line, body⟩ :: rest =>
      rw [lowerHandlers]
      have h := (counts_node .flag label line).bind fun n =>
        (counts_edge entry n (some "Exception") .dashed).bind fun _ =>
        (counts_lowerBlock body [⟨n, none, .solid⟩]).bind fun ends =>
        (counts_lowerHandlers entry rest).bind fun others => Counts.pure (ends ++ others)
      refine h.congr ?_ ?_ ?_
      · simp [collectHandlers]
      · simp [lostHandlers]
      · refine subperm_of_count fun face => ?_
        simp only [collectHandlers, List.map_cons, List.count_append, List.count_cons,
          List.count_nil]
        omega

/-- A cleanup has a node of its own. -/
theorem counts_lowerCleanup (entry : String) (after : List Exit)
    (cleanup : Option (Cleanup Stmt)) :
    Counts (lowerCleanup entry after cleanup) (collectCleanup Stmt.leaf cleanup)
      (lostCleanup cleanup)
      ((cleanup.map fun c => (⟨.subroutine, "Finally", c.line⟩ : Face)).toList ++
        collectCleanup Stmt.headers cleanup) := by
  match cleanup with
  | none =>
      rw [lowerCleanup]
      exact .pure after
  | some ⟨line, body⟩ =>
      rw [lowerCleanup]
      have hbody (f : String) := (counts_lowerBlock body [⟨f, none, .solid⟩]).bind fun ends =>
        Counts.pure (if after.isEmpty then [] else ends)
      have h := (counts_node .subroutine "Finally" line).bind fun f => Counts.ite
        (c := after.isEmpty)
        ((counts_edge entry f none .dashed).bind fun _ => hbody f)
        ((counts_link after f).bind fun _ => hbody f)
      simpa [collectCleanup, lostCleanup] using h

/-- The cases that are tested have a node each. -/
theorem counts_lowerCases (cases : List (Case Stmt)) (pending : List Exit) :
    CountsTested (lowerCases cases pending) cases := by
  match cases with
  | [] =>
      rw [lowerCases]
      exact .pure _
  | ⟨label, line, true, body⟩ :: rest =>
      rw [lowerCases, if_pos rfl]
      exact counts_lowerCases rest pending
  | ⟨label, line, false, body⟩ :: rest =>
      rw [lowerCases, if_neg nofun]
      have h := (counts_header pending .decision label line).bind fun d =>
        (counts_lowerBlock body [⟨d, some "Yes", .solid⟩]).bind fun taken =>
        (counts_lowerCases rest [⟨d, some "No", .solid⟩]).bind fun r =>
        Counts.pure (taken ++ r.1, r.2)
      refine h.congr ?_ ?_ ?_
      · simp [tested]
      · simp [tested]
      · refine subperm_of_count fun face => ?_
        simp [tested, List.count_cons]
        omega

/-- Of the defaults the first one is drawn. -/
theorem counts_lowerDefault (cases : List (Case Stmt)) (es : List Exit) :
    CountsBlock (lowerDefault cases es) (defaultBody cases) := by
  match cases with
  | [] =>
      rw [lowerDefault]
      exact .pure es
  | ⟨label, line, true, body⟩ :: rest =>
      rw [lowerDefault, if_pos rfl]
      exact counts_lowerBlock body es
  | ⟨label, line, false, body⟩ :: rest =>
      rw [lowerDefault, if_neg nofun]
      exact counts_lowerDefault rest es

/-- The members of a container are drawn on their own each. -/
theorem counts_lowerMembers (members : List Stmt) :
    CountsBlock (lowerMembers members) members := by
  match members with
  | [] =>
      rw [lowerMembers]
      exact .pure ()
  | s :: rest =>
      rw [lowerMembers]
      exact (counts_lowerStmt s []).bind fun _ => counts_lowerMembers rest
end

/-! ### What is lost -/

/-- None of these switches has a second default. -/
def OneDefault (switches : List (List (Case Stmt))) : Prop :=
  ∀ cases ∈ switches, (cases.filter (·.isDefault)).length ≤ 1

/-- Switches without second defaults, in two parts. -/
theorem OneDefault.append {l l' : List (List (Case Stmt))} (h : OneDefault (l ++ l')) :
    OneDefault l ∧ OneDefault l' := List.forall_mem_append.mp h

mutual
/-- Where no switch has a second default, nothing is lost. -/
theorem lost_eq_nil (s : Stmt) (h : OneDefault (s.collect Stmt.switches)) : s.lost = [] := by
  rw [Stmt.collect.eq_def] at h
  have hparts := h.append.2
  cases s with
  | simple | terminal | skip => rfl
  | branch _ _ _ body orelse | loop _ _ body orelse =>
      simp only [Stmt.lost, lostBlock_eq_nil body hparts.append.1,
        lostBlock_eq_nil orelse hparts.append.2, List.append_nil]
  | guarded _ _ body orelse handlers cleanup =>
      have hrest := hparts.append.2
      have hways := hrest.append.2
      simp only [Stmt.lost, lostBlock_eq_nil body hparts.append.1,
        lostBlock_eq_nil orelse hrest.append.1, lostHandlers_eq_nil handlers hways.append.1,
        lostCleanup_eq_nil cleanup hways.append.2, List.append_nil]
  | switch _ _ _ cases =>
      have hone := h.append.1 cases List.mem_cons_self
      exact lostCases_eq_nil false cases hparts hone
  | countedLoop _ _ _ _ _ body | resource _ _ body | function _ _ body | container _ _ body
  | block _ body => exact lostBlock_eq_nil body hparts

/-- Nothing is lost of a block. -/
theorem lostBlock_eq_nil (stmts : List Stmt) (h : OneDefault (collectBlock Stmt.switches stmts)) :
    lostBlock stmts = [] := by
  match stmts with
  | [] => rfl
  | s :: rest =>
      simp only [lostBlock, lost_eq_nil s h.append.1, lostBlock_eq_nil rest h.append.2,
        List.append_nil]

/-- Nothing is lost of handlers. -/
theorem lostHandlers_eq_nil (handlers : List (Handler Stmt))
    (h : OneDefault (collectHandlers Stmt.switches handlers)) : lostHandlers handlers = [] := by
  match handlers with
  | [] => rfl
  | ⟨_, _, body⟩ :: rest =>
      simp only [lostHandlers, lostBlock_eq_nil body h.append.1,
        lostHandlers_eq_nil rest h.append.2, List.append_nil]

/-- Nothing is lost of cases with one default at most. -/
theorem lostCases_eq_nil (seen : Bool) (cases : List (Case Stmt))
    (h : OneDefault (collectCases Stmt.switches cases))
    (hone : (cases.filter (·.isDefault)).length + seen.toNat ≤ 1) : lostCases seen cases = [] := by
  match cases with
  | [] => rfl
  | ⟨_, _, isDefault, body⟩ :: rest =>
      have hbody := lostBlock_eq_nil body h.append.1
      have hrest := lostCases_eq_nil (seen || isDefault) rest h.append.2
      cases isDefault <;> cases seen <;> simp_all [lostCases]

/-- Nothing is lost of a cleanup. -/
theorem lostCleanup_eq_nil (cleanup : Option (Cleanup Stmt))
    (h : OneDefault (collectCleanup Stmt.switches cleanup)) : lostCleanup cleanup = [] := by
  match cleanup with
  | none => rfl
  | some ⟨_, body⟩ => exact lostBlock_eq_nil body h
end

/-! ### The census of a program -/

section Program
variable (mode : LabelMode) (limit : Option Int) (stmts : List Stmt)

/-- The nodes of a program are those of its steps and terminals, one for each, those of headers, at
most one for each, and merge points. A step or terminal is not drawn only if it stands in a default
of a switch after the first one; so where no switch has two, all are drawn. -/
theorem census_program :
    Census (collectBlock Stmt.leaf stmts) (lostBlock stmts) (collectBlock Stmt.headers stmts)
      (lowerProgram stmts (Builder.empty mode limit)).2.nodes ∧
    (OneDefault (collectBlock Stmt.switches stmts) → lostBlock stmts = []) := by
  obtain ⟨drawn, hnodes, hcensus⟩ := counts_lowerBlock stmts [] (Builder.empty mode limit)
  refine ⟨?_, lostBlock_eq_nil stmts⟩
  rw [lowerProgram, hnodes]
  exact hcensus

end Program

/-- A switch with two defaults, as a reader makes it that takes the word `defaultColor` in a case
for a default. -/
def twoDefaults : Stmt :=
  .switch (some 1) "switch (x)" "x"
    [⟨"default", some 2, true, [.simple (some 3) "a();"]⟩,
      ⟨"default", some 5, true, [.simple (some 6) "b();"]⟩]

/-- Of a switch with two defaults a step is lost: whatever counts as a header, there is no census of
its nodes in which no leaf is lost. -/
theorem census_twoDefaults : ¬ ∃ headers, Census (collectBlock Stmt.leaf [twoDefaults]) [] headers
    (lowerProgram [twoDefaults] (Builder.empty .lenient (some 80))).2.nodes := by
  rintro ⟨headers, own, rest, hdrawn, hleaves, -⟩
  let second : Face := ⟨.process, "b();", some 6⟩
  have hleaf : second ∈ collectBlock Stmt.leaf [twoDefaults] := by decide
  rw [hleaves.mem_iff, List.append_nil, List.mem_map] at hleaf
  obtain ⟨n, hn, hface⟩ := hleaf
  have hmem := hdrawn.mem_iff.mpr (List.mem_append_left rest hn)
  have hnone : ∀ n ∈ (lowerProgram [twoDefaults] (Builder.empty .lenient (some 80))).2.nodes,
      n.face ≠ second := by decide
  exact hnone n hmem hface

end Flowchart
