import Flowchart.Proofs.Drawing.Twins
import Flowchart.Proofs.Operations

/-!
# Drawing does not depend on what was drawn before

The same statements are drawn in two builders that may have been made in any way. What is there
stays, and what is added is the same in both but for the names of nodes: the k-th new node of the
one is the k-th new node of the other. So neither the nodes, edges and styles that are there, nor
the subgraphs that are open, nor the number of the next id have an influence on the shape of what is
drawn.

`lockstep_lowerStmt` goes through the statements, one case each, and puts the rules for
single steps together; `drawing_renamed` is the result for builders made by operations.

## One case each

The functions that draw are taken twice, once in each builder, so the induction of `Block.induction`
does not apply: there are no blocks of two builders at once. The recursion is that of the functions
themselves, and each case puts the rules of `Lockstep` in the order in which the function does its
steps. Where a function asks whether there are exits, both sides answer alike, as exits correspond one
to one.

## Main results

* `lockstep_lowerStmt`: drawing a statement in two builders keeps them in step.
* `drawing_renamed`: so what is drawn is the same but for the names of nodes.
-/

namespace Flowchart

open Builder

namespace Twins

open Drawing

variable {T : Twins} {ρ : Renaming}

/-- A step that is drawn on a condition, and what follows it either way. -/
theorem lockstep_optional {α : Type} {R : Renaming → α → α → Prop} {p p' : Prop} [Decidable p]
    [Decidable p'] (hp : p ↔ p') {es es' : List Exit} (hes : ExitsAlike ρ es es') (text : String)
    (line : Option Int) {f f' : List Exit → Drawing α}
    (hf : ∀ {ρ' es es'}, ρ ⊆ ρ' → ExitsAlike ρ' es es' → T.Lockstep ρ' (f es) (f' es') R) :
    T.Lockstep ρ
      (if p then pure es >>= f
        else nodeAfter es .process text line >>= fun n => pure [⟨n, none, .solid⟩] >>= f)
      (if p' then pure es' >>= f'
        else nodeAfter es' .process text line >>= fun n => pure [⟨n, none, .solid⟩] >>= f') R := by
  refine .ite hp ?_ ?_
  · exact (Lockstep.pure hes).bind fun hρ h => hf hρ h
  · refine (lockstep_nodeAfter hes .process text line).bind fun hρ hn => ?_
    exact (Lockstep.pure (hn.exit none .solid)).bind fun hρ' h => hf (List.Subset.trans hρ hρ') h

/-- A container is opened, filled from no exit, and closed. -/
theorem lockstep_container (line : Option Int) (text : String) {members : List Stmt}
    (hmembers : ∀ {ρ}, T.Lockstep ρ (lowerMembers members) (lowerMembers members)
      fun _ _ _ => True) {es es' : List Exit} (hes : ExitsAlike ρ es es') :
    T.Lockstep ρ (lowerStmt (.container line text members) es)
      (lowerStmt (.container line text members) es') ExitsAlike := by
  intro c c' hc
  obtain ⟨hopened, -⟩ := hc.append (Gains.scope c text line) (Gains.scope c' text line) rfl
    (hc.label_eq text) rfl rfl
    (Or.inr ⟨_, List.mem_append_right _ (List.mem_singleton_self _), rfl, rfl⟩)
  obtain ⟨ρ₁, hρ₁, hfilled, hs, hs', -⟩ := hmembers _ _ hopened
  have hρ := List.Subset.trans (List.subset_append_left ρ _) hρ₁
  -- closing leaves the scopes from before
  have hclose : ∀ {ρ₂ d d'}, ρ ⊆ ρ₂ → T.Drawn ρ₂ d d' →
      d.scopes = (c.openSubgraph text line).2.scopes →
      d'.scopes = (c'.openSubgraph text line).2.scopes →
      ∃ ρ', ρ ⊆ ρ' ∧ T.Drawn ρ' d.closeSubgraph d'.closeSubgraph ∧
        d.closeSubgraph.scopes = c.scopes ∧ d'.closeSubgraph.scopes = c'.scopes ∧
        ExitsAlike ρ' es es' := by
    intro ρ₂ d d' hρ₂ hd hscopes hscopes'
    have hinner : d.closeSubgraph.scopes = c.scopes := by rw [closeSubgraph_scopes, hscopes]; rfl
    have hinner' : d'.closeSubgraph.scopes = c'.scopes := by
      rw [closeSubgraph_scopes, hscopes']
      rfl
    refine ⟨ρ₂, hρ₂, hd.closeSubgraph ?_, hinner, hinner', hes.mono hρ₂⟩
    rw [hinner, hinner']
    exact hc.scopes.mono hρ₂
  have hempty : (lowerMembers members (c.openSubgraph text line).2).2.nodes.length =
        c.nodes.length + 1 ↔
      (lowerMembers members (c'.openSubgraph text line).2).2.nodes.length =
        c'.nodes.length + 1 := by
    obtain ⟨k, hk, hk'⟩ := hc.length_eq
    obtain ⟨l, hl, hl'⟩ := hfilled.length_eq
    omega
  rw [lowerStmt_container, lowerStmt_container]
  dsimp only
  split_ifs with h h' h'
  · obtain ⟨ρ₂, hρ₂, hnode, hs₂, hs₂', -⟩ := lockstep_node .process text line _ _ hfilled
    exact hclose (List.Subset.trans hρ hρ₂) hnode (hs₂.trans hs) (hs₂'.trans hs')
  · exact absurd (hempty.mp h) h'
  · exact absurd (hempty.mpr h') h
  · exact hclose hρ hfilled hs hs'

mutual
/-- A statement is drawn alike from exits that correspond. -/
theorem lockstep_lowerStmt (s : Stmt) {ρ : Renaming} {es es' : List Exit}
    (hes : ExitsAlike ρ es es') : T.Lockstep ρ (lowerStmt s es) (lowerStmt s es') ExitsAlike := by
  cases s with
  | simple line text =>
      rw [lowerStmt, lowerStmt]
      exact (lockstep_nodeAfter hes .process text line).bind fun _ hn =>
        .pure (hn.exit none .solid)
  | branch line text cond body orelse =>
      rw [lowerStmt, lowerStmt]
      refine (lockstep_nodeAfter hes .decision (orText cond text) line).bind fun _ hd => ?_
      refine (lockstep_lowerBlock body (hd.exit (some "Yes") .solid)).bind fun hρ₁ hyes => ?_
      refine (lockstep_lowerElse orelse (hd.mono hρ₁)).bind fun hρ₂ hno => ?_
      exact lockstep_merge ((hyes.mono hρ₂).append hno)
  | loop line text body orelse =>
      rw [lowerStmt, lowerStmt]
      refine (lockstep_nodeAfter hes .loop text line).bind fun _ hhead => ?_
      refine (lockstep_lowerBlock body (hhead.exit none .solid)).bind fun hρ₁ hends => ?_
      refine (lockstep_repeatTo hends (hhead.mono hρ₁)).bind fun hρ₂ _ => ?_
      exact lockstep_lowerBlock orelse ((hhead.mono (List.Subset.trans hρ₁ hρ₂)).exit none .solid)
  | countedLoop line text init cond update body =>
      rw [lowerStmt, lowerStmt]
      refine lockstep_optional Iff.rfl hes init line fun _ hentry => ?_
      refine (lockstep_nodeAfter hentry .loop (orText cond text) line).bind fun _ hhead => ?_
      refine (lockstep_lowerBlock body (hhead.exit none .solid)).bind fun hρ₁ hends => ?_
      refine lockstep_optional (by rw [hends.isEmpty_eq]) hends update line fun hρ₂ hlast => ?_
      have hhead := hhead.mono (List.Subset.trans hρ₁ hρ₂)
      exact (lockstep_repeatTo hlast hhead).bind fun hρ₃ _ =>
        .pure ((hhead.mono hρ₃).exit none .solid)
  | guarded line text body orelse handlers cleanup =>
      rw [lowerStmt, lowerStmt]
      refine (lockstep_nodeAfter hes .flag (orText text "Try") line).bind fun _ hentry => ?_
      refine (lockstep_lowerBlock body (hentry.exit none .solid)).bind fun hρ₁ hbody => ?_
      refine (lockstep_lowerBlock orelse hbody).bind fun hρ₂ hnormal => ?_
      have hentry := hentry.mono (List.Subset.trans hρ₁ hρ₂)
      refine (lockstep_lowerHandlers handlers hentry).bind fun hρ₃ hhandled => ?_
      refine (lockstep_merge ((hnormal.mono hρ₃).append hhandled)).bind fun hρ₄ hafter => ?_
      exact lockstep_lowerCleanup cleanup (hentry.mono (List.Subset.trans hρ₃ hρ₄)) hafter
  | switch line text subject cases =>
      rw [lowerStmt, lowerStmt]
      refine .ite Iff.rfl (lockstep_lowerDefault cases hes) ?_
      refine (lockstep_lowerCases cases hes).bind fun _ hr => ?_
      refine (lockstep_lowerDefault cases hr.2).bind fun hρ₁ hrest => ?_
      exact lockstep_merge ((hr.1.mono hρ₁).append hrest)
  | resource line text body close =>
      rw [lowerStmt, lowerStmt]
      refine (lockstep_nodeAfter hes .process text line).bind fun _ hhead => ?_
      refine (lockstep_lowerBlock body (hhead.exit none .solid)).bind fun _ hends => ?_
      refine .ite (by rw [hends.isEmpty_eq]) (.pure .nil) ?_
      exact (lockstep_nodeAfter hends .process (orText close "Close") line).bind fun _ hn =>
        .pure (hn.exit none .solid)
  | terminal line text =>
      rw [lowerStmt, lowerStmt]
      exact (lockstep_nodeAfter hes .terminal text line).bind fun _ _ => .pure .nil
  | function line text body =>
      rw [lowerStmt, lowerStmt]
      refine (lockstep_nodeAfter hes .stadium text line).bind fun _ hf => ?_
      exact (lockstep_lowerBlock body (hf.exit none .solid)).bind fun hρ₁ _ =>
        .pure ((hf.mono hρ₁).exit none .solid)
  | container line text members =>
      exact lockstep_container line text (lockstep_lowerMembers members) hes
  | block line body =>
      rw [lowerStmt, lowerStmt]
      exact lockstep_lowerBlock body hes
  | skip =>
      rw [lowerStmt, lowerStmt]
      exact .pure hes

/-- Drawing a block keeps two builders in step. -/
theorem lockstep_lowerBlock (stmts : List Stmt) {ρ : Renaming} {es es' : List Exit}
    (hes : ExitsAlike ρ es es') :
    T.Lockstep ρ (lowerBlock stmts es) (lowerBlock stmts es') ExitsAlike := by
  match stmts with
  | [] =>
      rw [lowerBlock, lowerBlock]
      exact .pure hes
  | s :: rest =>
      rw [lowerBlock, lowerBlock]
      exact (lockstep_lowerStmt s hes).bind fun _ h => lockstep_lowerBlock rest h

/-- So does drawing an else part. -/
theorem lockstep_lowerElse (stmts : List Stmt) {ρ : Renaming} {d d' : String}
    (hd : T.New ρ d d') : T.Lockstep ρ (lowerElse d stmts) (lowerElse d' stmts) ExitsAlike := by
  match stmts with
  | [] =>
      rw [lowerElse, lowerElse]
      exact .pure (hd.exit (some "No") .solid)
  | [s] =>
      cases s with
      | branch line text cond body orelse =>
          rw [lowerElse, lowerElse]
          refine (lockstep_node .decision (orText cond text) line).bind fun hρ₁ hnext => ?_
          refine (lockstep_edge (hd.mono hρ₁).mem hnext (some "No") .solid).bind fun hρ₂ _ => ?_
          have hnext := hnext.mono hρ₂
          refine (lockstep_lowerBlock body (hnext.exit (some "Yes") .solid)).bind
            fun hρ₃ hyes => ?_
          refine (lockstep_lowerElse orelse (hnext.mono hρ₃)).bind fun hρ₄ hno => ?_
          exact .pure ((hyes.mono hρ₄).append hno)
      | _ =>
          rw [lowerElse, lowerElse]
          · exact (lockstep_lowerStmt _ (hd.exit (some "No") .solid)).bind fun _ h =>
              lockstep_lowerBlock [] h
          all_goals nofun
  | s :: s' :: rest =>
      rw [lowerElse, lowerElse]
      · exact (lockstep_lowerStmt s (hd.exit (some "No") .solid)).bind fun _ h =>
          lockstep_lowerBlock (s' :: rest) h
      all_goals nofun

/-- So does drawing handlers. -/
theorem lockstep_lowerHandlers (handlers : List (Handler Stmt)) {ρ : Renaming}
    {entry entry' : String} (hentry : T.New ρ entry entry') :
    T.Lockstep ρ (lowerHandlers entry handlers) (lowerHandlers entry' handlers) ExitsAlike := by
  match handlers with
  | [] =>
      rw [lowerHandlers, lowerHandlers]
      exact .pure .nil
  | ⟨label, line, body⟩ :: rest =>
      rw [lowerHandlers, lowerHandlers]
      refine (lockstep_node .flag label line).bind fun hρ₁ hn => ?_
      refine (lockstep_edge (hentry.mono hρ₁).mem hn (some "Exception") .dashed).bind
        fun hρ₂ _ => ?_
      refine (lockstep_lowerBlock body ((hn.mono hρ₂).exit none .solid)).bind fun hρ₃ hends => ?_
      have hρ := List.Subset.trans (List.Subset.trans hρ₁ hρ₂) hρ₃
      exact (lockstep_lowerHandlers rest (hentry.mono hρ)).bind fun hρ₄ hothers =>
        .pure ((hends.mono hρ₄).append hothers)

/-- So does drawing a cleanup. -/
theorem lockstep_lowerCleanup (cleanup : Option (Cleanup Stmt)) {ρ : Renaming}
    {entry entry' : String} (hentry : T.New ρ entry entry') {after after' : List Exit}
    (hafter : ExitsAlike ρ after after') : T.Lockstep ρ (lowerCleanup entry after cleanup)
      (lowerCleanup entry' after' cleanup) ExitsAlike := by
  match cleanup with
  | none =>
      rw [lowerCleanup, lowerCleanup]
      exact .pure hafter
  | some ⟨line, body⟩ =>
      rw [lowerCleanup, lowerCleanup]
      refine (lockstep_node .subroutine "Finally" line).bind fun {ρ₁ f f'} hρ₁ hf => ?_
      have hbody : ∀ {ρ₂}, ρ₁ ⊆ ρ₂ → T.Lockstep ρ₂
          (lowerBlock body [⟨f, none, .solid⟩] >>= fun ends =>
            pure (if after.isEmpty then [] else ends))
          (lowerBlock body [⟨f', none, .solid⟩] >>= fun ends =>
            pure (if after'.isEmpty then [] else ends)) ExitsAlike := by
        intro ρ₂ hρ₂
        refine (lockstep_lowerBlock body ((hf.mono hρ₂).exit none .solid)).bind fun _ hends => ?_
        rw [hafter.isEmpty_eq]
        split_ifs
        · exact .pure .nil
        · exact .pure hends
      refine .ite (by rw [hafter.isEmpty_eq]) ?_ ?_
      · exact (lockstep_edge (hentry.mono hρ₁).mem hf none .dashed).bind fun hρ₂ _ => hbody hρ₂
      · exact (lockstep_link (hafter.mono hρ₁) hf).bind fun hρ₂ _ => hbody hρ₂

/-- So does drawing the cases of a switch. -/
theorem lockstep_lowerCases (cases : List (Case Stmt)) {ρ : Renaming} {es es' : List Exit}
    (hes : ExitsAlike ρ es es') : T.Lockstep ρ (lowerCases cases es) (lowerCases cases es')
      fun ρ r r' => ExitsAlike ρ r.1 r'.1 ∧ ExitsAlike ρ r.2 r'.2 := by
  match cases with
  | [] =>
      rw [lowerCases, lowerCases]
      exact .pure ⟨.nil, hes⟩
  | ⟨label, line, true, body⟩ :: rest =>
      rw [lowerCases, lowerCases, if_pos rfl, if_pos rfl]
      exact lockstep_lowerCases rest hes
  | ⟨label, line, false, body⟩ :: rest =>
      rw [lowerCases, lowerCases, if_neg nofun, if_neg nofun]
      refine (lockstep_nodeAfter hes .decision label line).bind fun _ hd => ?_
      refine (lockstep_lowerBlock body (hd.exit (some "Yes") .solid)).bind fun hρ₁ htaken => ?_
      refine (lockstep_lowerCases rest ((hd.mono hρ₁).exit (some "No") .solid)).bind
        fun hρ₂ hr => ?_
      exact .pure ⟨(htaken.mono hρ₂).append hr.1, hr.2⟩

/-- So does drawing its default. -/
theorem lockstep_lowerDefault (cases : List (Case Stmt)) {ρ : Renaming} {es es' : List Exit}
    (hes : ExitsAlike ρ es es') :
    T.Lockstep ρ (lowerDefault cases es) (lowerDefault cases es') ExitsAlike := by
  match cases with
  | [] =>
      rw [lowerDefault, lowerDefault]
      exact .pure hes
  | ⟨label, line, true, body⟩ :: rest =>
      rw [lowerDefault, lowerDefault, if_pos rfl, if_pos rfl]
      exact lockstep_lowerBlock body hes
  | ⟨label, line, false, body⟩ :: rest =>
      rw [lowerDefault, lowerDefault, if_neg nofun, if_neg nofun]
      exact lockstep_lowerDefault rest hes

/-- So does drawing the members of a container. -/
theorem lockstep_lowerMembers (members : List Stmt) {ρ : Renaming} :
    T.Lockstep ρ (lowerMembers members) (lowerMembers members) fun _ _ _ => True := by
  match members with
  | [] =>
      rw [lowerMembers]
      exact .pure trivial
  | s :: rest =>
      rw [lowerMembers]
      exact (lockstep_lowerStmt s .nil).bind fun _ _ => lockstep_lowerMembers rest
end

end Twins

/-! ### Builders in any state -/

/-- Exits of equal labels and styles correspond by their places in the lists. -/
theorem exitsAlike_ofExits {es es' : List Exit}
    (h : List.Forall₂ (fun x x' => x'.label = x.label ∧ x'.style = x.style) es es') :
    ExitsAlike (Renaming.ofExits es es') es es' := by
  induction h with
  | nil => exact .nil
  | @cons x x' es es' hx _ ih =>
      exact .cons ⟨List.mem_cons_self, hx.1, hx.2⟩ (ih.mono (List.subset_cons_self _ _))

/-- The statements are drawn in `b` from `es` as they are in `b'` from `es'`. Both keep what is
there and the scopes that are open. What they add, and the exits they end with, corresponds under
the renaming of sources of exits and of new nodes, each in their order, which is one to one. -/
def DrawnAlike (stmts : List Stmt) (b b' : Builder) (es es' : List Exit) : Prop :=
  ∃ (N N' : List Node) (E E' : List Edge),
    b.Appends (lowerBlock stmts es b).2 N E ∧ (lowerBlock stmts es b).2.scopes = b.scopes ∧
    b'.Appends (lowerBlock stmts es' b').2 N' E' ∧
    (lowerBlock stmts es' b').2.scopes = b'.scopes ∧
    let ρ := Renaming.ofExits es es' ++ Renaming.ofNodes N N'
    ρ.OneToOne ∧ List.Forall₂ (Node.Alike ρ b.scopes.head? b'.scopes.head?) N N' ∧
      List.Forall₂ (Edge.Alike ρ) E E' ∧
      ExitsAlike ρ (lowerBlock stmts es b).1 (lowerBlock stmts es' b').1

/-- Drawing statements does not depend on what was drawn before: in two builders of one mode and
one limit, whatever operations they have been made by, the same is drawn from exits of equal labels
and styles whose sources correspond one to one. -/
theorem drawing_renamed (stmts : List Stmt) {b b' : Builder} (hb : Made (fun _ => True) b)
    (hb' : Made (fun _ => True) b') (hmode : b'.mode = b.mode) (hlimit : b'.limit = b.limit)
    {es es' : List Exit}
    (hes : List.Forall₂ (fun x x' => x'.label = x.label ∧ x'.style = x.style) es es')
    (hone : (Renaming.ofExits es es').OneToOne)
    (hmem : ∀ p ∈ Renaming.ofExits es es', p.1 ∈ b.ids ∧ p.2 ∈ b'.ids) :
    DrawnAlike stmts b b' es es' := by
  let T : Twins := ⟨b, b', Renaming.ofExits es es', hb.sound, hb'.sound, hmode, hlimit, hone, hmem⟩
  obtain ⟨ρ, -, hdrawn, hscopes, hscopes', hexits⟩ :=
    Twins.lockstep_lowerBlock (T := T) stmts (exitsAlike_ofExits hes) b b' Twins.Drawn.start
  obtain ⟨N, N', E, E', happends, happends', rfl, hnodes, hedges⟩ := hdrawn.added
  exact ⟨N, N', E, E', happends, hscopes, happends', hscopes', hdrawn.oneToOne, hnodes, hedges,
    hexits⟩

/-- A choice with a loop in it and a container, drawn after a step, and drawn after a decision that
stands in a subgraph: from exits with the same label and the same style. -/
theorem drawing_renamed_branch :
    let stmts : List Stmt := [.branch (some 3) "if" "x" [.loop (some 4) "while" [.skip] []] [],
      .container (some 5) "C" []]
    let b := ((empty .lenient (some 50)).addNode .process "a" (some 1)).2
    let b' := (((empty .lenient (some 50)).openSubgraph "D" none).2.addNode .decision "d" none).2
    let es : List Exit := [⟨"L1_1", some "Yes", .dashed⟩]
    let es' : List Exit := [⟨"N2", some "Yes", .dashed⟩]
    (Made (fun _ => True) b ∧ Made (fun _ => True) b' ∧ b'.mode = b.mode ∧ b'.limit = b.limit ∧
      List.Forall₂ (fun x x' => x'.label = x.label ∧ x'.style = x.style) es es' ∧
      (Renaming.ofExits es es').OneToOne ∧
      ∀ p ∈ Renaming.ofExits es es', p.1 ∈ b.ids ∧ p.2 ∈ b'.ids) ∧
    DrawnAlike stmts b b' es es' := by
  intro stmts b b' es es'
  have hb : Made (fun _ => True) b := .node "a" _ (.empty _ _) trivial IdFamily.proper_line
  have hb' : Made (fun _ => True) b' :=
    .node "d" _ (.openSubgraph "D" none (.empty _ _)) trivial IdFamily.proper_line
  have hes : List.Forall₂ (fun x x' => x'.label = x.label ∧ x'.style = x.style) es es' :=
    .cons ⟨rfl, rfl⟩ .nil
  have hone : (Renaming.ofExits es es').OneToOne := by
    unfold Renaming.OneToOne
    decide
  have hmem : ∀ p ∈ Renaming.ofExits es es', p.1 ∈ b.ids ∧ p.2 ∈ b'.ids := by decide
  exact ⟨⟨hb, hb', rfl, rfl, hes, hone, hmem⟩, drawing_renamed stmts hb hb' rfl rfl hes hone hmem⟩

end Flowchart
