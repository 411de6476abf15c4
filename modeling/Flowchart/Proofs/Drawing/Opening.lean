import Flowchart.Proofs.Drawing.Drawn
import Flowchart.Proofs.Drawing.Emitted

/-!
# How a drawing opens

A drawing that takes its exits somewhere takes them to its first node on the flow, and one without
such a node hands its exits on (`Opens`). Most statements start with a node of their own
(`Stmt.hasHead`), and that node is the first one on their flow; a container draws nothing on the
flow, and the other statements open as their blocks do.

## Main results

* `opens_of_blocks`: how a statement opens, if its blocks open.
* `Block.first?_cons`: the first node of a block is that of its first statement which draws any.
* `Block.opens`: how a block opens.
-/

namespace Flowchart

open Builder

/-- The drawing takes its exits to its first node on the flow; if there is none, it hands them
on. -/
def Opens (es : List Exit) (b : Builder) (e : List Exit) (b' : Builder) : Prop :=
  (Passed es b e b' ∧ b.first? b' = none) ∨ ∃ n, b.first? b' = some n ∧ Linked es b n.id e b'

namespace Opens

variable {es e e' : List Exit} {b b₁ b' : Builder}

/-- Where nothing is drawn, the exits are handed on. -/
theorem refl (es : List Exit) (b : Builder) : Opens es b es b :=
  Or.inl ⟨⟨rfl, fun _ hd => Or.inl hd⟩, by rw [first?, added_self]; rfl⟩

/-- One drawing after another opens as the first one does, or as the second one if the first one
draws nothing on the flow. -/
theorem seq (h₁ : Opens es b e b₁) (hgrows : Grows b b₁) (h₂ : Opens e b₁ e' b')
    (hf : Fragment e b₁ e' b') : Opens es b e' b' := by
  have hfirst := first?_append hgrows.nodes_prefix hf.grows.nodes_prefix hgrows.scopes_eq
  rcases h₁ with ⟨hp₁, hnone⟩ | ⟨n, hsome, hl⟩
  · rw [hnone, Option.none_or] at hfirst
    rcases h₂ with ⟨hp₂, hnone₂⟩ | ⟨n, hsome, hl⟩
    · exact Or.inl ⟨hp₁.seq hgrows hp₂, hfirst.trans hnone₂⟩
    · exact Or.inr ⟨n, hfirst.trans hsome, hp₁.linked hgrows hl⟩
  · rw [hsome, Option.some_or] at hfirst
    exact Or.inr ⟨n, hfirst, hl.seq hgrows hf⟩

end Opens

/-- Drawing the block opens at its first node on the flow. -/
def Block.Opens (r : Block) : Prop := Flowchart.Opens r.exits r.before r.ends r.after

/-- What has been drawn before a block is there when the statement that holds it has been drawn. -/
theorem Block.Placed.extends {r : Block} {b b' : Builder} {e : List Exit} (h : r.Placed b e b') :
    Extends r.before b' :=
  (r.segment h.sound h.pending).grows.extends.trans h.framed.keeps

namespace Visit

/-- A statement with a node of its own starts with it, and its exits lead there. -/
theorem exists_head (v : Visit) (hs : v.before.Sound) (hes : ∀ x ∈ v.exits, x.Pending v.before)
    (h : v.stmt.hasHead = true) : ∃ n b₁, v.before.Adds n b₁ ∧ n.shape ≠ .subgraph ∧
      Extends (b₁.linkAll v.exits n.id) v.after := by
  have hv := v.drawn hs hes
  obtain ⟨s, es, b⟩ := v
  set v : Visit := ⟨s, es, b⟩ with hdef
  -- a node that a block of the statement comes after
  have hplaced : ∀ (r : Block) (shape : Shape) (text : String) (line : Option Int), r ∈ v.blocks →
      shape ≠ .subgraph → Extends (v.before.place v.exits shape text line) r.before →
      ∃ n b₁, v.before.Adds n b₁ ∧ n.shape ≠ .subgraph ∧
        Extends (b₁.linkAll v.exits n.id) v.after := fun r shape text line hr hshape hext =>
    ⟨_, _, Adds.node v.before shape text line hshape, hshape, hext.trans (hv.placed r hr).extends⟩
  have hchain : ∀ c, v.chain? = some c → ∃ n b₁, v.before.Adds n b₁ ∧ n.shape ≠ .subgraph ∧
      Extends (b₁.linkAll v.exits n.id) v.after := by
    intro c hc
    have hlinks := (hasHead_iff_links hc).mp h
    obtain ⟨-, hlaid, hblocks⟩ := close_chain hc
    cases hlaid with
    | last r => exact absurd rfl hlinks
    | @cons _ _ text line body c _ =>
        rw [Chain.cons_blocks] at hblocks
        exact hplaced _ .decision text line (hblocks ▸ List.mem_cons_self) (by simp)
          (Extends.refl _)
  cases s with
  | simple line text =>
      exact ⟨_, _, Adds.node b .process text line (by simp), by simp, Extends.refl _⟩
  | branch => exact hchain _ rfl
  | loop line text body orelse =>
      exact hplaced _ .loop text line List.mem_cons_self (by simp) (Extends.refl _)
  | countedLoop line text init cond update body =>
      have hs₁ : (countedEntry line init es b).2.Sound :=
        (countedEntry_fragment line init hs hes).1.grows.sound hs
      have hmem : (loopFrom (countedEntry line init es b).1 (countedEntry line init es b).2 line
          (orText cond text) body update).body ∈
          (⟨.countedLoop line text init cond update body, es, b⟩ : Visit).blocks :=
        List.mem_cons_self
      by_cases hinit : init.isEmpty = true
      · refine hplaced _ .loop (orText cond text) line hmem (by simp) ?_
        rw [countedEntry, if_pos hinit]
        exact Extends.refl _
      · refine hplaced _ .process init line hmem (by simp) ?_
        rw [countedEntry, if_neg hinit] at hs₁ ⊢
        have hentry : Fragment es b [Exit.plain (b.freshId line)] (b.place es .process init line) :=
          Fragment.place hs hes (by simp) init line
        have hhead : Fragment [Exit.plain (b.freshId line)] (b.place es .process init line) _
            ((b.place es .process init line).place _ .loop (orText cond text) line) :=
          Fragment.place hs₁ hentry.pending (by simp) (orText cond text) line
        exact hhead.grows.extends
  | guarded line text body orelse handlers cleanup =>
      exact hplaced _ .flag (orText text "Try") line List.mem_cons_self (by simp) (Extends.refl _)
  | switch => exact hchain _ rfl
  | resource line text body close =>
      exact hplaced _ .process text line (List.mem_singleton_self _) (by simp) (Extends.refl _)
  | terminal line text =>
      exact ⟨_, _, Adds.node b .terminal text line (by simp), by simp, Extends.refl _⟩
  | function line text body =>
      exact hplaced _ .stadium text line (List.mem_singleton_self _) (by simp) (Extends.refl _)
  | container | block | skip => exact absurd h (by simp [Stmt.hasHead])

/-- The node of its own with which a statement starts is the first one on its flow. -/
theorem linked_head (v : Visit) (hs : v.before.Sound) (hes : ∀ x ∈ v.exits, x.Pending v.before)
    (h : v.stmt.hasHead = true) : ∃ n, v.first? = some n ∧ idNumber n.id = v.before.next ∧
      Linked v.exits v.before n.id v.ends v.after := by
  obtain ⟨n, b₁, hadds, hshape, hext⟩ := v.exists_head hs hes h
  have hf := (v.drawn hs hes).segment.toFragment
  have hn : n ∈ v.after.nodes := hext.nodes_prefix.subset (by
    rw [linkAll_nodes]
    exact hadds.mem_nodes)
  have hlinked : ∀ x ∈ v.exits, x.edgeTo v.before n.id ∈ v.after.edges := fun x hx =>
    hext.edges_prefix.subset ((hadds.mem_linkAll_edges hs hes).mpr (Or.inr ⟨x, hx, rfl⟩))
  -- the edge from an exit to the new node is new, but starts at a node from before
  have hedge : ∀ x ∈ v.exits, x.edgeTo v.before n.id ∉ v.before.edges ∧
      idNumber x.node < v.before.next := fun x hx => by
    refine ⟨fun hold => ?_, hs.idNumber_lt (hes x hx).mem_ids⟩
    have hlt : idNumber n.id < v.before.next := hs.idNumber_lt (hs.target_mem _ hold)
    rw [hadds.number_eq] at hlt
    exact Nat.lt_irrefl _ hlt
  refine ⟨n, first?_eq hs hf.grows hn hadds.number_eq hshape, hadds.number_eq, ?_⟩
  rcases hf.flow with hp | ⟨t, hl⟩
  · have hnil : v.exits = [] := by
      refine List.eq_nil_iff_forall_not_mem.mpr fun x hx => ?_
      obtain ⟨hnew, hlt⟩ := hedge x hx
      rcases hp.source _ (hlinked x hx) with hold | hle
      · exact hnew hold
      · exact absurd hlt (Nat.not_lt.mpr hle)
    refine ⟨fun d hd => (hp.source d hd).imp id Or.inl, hlinked, fun hne => absurd hnil hne,
      fun x hx => ?_⟩
    rw [hp.ends_eq, hnil] at hx
    exact absurd hx List.not_mem_nil
  · by_cases hnil : v.exits = []
    · refine ⟨fun d hd => ?_, hlinked, fun hne => absurd hnil hne, hl.fresh⟩
      rw [hnil]
      simpa [hnil] using hl.source d hd
    · obtain ⟨x, hx⟩ := List.exists_mem_of_ne_nil _ hnil
      obtain ⟨hnew, hlt⟩ := hedge x hx
      rcases hl.source _ (hlinked x hx) with hold | hle | ⟨y, -, heq⟩
      · exact absurd hold hnew
      · exact absurd hlt (Nat.not_lt.mpr hle)
      · have htarget : n.id = t := congrArg Edge.target heq
        rw [htarget]
        exact hl

/-- A container draws nothing on the flow. -/
theorem first?_container {line : Option Int} {text : String} {members : List Stmt}
    {es : List Exit} {b : Builder} (hs : b.Sound) :
    (⟨.container line text members, es, b⟩ : Visit).first? = none := by
  set b₀ := (b.openSubgraph text line).2 with hb₀
  obtain ⟨hfrag, -⟩ := memberBlocks_drawn members (hs.openSubgraph text line) fun r _ => r.good
  obtain ⟨b₂, hlower, hgrows, hlen, -⟩ :=
    exists_lowerStmt_container line text members es b hfrag.grows
  have hafter : (⟨.container line text members, es, b⟩ : Visit).after = b₂.closeSubgraph :=
    congrArg Prod.snd hlower
  have hgrows₀ : Grows b₀ b₂ := hfrag.grows.trans hgrows
  have hscope : Grows b b₂.closeSubgraph := Grows.scope text line hgrows₀ hlen
  rw [first?, hafter]
  refine List.find?_eq_none.mpr fun n hn hflow => ?_
  obtain ⟨hshape, hparent⟩ := onFlow_iff.mp hflow
  obtain ⟨hmem, hnew⟩ := (mem_added_iff_not_mem hs (hscope.sound hs) hscope.nodes_prefix).mp hn
  -- the subgraph that was open at the start has an earlier number than those opened since
  have hnumber : ∀ p, n.parent = some p → idNumber p < b.next := fun p hp =>
    hs.idNumber_scope_lt (hparent.symm.trans hp)
  rcases hgrows₀.parent n hmem with hold | hopen | ⟨p, hp, hle⟩
  · rw [hb₀, openSubgraph_nodes, List.mem_append, List.mem_singleton] at hold
    refine hold.elim hnew ?_
    rintro rfl
    exact hshape rfl
  · have hlt := hnumber _ hopen
    rw [idNumber_idOf IdFamily.proper_subgraph none b.next] at hlt
    exact Nat.lt_irrefl _ hlt
  · exact absurd (Nat.lt_of_lt_of_le (hnumber p hp) (Nat.le_of_succ_le hle)) (Nat.lt_irrefl _)

/-- Every statement opens as its blocks do. -/
theorem opens_of_blocks (v : Visit) (hs : v.before.Sound)
    (hes : ∀ x ∈ v.exits, x.Pending v.before)
    (hr : ∀ r ∈ v.blocks, r.before.Sound → (∀ x ∈ r.exits, x.Pending r.before) → r.Opens) :
    Flowchart.Opens v.exits v.before v.ends v.after := by
  by_cases hhead : v.stmt.hasHead = true
  · obtain ⟨n, hfirst, -, hl⟩ := v.linked_head hs hes hhead
    exact Or.inr ⟨n, hfirst, hl⟩
  have hv := v.drawn hs hes
  obtain ⟨s, es, b⟩ := v
  cases s with
  | switch line text subject cases =>
      set c := caseChain (defaultBody cases) cases es b with hc
      have hchain : (⟨.switch line text subject cases, es, b⟩ : Visit).chain? = some c := rfl
      have hlinks : c.links = [] := by
        by_contra hne
        exact hhead ((hasHead_iff_links hchain).mpr hne)
      obtain ⟨hblocks, hexits, hbefore, hends, hafter⟩ := chain_of_links_nil hchain hlinks
      have hlast : c.last.Opens := by
        refine hr c.last (hblocks ▸ List.mem_singleton_self _) (hbefore ▸ hs) ?_
        rw [hexits, hbefore]
        exact hes
      rw [Block.Opens, hexits, hbefore] at hlast
      rw [hends, hafter]
      exact hlast
  | container line text members =>
      have hends : (⟨.container line text members, es, b⟩ : Visit).ends = es :=
        congrArg Prod.fst (lowerStmt_container line text members es b)
      have hf := hv.segment.toFragment
      rw [hends] at hf ⊢
      exact Or.inl ⟨hf.passed hs hes, first?_container hs⟩
  | block line body => exact hr ⟨body, es, b⟩ (List.mem_singleton_self _) hs hes
  | skip => exact Opens.refl es b
  | _ => exact absurd rfl hhead

end Visit

/-- The first node on the flow of a block is that of its first statement, if that draws one. -/
theorem Block.first?_cons {s : Stmt} {rest : List Stmt} {es : List Exit} {b : Builder}
    (hs : b.Sound) (hes : ∀ x ∈ es, x.Pending b) : (⟨s :: rest, es, b⟩ : Block).first? =
      (⟨s, es, b⟩ : Visit).first?.or
        (⟨rest, (⟨s, es, b⟩ : Visit).ends, (⟨s, es, b⟩ : Visit).after⟩ : Block).first? := by
  have hf := (Visit.drawn ⟨s, es, b⟩ hs hes).segment.toFragment
  have hrest := Block.segment ⟨rest, (⟨s, es, b⟩ : Visit).ends, (⟨s, es, b⟩ : Visit).after⟩
    (hf.grows.sound hs) hf.pending
  exact Builder.first?_append hf.grows.nodes_prefix hrest.grows.nodes_prefix hf.grows.scopes_eq

/-- Every block opens at its first node on the flow. -/
theorem Block.opens (r : Block) (hs : r.before.Sound) (hes : ∀ x ∈ r.exits, x.Pending r.before) :
    r.Opens := by
  induction r using Block.induction with
  | nil es b => exact Opens.refl es b
  | cons s rest es b hblocks hrest =>
      have hf := (Visit.drawn ⟨s, es, b⟩ hs hes).segment.toFragment
      have hs₁ := hf.grows.sound hs
      have hfirst := Visit.opens_of_blocks ⟨s, es, b⟩ hs hes fun r hr => hblocks r hr
      exact hfirst.seq hf.grows (hrest hs₁ hf.pending)
        (Block.segment ⟨rest, _, _⟩ hs₁ hf.pending).toFragment

end Flowchart
